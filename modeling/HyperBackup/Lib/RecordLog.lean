import HyperBackup.Lib.LittleEndian

/-!
# Logs of framed records

A log is a file to which records are appended one after the other, each a
frame of bytes that tells its own length.  A reader looks at the beginning of
what is left of the file: it finds a record and goes on behind it, or it stops
there, or it gives up with an error.

`Frames` collects what a format owes its reader: a complete record is found
whatever follows it, and a reader stops at a proper part of a record.  From
this follows what is read from records with any remains behind them.  The
second part is about logs whose writer may be cut off in the middle of a
record, and the third about a common header.
-/

namespace Lib
namespace RecordLog

section Scan

variable {ε α β γ : Type}

/-- What a reader finds at the beginning of the data. -/
inductive Head (ε γ : Type)
  | stop
  | fail (e : ε)
  | record (entry : γ) (length : Nat)

/-- Read record after record. -/
def scan (head : List β → Head ε γ) : Nat → List β → Except ε (List γ)
  | 0, _ => .ok []
  | fuel + 1, data =>
      match head data with
      | .stop => .ok []
      | .fail e => .error e
      | .record entry length =>
          (scan head fuel (data.drop length)).map (entry :: ·)

def readAll (head : List β → Head ε γ) (data : List β) : Except ε (List γ) :=
  scan head (data.length + 1) data

/-- What a format owes its reader, for the entries it can hold. -/
structure Frames (head : List β → Head ε γ) (encode : α → List β)
    (decoded : α → γ) (Good : α → Prop) : Prop where
  nonempty : ∀ a, 0 < (encode a).length
  record : ∀ a, Good a → ∀ rest,
    head (encode a ++ rest) = .record (decoded a) (encode a).length
  torn : ∀ a, Good a → ∀ k < (encode a).length, head ((encode a).take k) = .stop

variable {head : List β → Head ε γ} {encode : α → List β} {decoded : α → γ}
variable {Good : α → Prop} {as : List α} {tail : List β}

/-- Complete records are read, and then what follows them. -/
theorem scan_flatMap_append (hframes : Frames head encode decoded Good)
    (hgood : ∀ a ∈ as, Good a) (fuel : Nat) :
    scan head (as.length + fuel) (as.flatMap encode ++ tail) =
      (scan head fuel tail).map (as.map decoded ++ ·) := by
  induction as with
  | nil =>
      simp only [List.length_nil, Nat.zero_add, List.flatMap_nil, List.nil_append,
        List.map_nil]
      cases scan head fuel tail with
      | error e =>
          rfl
      | ok entries =>
          rfl
  | cons a as ih =>
      have hrest := ih fun a' ha' => hgood a' (List.mem_cons_of_mem _ ha')
      have hfuel : (a :: as).length + fuel = (as.length + fuel) + 1 := by
        rw [List.length_cons]
        omega
      rw [hfuel, scan, List.flatMap_cons, List.append_assoc,
        hframes.record a (hgood a List.mem_cons_self)]
      simp only [List.drop_left, hrest]
      cases scan head fuel tail with
      | error e =>
          rfl
      | ok entries =>
          rfl

theorem length_le_length_flatMap (hframes : Frames head encode decoded Good)
    (as : List α) : as.length ≤ (as.flatMap encode).length := by
  induction as with
  | nil =>
      simp
  | cons a as ih =>
      have ha := hframes.nonempty a
      rw [List.flatMap_cons, List.length_append, List.length_cons]
      omega

/-- Complete records are read, and then what follows them. -/
theorem readAll_flatMap_append (hframes : Frames head encode decoded Good)
    (hgood : ∀ a ∈ as, Good a) (tail : List β) :
    ∃ fuel, readAll head (as.flatMap encode ++ tail) =
      (scan head (fuel + 1) tail).map (as.map decoded ++ ·) := by
  have hlen := length_le_length_flatMap hframes as
  refine ⟨(as.flatMap encode ++ tail).length - as.length, ?_⟩
  rw [← scan_flatMap_append hframes hgood, readAll]
  congr 1
  rw [List.length_append]
  omega

/-- Records with remains at which the reader stops are read exactly. -/
theorem readAll_of_stop (hframes : Frames head encode decoded Good)
    (hgood : ∀ a ∈ as, Good a) (hstop : head tail = .stop) :
    readAll head (as.flatMap encode ++ tail) = .ok (as.map decoded) := by
  obtain ⟨fuel, hread⟩ := readAll_flatMap_append hframes hgood tail
  rw [hread, scan, hstop]
  simp [Except.map]

/-- A reader that never fails reads the records first, whatever follows. -/
theorem exists_readAll_eq_append (hframes : Frames head encode decoded Good)
    (hgood : ∀ a ∈ as, Good a) (hnofail : ∀ data e, head data ≠ .fail e)
    (tail : List β) :
    ∃ more, readAll head (as.flatMap encode ++ tail) =
      .ok (as.map decoded ++ more) := by
  have hok : ∀ fuel data, ∃ entries, scan head fuel data = .ok entries := by
    intro fuel
    induction fuel with
    | zero =>
        intro data
        exact ⟨[], rfl⟩
    | succ fuel ih =>
        intro data
        rw [scan]
        cases hhead : head data with
        | stop =>
            exact ⟨[], rfl⟩
        | fail e =>
            exact absurd hhead (hnofail data e)
        | record entry length =>
            obtain ⟨entries, hentries⟩ := ih (data.drop length)
            refine ⟨entry :: entries, ?_⟩
            simp only [hentries]
            rfl
  obtain ⟨fuel, hread⟩ := readAll_flatMap_append hframes hgood tail
  obtain ⟨entries, hentries⟩ := hok (fuel + 1) tail
  exact ⟨entries, by rw [hread, hentries]; rfl⟩

end Scan

section Writers

variable {α β : Type} (encode : α → List β)

/-- What happens to a log: a record is appended, a writer is cut off when some
of the bytes of its record are in the file, and the file is opened again. -/
inductive Event (α : Type)
  | append (entry : α)
  | crash (entry : α) (kept : Nat)
  | reopen
deriving DecidableEq

/-- The bytes an event adds to the file. -/
def Event.bytes : Event α → List β
  | .append a => encode a
  | .crash a kept => (encode a).take kept
  | .reopen => []

def Event.appended : Event α → Option α
  | .append a => some a
  | _ => none

/-- All bytes of a run. -/
def written (events : List (Event α)) : List β :=
  events.flatMap (Event.bytes encode)

/-- The entries whose append has succeeded. -/
def succeeded (events : List (Event α)) : List α :=
  events.filterMap Event.appended

/-- A writer that is cut off leaves less than its record. -/
def ProperCrashes (events : List (Event α)) : Prop :=
  ∀ a kept, Event.crash a kept ∈ events → kept < (encode a).length

/-- No append succeeds after a writer has been cut off in its record. -/
def NoneAppendedAfterTear : List (Event α) → Prop
  | [] => True
  | .crash a kept :: events =>
      ((encode a).take kept = [] ∨ succeeded events = []) ∧
        NoneAppendedAfterTear events
  | _ :: events => NoneAppendedAfterTear events

/-- Nothing is written after a writer has been cut off in its record. -/
def NothingAfterTear : List (Event α) → Prop
  | [] => True
  | .crash a kept :: events =>
      ((encode a).take kept = [] ∨ written encode events = []) ∧
        NothingAfterTear events
  | _ :: events => NothingAfterTear events

variable {encode} {events : List (Event α)}

/-- If no append succeeds after a tear, the complete records come first. -/
theorem exists_written_eq_append (h : NoneAppendedAfterTear encode events) :
    ∃ tail, written encode events =
      (succeeded events).flatMap encode ++ tail := by
  induction events with
  | nil =>
      exact ⟨[], rfl⟩
  | cons event events ih =>
      cases event with
      | append a =>
          obtain ⟨tail, htail⟩ := ih h
          refine ⟨tail, ?_⟩
          rw [written, List.flatMap_cons, ← written, htail, Event.bytes]
          simp [succeeded, Event.appended]
      | reopen =>
          obtain ⟨tail, htail⟩ := ih h
          exact ⟨tail, htail⟩
      | crash a kept =>
          obtain ⟨hempty | hnone, hrest⟩ := h
          · obtain ⟨tail, htail⟩ := ih hrest
            refine ⟨tail, ?_⟩
            rw [written, List.flatMap_cons, ← written, htail, Event.bytes, hempty]
            rfl
          · refine ⟨written encode (.crash a kept :: events), ?_⟩
            have hsucceeded : succeeded (.crash a kept :: events) = [] := hnone
            rw [hsucceeded]
            rfl

/-- Where no bytes are written, no append succeeds. -/
theorem succeeded_eq_nil (hnonempty : ∀ a, 0 < (encode a).length)
    (h : written encode events = []) : succeeded events = [] := by
  rw [succeeded, List.filterMap_eq_nil_iff]
  intro event hmem
  cases event with
  | append a =>
      have hbytes : encode a = [] := List.flatMap_eq_nil_iff.mp h _ hmem
      have hlen := hnonempty a
      rw [hbytes] at hlen
      cases hlen
  | _ => rfl

/-- If nothing is written after a tear, the complete records come first and
then at most a part of one more. -/
theorem exists_written_eq_append_torn (hnonempty : ∀ a, 0 < (encode a).length)
    (h : NothingAfterTear encode events) :
    ∃ tail, written encode events = (succeeded events).flatMap encode ++ tail ∧
      (tail = [] ∨ ∃ a kept, Event.crash a kept ∈ events ∧
        tail = (encode a).take kept) := by
  induction events with
  | nil =>
      exact ⟨[], rfl, Or.inl rfl⟩
  | cons event events ih =>
      cases event with
      | append a =>
          obtain ⟨tail, htail, htorn⟩ := ih h
          refine ⟨tail, ?_, htorn.imp_right ?_⟩
          · rw [written, List.flatMap_cons, ← written, htail, Event.bytes]
            simp [succeeded, Event.appended]
          · rintro ⟨a, kept, hmem, rfl⟩
            exact ⟨a, kept, List.mem_cons_of_mem _ hmem, rfl⟩
      | reopen =>
          obtain ⟨tail, htail, htorn⟩ := ih h
          refine ⟨tail, htail, htorn.imp_right ?_⟩
          rintro ⟨a, kept, hmem, rfl⟩
          exact ⟨a, kept, List.mem_cons_of_mem _ hmem, rfl⟩
      | crash a kept =>
          obtain ⟨hempty | hnone, hrest⟩ := h
          · obtain ⟨tail, htail, htorn⟩ := ih hrest
            refine ⟨tail, ?_, htorn.imp_right ?_⟩
            · rw [written, List.flatMap_cons, ← written, htail, Event.bytes,
                hempty]
              rfl
            · rintro ⟨a, kept, hmem, rfl⟩
              exact ⟨a, kept, List.mem_cons_of_mem _ hmem, rfl⟩
          · refine ⟨(encode a).take kept, ?_,
              Or.inr ⟨a, kept, List.mem_cons_self, rfl⟩⟩
            have hrest : succeeded events = [] :=
              succeeded_eq_nil hnonempty hnone
            have hsucceeded : succeeded (.crash a kept :: events) = [] := hrest
            rw [hsucceeded, written, List.flatMap_cons, ← written, hnone,
              List.append_nil]
            rfl

end Writers

section Header

/-- A tag, a time stamp, an identifier and the length of what follows. -/
structure Header where
  tag : UInt8
  stamp : UInt64
  id : BitVec 128
  length : UInt32
deriving DecidableEq

namespace Header

def size : Nat :=
  1 + 8 + 16 + 4

/-- Numbers with the least significant byte first, the identifier with the
most significant one first. -/
def encode (h : Header) : List UInt8 :=
  [h.tag] ++ (LittleEndian.encode 8 h.stamp.toNat ++
    ((LittleEndian.encode 16 h.id.toNat).reverse ++
      LittleEndian.encode 4 h.length.toNat))

def decode (data : List UInt8) : Header where
  tag := data.headD 0
  stamp := UInt64.ofNat (LittleEndian.decode ((data.drop 1).take 8))
  id := BitVec.ofNat 128 (LittleEndian.decode ((data.drop 9).take 16).reverse)
  length := UInt32.ofNat (LittleEndian.decode ((data.drop 25).take 4))

@[simp] theorem length_encode (h : Header) : h.encode.length = size := by
  simp [encode, size]

/-- A header is read back, whatever follows it. -/
@[simp] theorem decode_encode_append (h : Header) (rest : List UInt8) :
    decode (h.encode ++ rest) = h := by
  have hbytes : h.encode ++ rest =
      [h.tag] ++ (LittleEndian.encode 8 h.stamp.toNat ++
        ((LittleEndian.encode 16 h.id.toNat).reverse ++
          (LittleEndian.encode 4 h.length.toNat ++ rest))) := by
    simp only [encode, List.append_assoc]
  have hstamp : ((h.encode ++ rest).drop 1).take 8 =
      LittleEndian.encode 8 h.stamp.toNat := by
    rw [hbytes, List.drop_left' (by rfl), List.take_left' (by simp)]
  have hid : ((h.encode ++ rest).drop 9).take 16 =
      (LittleEndian.encode 16 h.id.toNat).reverse := by
    rw [hbytes, ← List.append_assoc, List.drop_left' (by simp),
      List.take_left' (by simp)]
  have hlength : ((h.encode ++ rest).drop 25).take 4 =
      LittleEndian.encode 4 h.length.toNat := by
    rw [hbytes, ← List.append_assoc, ← List.append_assoc,
      List.drop_left' (by simp), List.take_left' (by simp)]
  have htag : (h.encode ++ rest).headD 0 = h.tag := rfl
  rw [decode, htag, hstamp, hid, hlength, List.reverse_reverse,
    LittleEndian.decode_encode (h.stamp.toNat_lt), LittleEndian.decode_encode
      (h.id.isLt), LittleEndian.decode_encode (h.length.toNat_lt)]
  simp

/-- A header only depends on its own bytes. -/
theorem decode_take {data : List UInt8} {k : Nat} (hk : size ≤ k) :
    decode (data.take k) = decode data := by
  have hpart : ∀ i n, i + n ≤ size →
      ((data.take k).drop i).take n = (data.drop i).take n := by
    intro i n hin
    rw [List.drop_take, List.take_take, Nat.min_eq_left (by omega)]
  have hhead : (data.take k).headD 0 = data.headD 0 := by
    cases data with
    | nil =>
        simp
    | cons b data =>
        obtain ⟨k, rfl⟩ : ∃ n, k = n + 1 := ⟨k - 1, by simp only [size] at hk; omega⟩
        rfl
  rw [decode, decode, hhead, hpart 1 8 (by decide), hpart 9 16 (by decide),
    hpart 25 4 (by decide)]

end Header

end Header

end RecordLog
end Lib
