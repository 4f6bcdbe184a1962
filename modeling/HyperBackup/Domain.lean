import HyperBackup.Lib.Hex
import HyperBackup.Lib.JsonText
import HyperBackup.Lib.LittleEndian
import Mathlib.Data.Vector.Basic

/-!
# Domain types shared by the agent and the BaDou server

The identifiers, digests and times of `hbx-core`.  A digest is an array of 32
bytes and carries its length; a UUID is a 128-bit word with its hyphenated
text form; a point in time is a number of nanoseconds since 1970.

The two hash functions come from other crates.  They are parameters of the
model: `blake3` names chunks and `sha256` names whole files and manifests.
-/

namespace HyperBackup

abbrev Bytes : Type := List UInt8

/-- A string of the control server as its bytes. -/
abbrev GoString : Type := Bytes

abbrev DateTime : Type := Int

abbrev HashDigest : Type := List.Vector UInt8 32

abbrev Uuid : Type := BitVec 128

/-- The content hash of a chunk. -/
structure ChunkHash where
  digest : HashDigest
deriving DecidableEq

structure RepositoryId where
  uuid : Uuid
deriving DecidableEq

structure VersionId where
  uuid : Uuid
deriving DecidableEq

structure JobId where
  uuid : Uuid
deriving DecidableEq

namespace ChunkHash

/-- The lower-case hexadecimal text of a hash. -/
def toHex (h : ChunkHash) : String :=
  Lib.Hex.encode h.digest.toList

/-- The hash of 32 zero bytes. -/
def zero : ChunkHash :=
  ⟨List.Vector.replicate 32 0⟩

/-- The BLAKE3 hash of no bytes. -/
def ofEmpty : ChunkHash :=
  ⟨⟨[
    0xaf, 0x13, 0x49, 0xb9, 0xf5, 0xf9, 0xa1, 0xa6,
    0xa0, 0x40, 0x4d, 0xea, 0x36, 0xdc, 0xc9, 0x49,
    0x9b, 0xcb, 0x25, 0xc9, 0xad, 0xc1, 0x12, 0xb7,
    0xcc, 0x9a, 0x93, 0xca, 0xe4, 0x1f, 0x32, 0x62], rfl⟩⟩

theorem toHex_injective : Function.Injective toHex := by
  intro h h' heq
  have hbytes : h.digest.toList = h'.digest.toList :=
    Lib.Hex.encode_injective heq
  cases h
  cases h'
  congr 1
  exact Subtype.ext hbytes

/-- Distinct hashes have distinct texts, in the form `simp` uses. -/
@[simp] theorem toHex_inj {h h' : ChunkHash} :
    h.toHex = h'.toHex ↔ h = h' :=
  toHex_injective.eq_iff

theorem length_toHex (h : ChunkHash) : h.toHex.toList.length = 64 := by
  simp [toHex, Lib.Hex.length_encode]

end ChunkHash

/-- The sixteen bytes of a UUID, most significant first. -/
def uuidBytes (u : Uuid) : Bytes :=
  (List.range 16).map fun i => UInt8.ofNat (u.toNat / 256 ^ (15 - i))

/-- The hyphenated text of a UUID. -/
def uuidText (u : Uuid) : String :=
  let group := fun i n => Lib.Hex.encode (((uuidBytes u).drop i).take n)
  group 0 4 ++ "-" ++ group 4 2 ++ "-" ++ group 6 2 ++ "-" ++
    group 8 2 ++ "-" ++ group 10 6

/-- The UUID written in a text of 32 digits, hyphens aside. -/
def uuidOfText (text : String) : Except String Uuid :=
  match Lib.Hex.decode (String.ofList (text.toList.filter (· != '-'))) with
  | .error _ => .error ("invalid character in " ++ text)
  | .ok bytes =>
      if bytes.length = 16 then
        .ok (BitVec.ofNat 128 (Lib.LittleEndian.decode bytes.reverse))
      else
        .error ("invalid length: expected length 32 for simple format, found " ++
          toString text.length)

theorem uuidBytes_eq_reverse (u : Uuid) :
    uuidBytes u = (Lib.LittleEndian.encode 16 u.toNat).reverse := by
  simp [uuidBytes, List.range, List.range.loop, Lib.LittleEndian.encode,
    Nat.div_div_eq_div_mul]

/-- Without its hyphens the text of a UUID is the text of its bytes. -/
theorem filter_uuidText (u : Uuid) :
    (uuidText u).toList.filter (· != '-') =
      (Lib.Hex.encode (uuidBytes u)).toList := by
  have hkept : ∀ bytes : Bytes, (Lib.Hex.encode bytes).toList.filter (· != '-') =
      (Lib.Hex.encode bytes).toList := by
    intro bytes
    refine List.filter_eq_self.mpr ?_
    exact Lib.Hex.forall_mem_encode (fun n hn => by interval_cases n <;> rfl) bytes
  have hbytes : uuidBytes u = (uuidBytes u).take 4 ++
      (((uuidBytes u).drop 4).take 2 ++ (((uuidBytes u).drop 6).take 2 ++
        (((uuidBytes u).drop 8).take 2 ++ ((uuidBytes u).drop 10).take 6))) :=
    rfl
  have hencode : ∀ a b : Bytes, (Lib.Hex.encode (a ++ b)).toList =
      (Lib.Hex.encode a).toList ++ (Lib.Hex.encode b).toList := by
    intro a b
    simp [Lib.Hex.encode]
  conv_rhs => rw [hbytes]
  simp only [uuidText, String.toList_append, List.filter_append, hkept, hencode,
    List.drop_zero]
  simp

/-- The text of a UUID is read back. -/
theorem uuidOfText_uuidText (u : Uuid) : uuidOfText (uuidText u) = .ok u := by
  have hlen : (uuidBytes u).length = 16 := by
    simp [uuidBytes]
  have hvalue : Lib.LittleEndian.decode (uuidBytes u).reverse = u.toNat := by
    rw [uuidBytes_eq_reverse, List.reverse_reverse]
    exact Lib.LittleEndian.decode_encode u.isLt
  unfold uuidOfText
  rw [filter_uuidText, String.ofList_toList, Lib.Hex.decode_encode]
  simp only [hlen, if_true, hvalue, BitVec.ofNat_toNat, BitVec.setWidth_eq]

theorem uuidText_injective : Function.Injective uuidText := by
  intro u u' h
  have hread : uuidOfText (uuidText u) = uuidOfText (uuidText u') := by rw [h]
  rw [uuidOfText_uuidText, uuidOfText_uuidText] at hread
  exact Except.ok.inj hread

theorem length_uuidText (u : Uuid) : (uuidText u).toList.length = 36 := by
  simp [uuidText, Lib.Hex.length_encode, uuidBytes]

/-- The characters of the text of a UUID. -/
theorem eq_hyphen_or_mem_encode {u : Uuid} {c : Char}
    (h : c ∈ (uuidText u).toList) :
    c = '-' ∨ ∃ bytes, c ∈ (Lib.Hex.encode bytes).toList := by
  have hhyphen : "-".toList = ['-'] := rfl
  simp only [uuidText, String.toList_append, List.mem_append, hhyphen,
    List.mem_singleton] at h
  rcases h with (((((((h | h) | h) | h) | h) | h) | h) | h) | h
  · exact Or.inr ⟨_, h⟩
  · exact Or.inl h
  · exact Or.inr ⟨_, h⟩
  · exact Or.inl h
  · exact Or.inr ⟨_, h⟩
  · exact Or.inl h
  · exact Or.inr ⟨_, h⟩
  · exact Or.inl h
  · exact Or.inr ⟨_, h⟩

/-- Nothing in the text of a UUID is escaped. -/
theorem quote_uuidText (u : Uuid) :
    Lib.JsonText.quote (uuidText u) = "\"" ++ uuidText u ++ "\"" := by
  refine Lib.JsonText.quote_of_plain fun c hc => ?_
  rcases eq_hyphen_or_mem_encode hc with rfl | ⟨bytes, hdigit⟩
  · rfl
  · exact Lib.Hex.forall_mem_encode
      (P := fun c => Lib.JsonText.escape c = String.ofList [c])
      (fun n hn => by interval_cases n <;> rfl) bytes c hdigit

/-- Objects that begin with different UUIDs have different texts. -/
theorem eq_of_object_quote_uuidText {name : String} {u u' : Uuid}
    {fields fields' : List (String × String)}
    (h : Lib.JsonText.object ((name, Lib.JsonText.quote (uuidText u)) :: fields) =
      Lib.JsonText.object ((name, Lib.JsonText.quote (uuidText u')) :: fields')) :
    u = u' := by
  have hlength : ∀ u, (Lib.JsonText.quote (uuidText u)).toList.length = 38 := by
    intro u
    rw [quote_uuidText, String.toList_append, String.toList_append,
      List.length_append, List.length_append, length_uuidText]
    rfl
  have hquoted := Lib.JsonText.object_head_eq ((hlength u).trans (hlength u').symm) h
  rw [quote_uuidText, quote_uuidText] at hquoted
  exact uuidText_injective
    ((String.append_right_inj _).mp ((String.append_left_inj _).mp hquoted))

/-- The debug text of a version identifier. -/
def VersionId.debug (v : VersionId) : String :=
  "VersionId(" ++ uuidText v.uuid ++ ")"

end HyperBackup
