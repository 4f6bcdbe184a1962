import HyperBackup.Badou.JournalFile

/-!
# The format of the journal of BaDou

What is read from the records of some entries, and a part of a further record
behind them, is exactly these entries.  An append returns the offset at which
its record begins, so a reader that starts there reads this entry and those
appended after it.
-/

namespace HyperBackup
namespace Badou
namespace BadouJournal

open Lib Lib.RecordLog DateTimeMillis

section Format

variable {now : Bytes → DateTime} {journal : BadouJournal}
variable {entries : List BadouJournalEntry} {entry : BadouJournalEntry}

/-- An entry that is read back as it is: it is readable, and its time is in
whole milliseconds. -/
structure Exact (entry : BadouJournalEntry) : Prop extends Readable entry where
  whole : entry.timestamp % 1000000 = 0

theorem Exact.recorded_eq (h : Exact entry) : recorded entry = entry := by
  have htime : timestampMillis entry.timestamp * 1000000 = entry.timestamp :=
    Int.ediv_mul_cancel (Int.dvd_of_emod_eq_zero h.whole)
  unfold recorded
  rw [htime]

theorem map_recorded (h : ∀ entry ∈ entries, Exact entry) :
    entries.map recorded = entries := by
  rw [List.map_congr_left fun entry hentry => (h entry hentry).recorded_eq,
    List.map_id']

/-- Exactly the entries whose records are complete are read from an offset, if
the reader stops behind them. -/
theorem readFrom_of_stop {front tail : Bytes} (hexact : ∀ entry ∈ entries, Exact entry)
    (hstop : readHead now tail = .stop)
    (hfile : journal.file = front ++ (entries.flatMap encodeEntry ++ tail)) :
    journal.readFrom now front.length = .ok entries := by
  rw [readFrom, hfile, List.drop_left, readAll_of_stop (frames now)
    (fun entry hentry => (hexact entry hentry).toReadable) hstop,
    map_recorded hexact]

/-- Append some entries; the results are the offsets. -/
def appendAll (journal : BadouJournal) :
    List BadouJournalEntry → List Nat × BadouJournal
  | [] => ([], journal)
  | entry :: entries =>
      let (offset, journal) := journal.append entry
      let (offsets, journal) := appendAll journal entries
      (offset :: offsets, journal)

/-- No append of the entries rotates the journal. -/
def NoRotation (journal : BadouJournal) (entries : List BadouJournalEntry) : Prop :=
  journal.currentSize + (entries.flatMap encodeEntry).length ≤ journal.rotationSize

/-- The size counter of a journal that was opened is the length of its file. -/
def Opened (journal : BadouJournal) : Prop :=
  journal.currentSize = journal.file.length

theorem opened_openWithRotation (journal : BadouJournal) :
    Opened journal.openWithRotation :=
  rfl

/-- An append keeps the size counter right, also if it rotates the journal. -/
theorem Opened.append (h : Opened journal) (entry : BadouJournalEntry) :
    Opened (journal.append entry).2 := by
  have hroom : Opened (journal.rotateFor (encodeEntry entry).length) := by
    unfold rotateFor
    split
    · rfl
    · exact h
  unfold Opened at hroom ⊢
  simp only [BadouJournal.append, List.length_append, hroom]

theorem append_of_le
    (h : journal.currentSize + (encodeEntry entry).length ≤ journal.rotationSize) :
    journal.append entry =
      (journal.currentSize,
        { journal with
          file := journal.file ++ encodeEntry entry
          currentSize := journal.currentSize + (encodeEntry entry).length }) := by
  have hroom : journal.rotateFor (encodeEntry entry).length = journal :=
    if_neg (Nat.not_lt.mpr h)
  simp only [append, hroom]

/-- The file after some appends, and where each of them begins. -/
theorem appendAll_spec (entries : List BadouJournalEntry) :
    ∀ journal : BadouJournal, Opened journal → NoRotation journal entries →
      (journal.appendAll entries).2.file =
        journal.file ++ entries.flatMap encodeEntry ∧
      ∀ k offset, (journal.appendAll entries).1[k]? = some offset →
        offset = (journal.file ++ (entries.take k).flatMap encodeEntry).length := by
  induction entries with
  | nil =>
      intro journal _ _
      refine ⟨(List.append_nil _).symm, ?_⟩
      intro k offset hk
      cases hk
  | cons entry entries ih =>
      intro journal hopened hroom
      unfold NoRotation at hroom
      rw [List.flatMap_cons, List.length_append] at hroom
      have happend := @append_of_le journal entry (by omega)
      have hrest : NoRotation (journal.append entry).2 entries := by
        rw [happend]
        unfold NoRotation
        simp only
        omega
      obtain ⟨hfile, hoffsets⟩ := ih (journal.append entry).2 (hopened.append entry) hrest
      have hall : journal.appendAll (entry :: entries) =
          ((journal.append entry).1 :: ((journal.append entry).2.appendAll entries).1,
            ((journal.append entry).2.appendAll entries).2) :=
        rfl
      rw [hall]
      refine ⟨?_, ?_⟩
      · rw [hfile, happend, List.flatMap_cons, List.append_assoc]
      · intro k offset hk
        cases k with
        | zero =>
            obtain rfl := Option.some.inj hk
            rw [happend, List.take_zero, List.flatMap_nil, List.append_nil]
            exact hopened
        | succ k =>
            have hoffset := hoffsets k offset (List.getElem?_cons_succ.symm.trans hk)
            rw [hoffset, happend, List.take_succ_cons, List.flatMap_cons,
              List.append_assoc]

/-- Records and a part of one behind them are read back exactly, and from the
offset of an append on, the entries appended from there on. -/
theorem readAll_readFrom (now : Bytes → DateTime)
    {last : BadouJournalEntry} {k : Nat}
    (hexact : ∀ entry ∈ last :: entries, Exact entry)
    (hk : k < (encodeEntry last).length)
    {appended : List BadouJournalEntry}
    (happended : ∀ entry ∈ appended, Exact entry)
    (hopened : Opened journal) (hroom : NoRotation journal appended) :
    (∀ torn : BadouJournal, torn.file =
        entries.flatMap encodeEntry ++ (encodeEntry last).take k →
      torn.readAll now = .ok entries) ∧
    ∀ i offset, (journal.appendAll appended).1[i]? = some offset →
      (journal.appendAll appended).2.readFrom now offset =
        .ok (appended.drop i) := by
  constructor
  · intro torn hfile
    have hstop := (frames now).torn last
      (hexact last List.mem_cons_self).toReadable k hk
    have hentries : ∀ entry ∈ entries, Exact entry :=
      fun entry hentry => hexact entry (List.mem_cons_of_mem _ hentry)
    exact @readFrom_of_stop now torn entries [] _ hentries hstop hfile
  · intro i offset hi
    obtain ⟨hfile, hoffsets⟩ := appendAll_spec appended journal hopened hroom
    have hdrop : ∀ entry ∈ appended.drop i, Exact entry :=
      fun entry hentry => happended entry (List.mem_of_mem_drop hentry)
    have hsplit : appended.flatMap encodeEntry =
        (appended.take i).flatMap encodeEntry ++
          (appended.drop i).flatMap encodeEntry := by
      rw [← List.flatMap_append, List.take_append_drop]
    rw [hoffsets i offset hi]
    refine @readFrom_of_stop now _ _ _ [] hdrop rfl ?_
    rw [hfile, hsplit, List.append_nil, List.append_assoc]

/-- An entry, and the first 35 bytes of its record again behind it. -/
theorem readAll_readFrom_exampleEntry :
    (∀ torn : BadouJournal, torn.file =
        [exampleEntry].flatMap encodeEntry ++ (encodeEntry exampleEntry).take 35 →
      torn.readAll (fun _ => 0) = .ok [exampleEntry]) ∧
    ∀ i offset, ((create 1024).appendAll [exampleEntry, exampleEntry]).1[i]? =
        some offset →
      ((create 1024).appendAll [exampleEntry, exampleEntry]).2.readFrom
        (fun _ => 0) offset = .ok ([exampleEntry, exampleEntry].drop i) := by
  have hexact : ∀ entry ∈ [exampleEntry, exampleEntry], Exact entry := by
    intro entry hentry
    have heq : entry = exampleEntry := by
      rcases List.mem_pair.mp hentry with rfl | rfl
      · rfl
      · rfl
    rw [heq]
    exact ⟨readable_exampleEntry, by decide⟩
  refine readAll_readFrom (fun _ => 0) hexact (by decide) hexact rfl ?_
  unfold NoRotation
  decide

end Format

end BadouJournal
end Badou
end HyperBackup
