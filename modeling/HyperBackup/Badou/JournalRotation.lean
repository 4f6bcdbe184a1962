import HyperBackup.Badou.JournalFile
import HyperBackup.Lib.Rotation
import Mathlib

/-!
# The archives of the BaDou journal

An append that would take the journal beyond its rotation size first renames
the file.  The new name is that of the journal with the time of the rotation in
whole seconds, and a file of that name is replaced.

So the records of an archive are lost if the journal is rotated once more in the
same second.  As long as this does not happen, the archives and the file hold
everything that was appended, in its order.
-/

namespace HyperBackup
namespace Badou

open Lib Lib.RecordLog Lib.Rotation

/-- Whole seconds since 1970, rounded down. -/
def DateTimeMillis.timestamp (t : DateTime) : Int :=
  t / 1000000000

open DateTimeMillis

/-- A journal and the files that its rotations have set aside, by their names
and in the order of the rotations. -/
structure JournalDir where
  path : String
  journal : BadouJournal
  archives : List (String × Bytes)
deriving DecidableEq

namespace JournalDir

section Operations

/-- The name for a file that is set aside in a second. -/
def archivePath (path : String) (seconds : Int) : String :=
  path ++ ".archive." ++ Int.repr seconds

def create (path : String) (rotationSize : Nat) : JournalDir where
  path := path
  journal := .create rotationSize
  archives := []

/-- Rename the file, over a file of that name if there is one. -/
def rotateLocked (dir : JournalDir) (now : DateTime) : JournalDir :=
  let archivePath := archivePath dir.path (timestamp now)
  { dir with
    journal := dir.journal.rotateLocked
    archives := dir.archives.filter (fun archive => archive.1 ≠ archivePath) ++
      [(archivePath, dir.journal.file)] }

/-- Append a record, at a reading of the clock; the result is its offset. -/
def append (dir : JournalDir) (now : DateTime) (entry : BadouJournalEntry) :
    Nat × JournalDir :=
  let encoded := BadouJournal.encodeEntry entry
  let dir :=
    if dir.journal.currentSize + encoded.length > dir.journal.rotationSize then
      dir.rotateLocked now
    else dir
  (dir.journal.currentSize,
    { dir with
      journal := { dir.journal with
        file := dir.journal.file ++ encoded
        currentSize := dir.journal.currentSize + encoded.length } })

/-- A run of appends with the readings of the clock. -/
def run (path : String) (rotationSize : Nat)
    (appends : List (DateTime × BadouJournalEntry)) : JournalDir :=
  appends.foldl (fun dir a => (dir.append a.1 a.2).2) (create path rotationSize)

/-- The bytes of all archives, then those of the journal. -/
def records (dir : JournalDir) : Bytes :=
  dir.archives.flatMap Prod.snd ++ dir.journal.file

/-- Read all archives, then the journal. -/
def readAll (now : Bytes → DateTime) (dir : JournalDir) :
    Except JournalError (List BadouJournalEntry) := do
  let archived ← dir.archives.mapM fun archive =>
    RecordLog.readAll (BadouJournal.readHead now) archive.2
  let current ← dir.journal.readAll now
  return archived.flatten ++ current

/-- Apart from the archives an append is the append of the journal. -/
theorem append_journal (dir : JournalDir) (now : DateTime)
    (entry : BadouJournalEntry) :
    ((dir.append now entry).1, (dir.append now entry).2.journal) =
      dir.journal.append entry := by
  unfold append BadouJournal.append BadouJournal.rotateFor
  by_cases h : dir.journal.currentSize +
      (BadouJournal.encodeEntry entry).length > dir.journal.rotationSize
  · simp only [if_pos h]
    rfl
  · simp only [if_neg h]

end Operations

section Condition

/-- The seconds in which a journal of some size sets aside a file that is not
empty. -/
def rotationSeconds (rotationSize : Nat) :
    Nat → List (DateTime × BadouJournalEntry) → List Int
  | _, [] => []
  | size, (now, entry) :: appends =>
      let length := (BadouJournal.encodeEntry entry).length
      if size + length > rotationSize then
        (if size = 0 then [] else [timestamp now]) ++
          rotationSeconds rotationSize length appends
      else rotationSeconds rotationSize (size + length) appends

end Condition

section Abstract

/-- A log of entries, with the seconds of the rotations for names. -/
abbrev EntryLog :=
  Log Int BadouJournalEntry

/-- The size of a file with some records. -/
def sizeOf (entries : List BadouJournalEntry) : Nat :=
  (entries.flatMap BadouJournal.encodeEntry).length

/-- What an append does to the entries. -/
def appendTo (rotationSize : Nat) (log : EntryLog) (now : DateTime)
    (entry : BadouJournalEntry) : EntryLog :=
  if sizeOf log.current + (BadouJournal.encodeEntry entry).length >
      rotationSize then
    (log.rotate (timestamp now)).append entry
  else log.append entry

def runFrom (rotationSize : Nat) (log : EntryLog)
    (appends : List (DateTime × BadouJournalEntry)) : EntryLog :=
  appends.foldl (fun log a => appendTo rotationSize log a.1 a.2) log

theorem encodeEntry_pos (entry : BadouJournalEntry) :
    0 < (BadouJournal.encodeEntry entry).length := by
  rw [BadouJournal.length_encodeEntry]
  omega

theorem sizeOf_eq_zero {entries : List BadouJournalEntry} :
    sizeOf entries = 0 ↔ entries = [] := by
  cases entries with
  | nil =>
      simp [sizeOf]
  | cons entry entries =>
      have hpos := encodeEntry_pos entry
      simp only [sizeOf, List.flatMap_cons, List.length_append, reduceCtorEq,
        iff_false]
      omega

@[simp] theorem sizeOf_concat (entries : List BadouJournalEntry)
    (entry : BadouJournalEntry) :
    sizeOf (entries ++ [entry]) =
      sizeOf entries + (BadouJournal.encodeEntry entry).length := by
  simp [sizeOf]

variable {rotationSize : Nat} {log : EntryLog}

theorem appendTo_of_gt {now : DateTime} {entry : BadouJournalEntry}
    (h : sizeOf log.current + (BadouJournal.encodeEntry entry).length >
      rotationSize) :
    appendTo rotationSize log now entry =
      (log.rotate (timestamp now)).append entry :=
  if_pos h

theorem appendTo_of_le {now : DateTime} {entry : BadouJournalEntry}
    (h : ¬ sizeOf log.current + (BadouJournal.encodeEntry entry).length >
      rotationSize) :
    appendTo rotationSize log now entry = log.append entry :=
  if_neg h

theorem contents_appendTo_sublist (rotationSize : Nat) (log : EntryLog)
    (now : DateTime) (entry : BadouJournalEntry) :
    (appendTo rotationSize log now entry).contents.Sublist
      (log.contents ++ [entry]) := by
  by_cases h : sizeOf log.current + (BadouJournal.encodeEntry entry).length >
      rotationSize
  · rw [appendTo_of_gt h, Log.contents_append]
    exact (log.contents_rotate_sublist _).append (List.Sublist.refl _)
  · rw [appendTo_of_le h, Log.contents_append]

theorem runFrom_cons (rotationSize : Nat) (log : EntryLog)
    (a : DateTime × BadouJournalEntry)
    (appends : List (DateTime × BadouJournalEntry)) :
    runFrom rotationSize log (a :: appends) =
      runFrom rotationSize (appendTo rotationSize log a.1 a.2) appends :=
  rfl

/-- A run only loses entries. -/
theorem contents_runFrom_sublist (rotationSize : Nat)
    (appends : List (DateTime × BadouJournalEntry)) (log : EntryLog) :
    (runFrom rotationSize log appends).contents.Sublist
      (log.contents ++ appends.map Prod.snd) := by
  induction appends generalizing log with
  | nil =>
      simp [runFrom]
  | cons a appends ih =>
      refine (ih (appendTo rotationSize log a.1 a.2)).trans ?_
      have happend := contents_appendTo_sublist rotationSize log a.1 a.2
      simpa using happend.append (List.Sublist.refl (appends.map Prod.snd))

/-- What a rotation has lost is not made up for by the rest of the run. -/
theorem contents_runFrom_ne {now : DateTime} {entry : BadouJournalEntry}
    {appends : List (DateTime × BadouJournalEntry)}
    (h : timestamp now ∈ log.names) :
    (runFrom rotationSize ((log.rotate (timestamp now)).append entry)
      appends).contents ≠ log.contents ++ entry :: appends.map Prod.snd := by
  intro heq
  have hle := (contents_runFrom_sublist rotationSize appends
    ((log.rotate (timestamp now)).append entry)).length_le
  have hlt := Log.length_contents_rotate_lt h
  rw [heq, Log.contents_append] at hle
  simp only [List.length_append, List.length_cons, List.length_nil] at hle
  omega

/-- A run keeps all entries exactly if no two rotations that set entries aside
are in the same second, also with the archives that are there.  The induction
needs that an empty file stands for a log without archives. -/
theorem contents_runFrom_eq_iff (rotationSize : Nat) {log : EntryLog}
    (hnames : log.names.Nodup)
    (hempty : log.current = [] → log.names = [])
    (appends : List (DateTime × BadouJournalEntry)) :
    (runFrom rotationSize log appends).contents =
        log.contents ++ appends.map Prod.snd ↔
      (log.names ++
        rotationSeconds rotationSize (sizeOf log.current) appends).Nodup := by
  induction appends generalizing log with
  | nil =>
      simp [runFrom, rotationSeconds, hnames]
  | cons a appends ih =>
      obtain ⟨now, entry⟩ := a
      rw [runFrom_cons, rotationSeconds]
      simp only [List.map_cons]
      have hfull : (log.current ++ [entry]) ≠ [] := by simp
      by_cases h : sizeOf log.current + (BadouJournal.encodeEntry entry).length >
          rotationSize
      · rw [appendTo_of_gt h, if_pos h]
        have hsize : sizeOf ((log.rotate (timestamp now)).append entry).current =
            (BadouJournal.encodeEntry entry).length := by
          simp [Log.rotate, Log.append, sizeOf]
        by_cases hmem : timestamp now ∈ log.names
        · have hcurrent : sizeOf log.current ≠ 0 := by
            intro hzero
            rw [hempty (sizeOf_eq_zero.mp hzero)] at hmem
            cases hmem
          refine iff_of_false (contents_runFrom_ne hmem) ?_
          rw [if_neg hcurrent, List.nodup_append]
          rintro ⟨-, -, hdisjoint⟩
          exact hdisjoint _ hmem _ (by simp) rfl
        · have hrotated := Log.names_rotate_of_not_mem hmem
          have hnames' : ((log.rotate (timestamp now)).append entry).names =
              log.names ++
                (if sizeOf log.current = 0 then [] else [timestamp now]) := by
            rw [Log.names_append, hrotated]
            simp only [sizeOf_eq_zero]
          have hnodup : ((log.rotate (timestamp now)).append entry).names.Nodup := by
            rw [hnames']
            by_cases hzero : sizeOf log.current = 0
            · simpa [hzero] using hnames
            · rw [if_neg hzero]
              exact List.Nodup.append hnames (List.nodup_singleton _)
                (List.disjoint_singleton.mpr hmem)
          have hrest := ih hnodup (fun hnil => absurd hnil (by
            simp [Log.rotate, Log.append]))
          rw [hsize, hnames', Log.contents_append,
            Log.contents_rotate_of_not_mem hmem] at hrest
          simpa using hrest
      · rw [appendTo_of_le h, if_neg h]
        have hsize : sizeOf (log.append entry).current =
            sizeOf log.current + (BadouJournal.encodeEntry entry).length :=
          sizeOf_concat log.current entry
        have hrest := @ih (log.append entry) hnames
          (fun hnil => absurd hnil hfull)
        rw [hsize, Log.contents_append, Log.names_append] at hrest
        simpa using hrest

end Abstract

section Refinement

theorem archivePath_inj {path : String} {seconds seconds' : Int} :
    archivePath path seconds = archivePath path seconds' ↔
      seconds = seconds' := by
  unfold archivePath
  rw [String.append_right_inj, Int.repr_inj]

/-- The files of a log of entries. -/
def ofLog (path : String) (rotationSize : Nat) (log : EntryLog) : JournalDir where
  path := path
  journal := .ofFile rotationSize (log.current.flatMap BadouJournal.encodeEntry)
  archives := log.archives.map fun archive =>
    (archivePath path archive.1, archive.2.flatMap BadouJournal.encodeEntry)

variable {path : String} {rotationSize : Nat}

theorem rotateLocked_ofLog (log : EntryLog) (now : DateTime) :
    (ofLog path rotationSize log).rotateLocked now =
      ofLog path rotationSize (log.rotate (timestamp now)) := by
  have hkept : ((ofLog path rotationSize log).archives.filter fun archive =>
      archive.1 ≠ archivePath path (timestamp now)) =
        (log.archives.filter fun archive => archive.1 ≠ timestamp now).map
          fun archive => (archivePath path archive.1,
            archive.2.flatMap BadouJournal.encodeEntry) := by
    rw [ofLog, List.filter_map]
    congr 2
    funext archive
    simp only [Function.comp_apply, ne_eq, archivePath_inj]
  have harchives : ((ofLog path rotationSize log).rotateLocked now).archives =
      (ofLog path rotationSize (log.rotate (timestamp now))).archives := by
    refine Eq.trans ?_ List.map_append.symm
    exact congrArg (· ++ _) hkept
  exact (JournalDir.mk.injEq ..).mpr ⟨rfl, rfl, harchives⟩

theorem ofLog_append (log : EntryLog) (entry : BadouJournalEntry) :
    ofLog path rotationSize (log.append entry) =
      { path := path
        journal :=
          { file := (ofLog path rotationSize log).journal.file ++
              BadouJournal.encodeEntry entry
            rotationSize := rotationSize
            currentSize := (ofLog path rotationSize log).journal.currentSize +
              (BadouJournal.encodeEntry entry).length }
        archives := (ofLog path rotationSize log).archives } := by
  simp only [ofLog, Log.append, BadouJournal.ofFile, List.flatMap_append,
    List.flatMap_cons, List.flatMap_nil, List.append_nil, List.length_append]

/-- An append on the files is one on the entries. -/
theorem append_ofLog (log : EntryLog) (now : DateTime)
    (entry : BadouJournalEntry) :
    ((ofLog path rotationSize log).append now entry).2 =
      ofLog path rotationSize (appendTo rotationSize log now entry) := by
  unfold append
  by_cases h : sizeOf log.current + (BadouJournal.encodeEntry entry).length >
      rotationSize
  · have hfull : (ofLog path rotationSize log).journal.currentSize +
        (BadouJournal.encodeEntry entry).length >
          (ofLog path rotationSize log).journal.rotationSize := h
    simp only [if_pos hfull, appendTo_of_gt h, rotateLocked_ofLog, ofLog_append]
    rfl
  · have hroom : ¬ (ofLog path rotationSize log).journal.currentSize +
        (BadouJournal.encodeEntry entry).length >
          (ofLog path rotationSize log).journal.rotationSize := h
    simp only [if_neg hroom, appendTo_of_le h, ofLog_append]
    rfl

/-- The files of a run are those of the run on the entries. -/
theorem run_eq_ofLog (appends : List (DateTime × BadouJournalEntry)) :
    run path rotationSize appends =
      ofLog path rotationSize (runFrom rotationSize .empty appends) := by
  induction appends using List.reverseRecOn with
  | nil =>
      rfl
  | append_singleton appends a ih =>
      rw [run, List.foldl_concat, ← run, ih, append_ofLog, runFrom, runFrom,
        List.foldl_concat]

theorem records_ofLog (log : EntryLog) :
    (ofLog path rotationSize log).records =
      log.contents.flatMap BadouJournal.encodeEntry := by
  simp only [records, ofLog, Log.contents, BadouJournal.ofFile,
    List.flatMap_append, List.flatMap_map, List.flatMap_assoc]

/-- Readable entries are read back from their file. -/
theorem readAll_flatMap (now : Bytes → DateTime)
    {entries : List BadouJournalEntry}
    (hread : ∀ entry ∈ entries, BadouJournal.Readable entry) :
    RecordLog.readAll (BadouJournal.readHead now)
        (entries.flatMap BadouJournal.encodeEntry) =
      .ok (entries.map BadouJournal.recorded) := by
  have hstop : BadouJournal.readHead now [] = .stop := rfl
  have hall := readAll_of_stop (BadouJournal.frames now) hread hstop
  rwa [List.append_nil] at hall

theorem mapM_readAll (path : String) (now : Bytes → DateTime)
    {archives : List (Int × List BadouJournalEntry)}
    (hread : ∀ entry ∈ archives.flatMap Prod.snd, BadouJournal.Readable entry) :
    (archives.map fun archive => (archivePath path archive.1,
        archive.2.flatMap BadouJournal.encodeEntry)).mapM (fun archive =>
          RecordLog.readAll (BadouJournal.readHead now) archive.2) =
      .ok (archives.map fun archive =>
        archive.2.map BadouJournal.recorded) := by
  induction archives with
  | nil =>
      rfl
  | cons archive archives ih =>
      have hfirst := readAll_flatMap now fun entry hentry =>
        hread entry (List.mem_flatMap.mpr
          ⟨archive, List.mem_cons_self, hentry⟩)
      have hrest := ih fun entry hentry => hread entry (by
        rw [List.flatMap_cons]
        exact List.mem_append_right _ hentry)
      rw [List.map_cons, List.mapM_cons, hfirst, hrest]
      rfl

/-- Readable entries are read back from the archives and the journal. -/
theorem readAll_ofLog (now : Bytes → DateTime) {log : EntryLog}
    (hread : ∀ entry ∈ log.contents, BadouJournal.Readable entry) :
    (ofLog path rotationSize log).readAll now =
      .ok (log.contents.map BadouJournal.recorded) := by
  have harchives := mapM_readAll path now fun entry hentry =>
    hread entry (List.mem_append_left log.current hentry)
  have hcurrent := readAll_flatMap now fun entry hentry =>
    hread entry (List.mem_append_right (log.archives.flatMap Prod.snd) hentry)
  have hcontents : log.contents.map BadouJournal.recorded =
      (log.archives.map fun archive =>
        archive.2.map BadouJournal.recorded).flatten ++
          log.current.map BadouJournal.recorded := by
    rw [Log.contents, List.map_append, List.map_flatMap, List.flatMap_def]
  rw [readAll, ofLog, harchives, hcontents]
  simp only [BadouJournal.readAll, BadouJournal.readFrom, BadouJournal.ofFile,
    List.drop_zero, hcurrent]
  rfl

end Refinement

section Result

variable (path : String) (rotationSize : Nat)

/-- The archives and the journal hold all records that were appended, in their
order, exactly if no two rotations that set a record aside are in the same
second.  For entries that can be read back it is the same with what is read. -/
theorem records_run_eq_iff (appends : List (DateTime × BadouJournalEntry)) :
    ((run path rotationSize appends).records =
        (appends.map Prod.snd).flatMap BadouJournal.encodeEntry ↔
      (rotationSeconds rotationSize 0 appends).Nodup) ∧
    ∀ now, (∀ a ∈ appends, BadouJournal.Readable a.2) →
      ((run path rotationSize appends).readAll now =
          .ok ((appends.map Prod.snd).map BadouJournal.recorded) ↔
        (rotationSeconds rotationSize 0 appends).Nodup) := by
  have hsub := contents_runFrom_sublist rotationSize appends .empty
  have hkept := @contents_runFrom_eq_iff rotationSize .empty List.nodup_nil
    (fun _ => rfl) appends
  rw [run_eq_ofLog]
  generalize runFrom rotationSize .empty appends = log at hsub hkept
  have hiff : log.contents = appends.map Prod.snd ↔
      (rotationSeconds rotationSize 0 appends).Nodup := hkept
  replace hsub : log.contents.Sublist (appends.map Prod.snd) := hsub
  refine ⟨?_, ?_⟩
  · rw [records_ofLog, ← hiff]
    constructor
    · intro hbytes
      exact eq_of_sublist_of_length_flatMap encodeEntry_pos hsub
        (congrArg List.length hbytes)
    · intro hall
      rw [hall]
  · intro now hread
    have hreadable : ∀ entry ∈ log.contents, BadouJournal.Readable entry := by
      intro entry hentry
      obtain ⟨a, ha, rfl⟩ := List.mem_map.mp (hsub.subset hentry)
      exact hread a ha
    rw [readAll_ofLog now hreadable, ← hiff]
    constructor
    · intro hentries
      have hlen := congrArg List.length (Except.ok.inj hentries)
      rw [List.length_map, List.length_map] at hlen
      exact hsub.eq_of_length hlen
    · intro hall
      rw [hall]

/-- Appends of a record in one second after the other. -/
def appendsApart : List (DateTime × BadouJournalEntry) :=
  [(1700000000 * 1000000000, BadouJournal.exampleEntry),
    (1700000001 * 1000000000, BadouJournal.exampleEntry),
    (1700000002 * 1000000000, BadouJournal.exampleEntry)]

/-- Rotations in different seconds lose nothing. -/
theorem records_appendsApart :
    (run "commit.journal" 64 appendsApart).records =
        (appendsApart.map Prod.snd).flatMap BadouJournal.encodeEntry ∧
      (run "commit.journal" 64 appendsApart).readAll (fun _ => 0) =
        .ok ((appendsApart.map Prod.snd).map BadouJournal.recorded) := by
  have hseconds : (rotationSeconds 64 0 appendsApart).Nodup := by
    decide +kernel
  obtain ⟨hrecords, hread⟩ := records_run_eq_iff "commit.journal" 64 appendsApart
  refine ⟨hrecords.mpr hseconds, (hread (fun _ => 0) ?_).mpr hseconds⟩
  intro a ha
  have hentry : a.2 = BadouJournal.exampleEntry := by
    simp only [appendsApart, List.mem_cons, List.not_mem_nil, or_false] at ha
    rcases ha with rfl | rfl | rfl
    · rfl
    · rfl
    · rfl
  rw [hentry]
  exact BadouJournal.readable_exampleEntry

/-- Three appends of a record at the same time. -/
def appendsAtOnce : List (DateTime × BadouJournalEntry) :=
  List.replicate 3 (BadouJournal.exampleEntry.timestamp, BadouJournal.exampleEntry)

/-- Two rotations in one second lose the record that the first has set aside. -/
theorem record_lost_in_one_second :
    appendsAtOnce.IsChain (fun a b => a.1 ≤ b.1) ∧
      (∀ a ∈ appendsAtOnce, BadouJournal.Readable a.2) ∧
      (run "commit.journal" 64 appendsAtOnce).records ≠
        (appendsAtOnce.map Prod.snd).flatMap BadouJournal.encodeEntry ∧
      (run "commit.journal" 64 appendsAtOnce).readAll (fun _ => 0) =
        .ok [BadouJournal.recorded BadouJournal.exampleEntry,
          BadouJournal.recorded BadouJournal.exampleEntry] := by
  have hlog : runFrom 64 .empty appendsAtOnce =
      { archives := [(1700000000, [BadouJournal.exampleEntry])]
        current := [BadouJournal.exampleEntry] } := by
    rfl
  rw [run_eq_ofLog, hlog, records_ofLog]
  refine ⟨by decide, ?_, ?_, ?_⟩
  · intro a ha
    rw [List.eq_of_mem_replicate ha]
    exact BadouJournal.readable_exampleEntry
  · intro hbytes
    have hlen := congrArg List.length hbytes
    revert hlen
    decide +kernel
  · refine readAll_ofLog _ ?_
    intro entry hentry
    rw [List.eq_of_mem_replicate (n := 2) hentry]
    exact BadouJournal.readable_exampleEntry

end Result

end JournalDir

end Badou
end HyperBackup
