import HyperBackup.Agent.Domain

/-!
# The scanner and its comparison with a baseline

`LocalScanner` finds the files of a source and, given the snapshot of an
earlier version, sends only those that were added or modified.  What the walk
over the directories finds, after the include and exclude rules, is a list of
entries; what opening a file yields is a function of its path.
-/

namespace HyperBackup
namespace Agent

open Lib

/-- The source of a backup at the time of the run. -/
structure Source where
  found : List FileEntry
  content : String → Option Bytes
  totalFiles : Nat

structure RenamedFile where
  oldPath : String
  newPath : String
deriving DecidableEq

structure FileTreeDiff where
  added : List FileEntry
  modified : List FileEntry
  deleted : List String
  renamed : List RenamedFile
deriving DecidableEq

namespace FileTreeDiff

def baselineMap (baseline : BackupSnapshot) : HashMap String FileSnapshotEntry :=
  HashMap.collect (baseline.files.map fun f => (f.path, f))

def isChanged (baseline : BackupSnapshot) (entry : FileEntry) : Bool :=
  match (baselineMap baseline).lookup entry.path with
  | some base => entry.size ≠ base.size || entry.modifiedAt ≠ base.mtime
  | none => true

/-- What the second loop of the comparison has collected. -/
structure Matching where
  deleted : List String
  renamed : List RenamedFile
  matchedNewPaths : List String

/-- A baseline file that is gone is paired with a new file of the same size
and time that is not paired yet. -/
def matchBaseFile (current potentiallyAdded : List FileEntry)
    (m : Matching) (baseFile : FileSnapshotEntry) : Matching :=
  if baseFile.path ∈ current.map FileEntry.path then m
  else
    let candidate := potentiallyAdded.find? fun curr =>
      curr.path ∉ m.matchedNewPaths ∧ curr.size = baseFile.size ∧
        curr.modifiedAt = baseFile.mtime
    match candidate with
    | some curr =>
        { m with
          renamed := m.renamed ++ [⟨baseFile.path, curr.path⟩]
          matchedNewPaths := m.matchedNewPaths ++ [curr.path] }
    | none => { m with deleted := m.deleted ++ [baseFile.path] }

def compute (current : List FileEntry) (baseline : BackupSnapshot) :
    FileTreeDiff :=
  let inBaseline := fun entry : FileEntry =>
    ((baselineMap baseline).lookup entry.path).isSome
  let changed := current.filter (isChanged baseline)
  let modified := changed.filter inBaseline
  let potentiallyAdded := changed.filter fun entry => !inBaseline entry
  let m := baseline.files.foldl (matchBaseFile current potentiallyAdded)
    { deleted := [], renamed := [], matchedNewPaths := [] }
  { added := potentiallyAdded.filter fun e => e.path ∉ m.matchedNewPaths
    modified := modified
    deleted := m.deleted
    renamed := m.renamed }

section Specs

variable {current potentiallyAdded : List FileEntry} {baseline : BackupSnapshot}

theorem isSome_lookup_baselineMap (path : String) :
    ((baselineMap baseline).lookup path).isSome ↔
      path ∈ baseline.files.map FileSnapshotEntry.path := by
  rw [baselineMap, HashMap.isSome_lookup_collect]
  simp

/-- A file whose path is not in the baseline is changed. -/
theorem isChanged_of_not_mem {entry : FileEntry}
    (h : entry.path ∉ baseline.files.map FileSnapshotEntry.path) :
    isChanged baseline entry = true := by
  have hnone : (baselineMap baseline).lookup entry.path = none := by
    rw [← Option.not_isSome_iff_eq_none]
    exact fun hsome => h ((isSome_lookup_baselineMap _).mp hsome)
  simp [isChanged, hnone]

/-- Nothing is paired if every baseline file is still there. -/
theorem foldl_matchBaseFile_of_subset (files : List FileSnapshotEntry)
    (h : ∀ b ∈ files, b.path ∈ current.map FileEntry.path) (m : Matching) :
    files.foldl (matchBaseFile current potentiallyAdded) m = m := by
  induction files generalizing m with
  | nil =>
      rfl
  | cons b files ih =>
      have hb : matchBaseFile current potentiallyAdded m b = m :=
        if_pos (h b (by simp))
      rw [List.foldl_cons, hb]
      exact ih (fun b' hb' => h b' (by simp [hb'])) m

/-- What is sent was found and is changed. -/
theorem mem_changed_of_mem_compute {entry : FileEntry}
    (h : entry ∈ (compute current baseline).added ++
      (compute current baseline).modified) :
    entry ∈ current ∧ isChanged baseline entry = true := by
  rcases List.mem_append.mp h with h | h
  · have h' := List.mem_of_mem_filter (List.mem_of_mem_filter h)
    exact List.mem_filter.mp h'
  · exact List.mem_filter.mp (List.mem_of_mem_filter h)

/-- If every baseline file is still there, every changed file is sent. -/
theorem mem_compute_of_subset
    (h : ∀ b ∈ baseline.files, b.path ∈ current.map FileEntry.path)
    {entry : FileEntry} (hentry : entry ∈ current)
    (hchanged : isChanged baseline entry = true) :
    entry ∈ (compute current baseline).added ++
      (compute current baseline).modified := by
  have hfilter : entry ∈ current.filter (isChanged baseline) :=
    List.mem_filter.mpr ⟨hentry, hchanged⟩
  rw [List.mem_append]
  by_cases hbase : ((baselineMap baseline).lookup entry.path).isSome
  · right
    exact List.mem_filter.mpr ⟨hfilter, hbase⟩
  · left
    simp only [compute, foldl_matchBaseFile_of_subset _ h]
    simp only [List.mem_filter]
    refine ⟨⟨List.mem_filter.mp hfilter, ?_⟩, by simp⟩
    simpa using hbase

end Specs

end FileTreeDiff

/-- What the scanner sends: without a baseline every file, with a baseline
those that were added or modified. -/
def scan (source : Source) : Option BackupSnapshot → List FileEntry
  | none => source.found
  | some baseline =>
      let diff := FileTreeDiff.compute source.found baseline
      diff.added ++ diff.modified

end Agent
end HyperBackup
