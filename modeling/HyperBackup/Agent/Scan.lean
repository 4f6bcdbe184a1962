import HyperBackup.Agent.GlobMatch
import HyperBackup.Lib.Calendar
import HyperBackup.Lib.FileTree

/-!
# The walk of the scanner

The scanner walks over the files below every source path and keeps those that
no exclude rule matches and, if there are include rules, one of them does.
Exactly these files are listed.  The walks over the source paths are put one
behind the other, so a file that is reached from two of them is listed twice.

What is known of a file is its length and the time of its last change, or
nothing, if the question was not answered.  Regular expressions come from
another library, and so does the text that is shown for the bytes of a path;
both are parameters.
-/

namespace HyperBackup
namespace Agent

open Lib Lib.FileTree

inductive FilterRule
  | glob (pattern : String)
  | regex (pattern : String)
  | pathPrefix (start : String)
deriving DecidableEq

structure BackupSource where
  paths : List Bytes
  includeRules : List FilterRule
  excludeRules : List FilterRule

/-- What the system tells about a file; the time is missing where it is not
kept. -/
structure Metadata where
  len : Nat
  modified : Option Int

namespace LocalScanner

section Rules

variable (regex : String → Option (String → Bool))

def matchesRule (path : String) : FilterRule → Bool
  | .glob pattern => globMatch pattern path = some true
  | .regex pattern =>
      match regex pattern with
      | some isMatch => isMatch path
      | none => false
  | .pathPrefix start => start.toList.isPrefixOf path.toList

def passesFilters (path : String) (includeRules excludeRules : List FilterRule) :
    Bool :=
  if excludeRules.any (matchesRule regex path) then false
  else if includeRules.isEmpty then true
  else includeRules.any (matchesRule regex path)

/-- What a rule is for: a pattern stands for the texts of its language, and a
regular expression that is none matches nothing. -/
def Matches (path : String) : FilterRule → Prop
  | .glob pattern => path.toList ∈ Glob.language pattern.toList
  | .regex pattern => ∃ isMatch, regex pattern = some isMatch ∧ isMatch path = true
  | .pathPrefix start => start.toList <+: path.toList

/-- The files that are wanted. -/
def Selects (source : BackupSource) (path : String) : Prop :=
  (∀ rule ∈ source.excludeRules, ¬ Matches regex path rule) ∧
    (source.includeRules = [] ∨ ∃ rule ∈ source.includeRules, Matches regex path rule)

variable {regex}

theorem matchesRule_iff (path : String) (rule : FilterRule) :
    matchesRule regex path rule = true ↔ Matches regex path rule := by
  cases rule with
  | glob pattern =>
      unfold matchesRule Matches
      rw [decide_eq_true_iff]
      exact globMatch_eq_some_true_iff pattern path
  | regex pattern =>
      unfold matchesRule Matches
      cases hregex : regex pattern with
      | none =>
          simp only [hregex]
          constructor
          · intro h
            cases h
          · rintro ⟨isMatch, h, _⟩
            cases h
      | some isMatch =>
          simp only [hregex]
          constructor
          · intro h
            exact ⟨isMatch, rfl, h⟩
          · rintro ⟨_, h, hmatch⟩
            obtain rfl := Option.some.inj h
            exact hmatch
  | pathPrefix start =>
      exact List.isPrefixOf_iff_prefix

theorem any_matchesRule_iff (path : String) (rules : List FilterRule) :
    rules.any (matchesRule regex path) = true ↔
      ∃ rule ∈ rules, Matches regex path rule := by
  simp only [List.any_eq_true, matchesRule_iff]

theorem passesFilters_iff (source : BackupSource) (path : String) :
    passesFilters regex path source.includeRules source.excludeRules = true ↔
      Selects regex source path := by
  unfold passesFilters Selects
  by_cases hexclude : source.excludeRules.any (matchesRule regex path) = true
  · rw [if_pos hexclude]
    obtain ⟨rule, hrule, hmatch⟩ := (any_matchesRule_iff path _).mp hexclude
    constructor
    · intro h
      cases h
    · rintro ⟨hnone, _⟩
      exact absurd hmatch (hnone rule hrule)
  · rw [if_neg hexclude]
    rw [any_matchesRule_iff] at hexclude
    have hnone : ∀ rule ∈ source.excludeRules, ¬ Matches regex path rule :=
      fun rule hrule hmatch => hexclude ⟨rule, hrule, hmatch⟩
    rw [and_iff_right hnone]
    by_cases hinclude : source.includeRules = []
    · rw [hinclude]
      exact iff_of_true rfl (Or.inl rfl)
    · have hsome : source.includeRules.isEmpty = false := by
        rw [List.isEmpty_eq_false_iff]
        exact hinclude
      rw [hsome, or_iff_right hinclude]
      exact any_matchesRule_iff path _

end Rules

section Walk

/-- The time of the last change in whole seconds; the beginning of 1970 stands
for a time before it, after the calendar or not known. -/
def modifiedAt (modified : Option Int) : DateTime :=
  match modified with
  | none => 0
  | some t =>
      let secs := t / 1000000000
      if 0 ≤ secs ∧ secs ≤ Calendar.maxDay * 86400 + 86399 then secs * 1000000000
      else 0

variable (regex : String → Option (String → Bool))
variable (toStringLossy : Bytes → String)

def entryOf (path : Bytes) (metadata : Metadata) : FileEntry where
  path := toStringLossy path
  size := metadata.len
  modifiedAt := modifiedAt metadata.modified
  attributes := {}
  chunks := []
  fileHash := List.Vector.replicate 32 0

/-- What becomes of a file of the walk. -/
def listFile (source : BackupSource) (file : Bytes × Option Metadata) :
    Option FileEntry :=
  let (path, metadata) := file
  if passesFilters regex (toStringLossy path) source.includeRules
      source.excludeRules then
    metadata.map (entryOf toStringLossy path)
  else none

/-- The files that are found.  The walk over a source path that leads nowhere
is empty. -/
def allFiles (fs : FileSystem (Option Metadata)) (source : BackupSource) :
    List FileEntry :=
  source.paths.flatMap fun base =>
    (fs.walk base).filterMap (listFile regex toStringLossy source)

def scanWithDiff (fs : FileSystem (Option Metadata)) (source : BackupSource)
    (baseline : Option BackupSnapshot) : List FileEntry × Option FileTreeDiff :=
  let files := allFiles regex toStringLossy fs source
  match baseline with
  | none => (files, none)
  | some baseline =>
      let diff := FileTreeDiff.compute files baseline
      (diff.added ++ diff.modified, some diff)

/-- What is found in the source of a backup is what the walk finds. -/
theorem fst_scanWithDiff (fs : FileSystem (Option Metadata)) (source : BackupSource)
    (content : String → Option Bytes) (totalFiles : Nat)
    (baseline : Option BackupSnapshot) :
    (scanWithDiff regex toStringLossy fs source baseline).1 =
      scan
        { found := allFiles regex toStringLossy fs source
          content := content
          totalFiles := totalFiles } baseline := by
  cases baseline with
  | none => rfl
  | some baseline => rfl

end Walk

section Listing

variable {regex : String → Option (String → Bool)}
variable {toStringLossy : Bytes → String}
variable {fs : FileSystem (Option Metadata)} {source : BackupSource}

/-- Below the source path there is a file of this path, it can be read, and it
is wanted. -/
def Reaches (regex : String → Option (String → Bool))
    (toStringLossy : Bytes → String) (fs : FileSystem (Option Metadata))
    (source : BackupSource) (base path : Bytes) : Prop :=
  ∃ metadata, fs.Below base path (some metadata) ∧
    Selects regex source (toStringLossy path)

/-- These are the files below the source paths that are wanted and can be read,
and each path is there once. -/
structure ListsOnce (regex : String → Option (String → Bool))
    (toStringLossy : Bytes → String) (fs : FileSystem (Option Metadata))
    (source : BackupSource) (files : List FileEntry) : Prop where
  exactly : ∀ entry, entry ∈ files ↔
    ∃ base ∈ source.paths, ∃ path metadata, fs.Below base path (some metadata) ∧
      Selects regex source (toStringLossy path) ∧
      entry = entryOf toStringLossy path metadata
  once : (files.map FileEntry.path).Nodup

theorem listFile_eq_some_iff {path : Bytes} {metadata : Option Metadata}
    {entry : FileEntry} :
    listFile regex toStringLossy source (path, metadata) = some entry ↔
      Selects regex source (toStringLossy path) ∧
        ∃ known, metadata = some known ∧ entryOf toStringLossy path known = entry := by
  unfold listFile
  rw [Option.ite_none_right_eq_some, passesFilters_iff, Option.map_eq_some_iff]

theorem mem_allFiles_iff {entry : FileEntry} :
    entry ∈ allFiles regex toStringLossy fs source ↔
      ∃ base ∈ source.paths, ∃ path metadata, fs.Below base path (some metadata) ∧
        Selects regex source (toStringLossy path) ∧
        entry = entryOf toStringLossy path metadata := by
  unfold allFiles
  simp only [List.mem_flatMap, List.mem_filterMap]
  constructor
  · rintro ⟨base, hbase, ⟨path, metadata⟩, hwalk, hlist⟩
    obtain ⟨hselect, known, rfl, rfl⟩ := listFile_eq_some_iff.mp hlist
    exact ⟨base, hbase, path, known, FileSystem.mem_walk_iff.mp hwalk, hselect, rfl⟩
  · rintro ⟨base, hbase, path, metadata, hbelow, hselect, rfl⟩
    exact ⟨base, hbase, (path, some metadata), FileSystem.mem_walk_iff.mpr hbelow,
      listFile_eq_some_iff.mpr ⟨hselect, metadata, rfl, rfl⟩⟩

/-- The paths that a walk contributes. -/
def reachedPaths (regex : String → Option (String → Bool))
    (toStringLossy : Bytes → String) (fs : FileSystem (Option Metadata))
    (source : BackupSource) (base : Bytes) : List Bytes :=
  ((fs.walk base).filter fun file =>
    (listFile regex toStringLossy source file).isSome).map Prod.fst

theorem nodup_reachedPaths (base : Bytes) :
    (reachedPaths regex toStringLossy fs source base).Nodup :=
  (fs.nodup_walk base).sublist ((List.filter_sublist).map Prod.fst)

theorem mem_reachedPaths_iff {base path : Bytes} :
    path ∈ reachedPaths regex toStringLossy fs source base ↔
      Reaches regex toStringLossy fs source base path := by
  unfold reachedPaths Reaches
  simp only [List.mem_map, List.mem_filter, Option.isSome_iff_exists]
  constructor
  · rintro ⟨⟨path, metadata⟩, ⟨hwalk, entry, hlist⟩, rfl⟩
    obtain ⟨hselect, known, rfl, _⟩ := listFile_eq_some_iff.mp hlist
    exact ⟨known, FileSystem.mem_walk_iff.mp hwalk, hselect⟩
  · rintro ⟨metadata, hbelow, hselect⟩
    exact ⟨(path, some metadata), ⟨FileSystem.mem_walk_iff.mpr hbelow,
      entryOf toStringLossy path metadata,
      listFile_eq_some_iff.mpr ⟨hselect, metadata, rfl, rfl⟩⟩, rfl⟩

/-- The paths of the listed files are the texts of the paths of the walks. -/
theorem map_path_allFiles :
    (allFiles regex toStringLossy fs source).map FileEntry.path =
      (source.paths.flatMap
        (reachedPaths regex toStringLossy fs source)).map toStringLossy := by
  unfold allFiles
  rw [List.map_flatMap, List.map_flatMap]
  refine congrArg (fun f => source.paths.flatMap f) (funext fun base => ?_)
  unfold reachedPaths
  induction fs.walk base with
  | nil =>
      rfl
  | cons file files ih =>
      obtain ⟨path, metadata⟩ := file
      cases hlist : listFile regex toStringLossy source (path, metadata) with
      | none =>
          rw [List.filterMap_cons_none hlist, ih, List.filter_cons_of_neg]
          rw [hlist]
          exact Bool.false_ne_true
      | some entry =>
          obtain ⟨_, known, _, rfl⟩ := listFile_eq_some_iff.mp hlist
          rw [List.filterMap_cons_some hlist, List.map_cons, ih,
            List.filter_cons_of_pos (by rw [hlist]; rfl)]
          rfl

/-- A full scan lists every file once if and only if no file is reached from
two of the source paths and no two of the paths are shown as the same text. -/
theorem listsOnce_scan_iff (regex : String → Option (String → Bool))
    (toStringLossy : Bytes → String) (fs : FileSystem (Option Metadata))
    (source : BackupSource) :
    ListsOnce regex toStringLossy fs source
        (scanWithDiff regex toStringLossy fs source none).1 ↔
      (source.paths.Pairwise fun base base' =>
        ∀ path, Reaches regex toStringLossy fs source base path →
          ¬ Reaches regex toStringLossy fs source base' path) ∧
      ∀ base ∈ source.paths, ∀ base' ∈ source.paths, ∀ path path',
        Reaches regex toStringLossy fs source base path →
        Reaches regex toStringLossy fs source base' path' →
        toStringLossy path = toStringLossy path' → path = path' := by
  have honce : ListsOnce regex toStringLossy fs source
      (scanWithDiff regex toStringLossy fs source none).1 ↔
        ((allFiles regex toStringLossy fs source).map FileEntry.path).Nodup :=
    ⟨fun h => h.once, fun h => ⟨fun _ => mem_allFiles_iff, h⟩⟩
  have hflat : (source.paths.flatMap
      (reachedPaths regex toStringLossy fs source)).Nodup ↔
        source.paths.Pairwise fun base base' =>
          ∀ path, Reaches regex toStringLossy fs source base path →
            ¬ Reaches regex toStringLossy fs source base' path := by
    rw [List.nodup_flatMap, and_iff_right fun base _ => nodup_reachedPaths base]
    refine List.Pairwise.iff fun base base' => forall_congr' fun path => ?_
    rw [mem_reachedPaths_iff, mem_reachedPaths_iff]
  have htexts : (∀ path ∈ source.paths.flatMap
      (reachedPaths regex toStringLossy fs source), ∀ path' ∈ source.paths.flatMap
      (reachedPaths regex toStringLossy fs source),
        toStringLossy path = toStringLossy path' → path = path') ↔
      ∀ base ∈ source.paths, ∀ base' ∈ source.paths, ∀ path path',
        Reaches regex toStringLossy fs source base path →
        Reaches regex toStringLossy fs source base' path' →
        toStringLossy path = toStringLossy path' → path = path' := by
    simp only [List.mem_flatMap, mem_reachedPaths_iff]
    constructor
    · intro h base hbase base' hbase' path path' hreach hreach'
      exact h path ⟨base, hbase, hreach⟩ path' ⟨base', hbase', hreach'⟩
    · rintro h path ⟨base, hbase, hreach⟩ path' ⟨base', hbase', hreach'⟩
      exact h base hbase base' hbase' path path' hreach hreach'
  rw [honce, map_path_allFiles, ← hflat, ← htexts]
  constructor
  · intro h
    exact ⟨h.of_map, (List.nodup_map_iff_inj_on h.of_map).mp h⟩
  · rintro ⟨hnodup, hinj⟩
    exact (List.nodup_map_iff_inj_on hnodup).mpr hinj

/-- One file `f` in the directory `b` of `/a`, and the way to it from `/a/b`. -/
def exampleSystem : FileSystem (Option Metadata) where
  find path :=
    if path = [0x2f, 0x61] then
      some (.dir (.dir [0x62] (.file [0x66] (some ⟨3, none⟩) .nil) .nil))
    else if path = [0x2f, 0x61, 0x2f, 0x62] then
      some (.dir (.file [0x66] (some ⟨3, none⟩) .nil))
    else none
  wellFormed := by
    have hname : ∀ b : UInt8, b ≠ separator → IsName [b] := by
      intro b hb
      refine ⟨List.cons_ne_nil _ _, ?_⟩
      intro hmem
      exact hb (List.mem_singleton.mp hmem).symm
    have hfile : (Directory.file [0x66] (some ⟨3, none⟩) .nil :
        Directory (Option Metadata)).WellFormed :=
      ⟨hname 0x66 (by decide), List.not_mem_nil, trivial⟩
    intro path root hroot
    split at hroot
    · obtain rfl := Option.some.inj hroot
      exact ⟨hname 0x62 (by decide), List.not_mem_nil, hfile, trivial⟩
    · split at hroot
      · obtain rfl := Option.some.inj hroot
        exact hfile
      · cases hroot

/-- A directory and another one that contains it. -/
def exampleSource : BackupSource where
  paths := [[0x2f, 0x61], [0x2f, 0x61, 0x2f, 0x62]]
  includeRules := []
  excludeRules := []

/-- The text of ASCII characters. -/
def asciiText (path : Bytes) : String :=
  String.ofList (path.map fun b => Char.ofNat b.toNat)

/-- The file is listed twice. -/
theorem not_listsOnce_nested :
    ¬ ListsOnce (fun _ => none) asciiText exampleSystem exampleSource
      (scanWithDiff (fun _ => none) asciiText exampleSystem exampleSource none).1 := by
  intro h
  have hpaths : ((scanWithDiff (fun _ => none) asciiText exampleSystem exampleSource
      none).1).map FileEntry.path = ["/a/b/f", "/a/b/f"] := by
    decide
  have honce := h.once
  rw [hpaths] at honce
  exact absurd honce (by decide)

end Listing

end LocalScanner

end Agent
end HyperBackup
