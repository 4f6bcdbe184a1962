import HyperBackup.Domain
import HyperBackup.Lib.FileTree
import HyperBackup.Lib.HashMap
import HyperBackup.Lib.JoinedPath
import HyperBackup.Lib.Sha256
import Mathlib.Data.List.Dedup

/-!
# The comparison of a native and a compatible repository

Each of the two directory trees is flattened into a map from relative paths to
hashes and sizes, and the maps are compared path by path.  The path of a file has
the names that lead to it with separators in between, from which the names are found
again, so the comparison of the maps is that of the trees.  A path is a list of
names; its text is in bytes.
-/

namespace HyperBackup
namespace Compat

open Lib Lib.FileTree

structure FileComparison where
  path : Bytes
  nativeHash : Option HashDigest
  compatHash : Option HashDigest
  nativeSize : Option Nat
  compatSize : Option Nat
  isConsistent : Bool
deriving DecidableEq

structure ConsistencyConclusion where
  checkedAt : DateTime
  totalFilesCompared : Nat
  consistentFiles : Nat
  inconsistentFiles : Nat
  missingInNative : Nat
  missingInCompat : Nat
  comparisons : List FileComparison
  isConsistent : Bool
deriving DecidableEq

inductive DualRepoError
  | backupFailed (text : String)
  | restoreFailed (text : String)
  | inconsistent (text : String)
  | io (text : String)
deriving DecidableEq

/-- Hash and size of each file under its relative path. -/
abbrev FileHashes : Type := HashMap Bytes (HashDigest × Nat)

/-- A path and what it leads to. -/
structure RepoDir where
  path : List Bytes
  found : Option (Root Bytes)

namespace DualRepoConsistencyChecker

section Operations

/-- The path without the given first part; without change if it does not begin
with that. -/
def stripPrefix (base path : List Bytes) : List Bytes :=
  if base <+: path then path.drop base.length else path

/-- The names with separators in between. -/
def pathText (names : List Bytes) : Bytes :=
  JoinedPath.inner separator names

def hashAndSize (data : Bytes) : HashDigest × Nat :=
  (Sha256.hash data, data.length)

def scanDirRecursive (base current : List Bytes) :
    Directory Bytes → FileHashes → FileHashes
  | .nil, result => result
  | .file name data rest, result =>
      scanDirRecursive base current rest
        (result.insert (pathText (stripPrefix base (current ++ [name])))
          (hashAndSize data))
  | .dir name content rest, result =>
      scanDirRecursive base current rest
        (scanDirRecursive base (current ++ [name]) content result)
  | .other rest, result => scanDirRecursive base current rest result

def scanDirHashes (dir : RepoDir) : Except DualRepoError FileHashes :=
  match dir.found with
  | none => .ok ∅
  | some (.dir content) => .ok (scanDirRecursive dir.path dir.path content ∅)
  | some _ => .error (.io "Not a directory (os error 20)")

variable (native compat : FileHashes)

def compareFile (path : Bytes) : FileComparison :=
  let nativeHash := (native.lookup path).map Prod.fst
  let compatHash := (compat.lookup path).map Prod.fst
  let nativeSize := (native.lookup path).map Prod.snd
  let compatSize := (compat.lookup path).map Prod.snd
  { path := path
    nativeHash := nativeHash
    compatHash := compatHash
    nativeSize := nativeSize
    compatSize := compatSize
    isConsistent := nativeHash.isSome && compatHash.isSome &&
      nativeHash == compatHash && nativeSize == compatSize }

/-- What the loop over the paths has counted. -/
structure Tally where
  consistentFiles : Nat
  inconsistentFiles : Nat
  missingInNative : Nat
  missingInCompat : Nat
  comparisons : List FileComparison

def Tally.start : Tally where
  consistentFiles := 0
  inconsistentFiles := 0
  missingInNative := 0
  missingInCompat := 0
  comparisons := []

def addComparison (t : Tally) (path : Bytes) : Tally :=
  let comparison := compareFile native compat path
  { consistentFiles :=
      if comparison.isConsistent then t.consistentFiles + 1 else t.consistentFiles
    inconsistentFiles :=
      if comparison.isConsistent then t.inconsistentFiles else t.inconsistentFiles + 1
    missingInNative :=
      if comparison.nativeHash.isNone then t.missingInNative + 1 else t.missingInNative
    missingInCompat :=
      if comparison.compatHash.isNone then t.missingInCompat + 1 else t.missingInCompat
    comparisons := t.comparisons ++ [comparison] }

/-- The paths of both maps, each once. -/
def allPaths : List Bytes :=
  (((HashMap.toList native).map Prod.fst) ++ ((HashMap.toList compat).map Prod.fst)).dedup

def conclude (order : IterOrder Bytes) (now : DateTime) : ConsistencyConclusion :=
  let t := (order.arrange (allPaths native compat)).foldl (addComparison native compat)
    Tally.start
  { checkedAt := now
    totalFilesCompared := (allPaths native compat).length
    consistentFiles := t.consistentFiles
    inconsistentFiles := t.inconsistentFiles
    missingInNative := t.missingInNative
    missingInCompat := t.missingInCompat
    comparisons := t.comparisons
    isConsistent := t.inconsistentFiles == 0 }

def checkConsistency (order : IterOrder Bytes) (now : DateTime)
    (nativeDir compatDir : RepoDir) : Except DualRepoError ConsistencyConclusion := do
  let nativeFiles ← scanDirHashes nativeDir
  let compatFiles ← scanDirHashes compatDir
  return conclude nativeFiles compatFiles order now

end Operations

section Statement

/-- There is a file where the names lead. -/
def HasFile (d : Directory Bytes) (names : List Bytes) : Prop :=
  ∃ data, d.Holds names data

/-- Exactly so many lists of names have the property. -/
def Counts (n : Nat) (p : List Bytes → Prop) : Prop :=
  ∃ paths : List (List Bytes), paths.Nodup ∧ (∀ names, names ∈ paths ↔ p names) ∧
    paths.length = n

/-- Files at the same place with the same hash have the same contents. -/
def CollisionFree (d d' : Directory Bytes) : Prop :=
  ∀ names data data', d.Holds names data → d'.Holds names data' →
    Sha256.hash data = Sha256.hash data' → data = data'

/-- What the conclusion says about the native and the compatible tree. -/
structure Exact (d d' : Directory Bytes) (c : ConsistencyConclusion) : Prop where
  verdict : c.isConsistent = true ↔ ∀ names data, d.Holds names data ↔ d'.Holds names data
  entries : ∃ paths : List (List Bytes), paths.Nodup ∧
    (∀ names, names ∈ paths ↔ HasFile d names ∨ HasFile d' names) ∧
    c.comparisons.map FileComparison.path = paths.map pathText
  total : c.totalFilesCompared = c.comparisons.length
  sum : c.consistentFiles + c.inconsistentFiles = c.totalFilesCompared
  missingInNative : Counts c.missingInNative fun names =>
    HasFile d' names ∧ ¬ HasFile d names
  missingInCompat : Counts c.missingInCompat fun names =>
    HasFile d names ∧ ¬ HasFile d' names

end Statement

section Scans

/-- The text of a path shows its names. -/
theorem pathText_injective {names names' : List Bytes} (hne : names ≠ [])
    (hne' : names' ≠ []) (h : ∀ n ∈ names, IsName n) (h' : ∀ n ∈ names', IsName n)
    (heq : pathText names = pathText names') : names = names' := by
  have hsplit : ∀ l : List Bytes, l ≠ [] → (∀ n ∈ l, IsName n) →
      (pathText l).splitOn separator = l := fun l hl hnames =>
    List.splitOn_intercalate _ (fun n hn => (hnames n hn).noSeparator) hl
  rw [← hsplit names hne h, heq, hsplit names' hne' h']

@[simp] theorem stripPrefix_append (base path : List Bytes) :
    stripPrefix base (base ++ path) = path := by
  rw [stripPrefix, if_pos (List.prefix_append base path), List.drop_left]

/-- A scan inserts the files of the tree with their paths. -/
theorem scanDirRecursive_eq (base : List Bytes) (d : Directory Bytes) :
    ∀ (up : List Bytes) (result : FileHashes),
      scanDirRecursive base (base ++ up) d result =
        HashMap.insertAll result
          (d.files.map fun e => (pathText (up ++ e.1), hashAndSize e.2)) := by
  induction d with
  | nil =>
      intro up result
      rfl
  | file name data rest ih =>
      intro up result
      rw [scanDirRecursive, ih, List.append_assoc, stripPrefix_append]
      rfl
  | dir name content rest ihcontent ihrest =>
      intro up result
      rw [scanDirRecursive, List.append_assoc, ihcontent, ihrest, Directory.files,
        List.map_append, HashMap.insertAll_append, List.map_map]
      simp only [Function.comp_def, Prod.map_fst, Prod.map_snd, id, List.append_assoc,
        List.singleton_append]
  | other rest ih =>
      intro up result
      exact ih up result

variable {d d' : Directory Bytes}

/-- What a scan has under a path. -/
theorem lookup_scan (base : List Bytes) (hd : d.WellFormed) {names : List Bytes}
    (hne : names ≠ []) (hnames : ∀ n ∈ names, IsName n) (value : HashDigest × Nat) :
    (scanDirRecursive base base d ∅).lookup (pathText names) = some value ↔
      ∃ data, d.Holds names data ∧ value = hashAndSize data := by
  have hscan := scanDirRecursive_eq base d [] ∅
  rw [List.append_nil] at hscan
  rw [hscan]
  change (HashMap.collect _).lookup _ = _ ↔ _
  have hmem : ∀ v, (pathText names, v) ∈
      (d.files.map fun e => (pathText ([] ++ e.1), hashAndSize e.2)) ↔
        ∃ data, d.Holds names data ∧ v = hashAndSize data := by
    intro v
    rw [List.mem_map]
    constructor
    · rintro ⟨⟨names', data⟩, he, heq⟩
      have hholds := Directory.mem_files_iff.mp he
      obtain ⟨first, rest, hcons, -, hall⟩ := hholds.exists_cons hd
      obtain ⟨htext, rfl⟩ := Prod.mk.inj heq
      obtain rfl := pathText_injective (hcons ▸ List.cons_ne_nil first rest) hne hall
        hnames htext
      exact ⟨data, hholds, rfl⟩
    · rintro ⟨data, hholds, rfl⟩
      exact ⟨(names, data), Directory.mem_files_iff.mpr hholds, rfl⟩
  constructor
  · intro hlookup
    exact (hmem value).mp (HashMap.mem_of_lookup_collect hlookup)
  · rintro ⟨data, hholds, rfl⟩
    have hfound := (hmem (hashAndSize data)).mpr ⟨data, hholds, rfl⟩
    refine HashMap.lookup_collect_of_forall (List.mem_map_of_mem hfound) fun v hv => ?_
    obtain ⟨data', hholds', rfl⟩ := (hmem v).mp hv
    rw [hholds.unique hholds' hd]

/-- All keys of a scan are texts of paths of files. -/
theorem isSome_lookup_scan (base : List Bytes) (d : Directory Bytes) (key : Bytes) :
    ((scanDirRecursive base base d ∅).lookup key).isSome ↔
      ∃ names, HasFile d names ∧ key = pathText names := by
  have hscan := scanDirRecursive_eq base d [] ∅
  rw [List.append_nil] at hscan
  rw [hscan]
  change ((HashMap.collect _).lookup _).isSome ↔ _
  rw [HashMap.isSome_lookup_collect, List.map_map, List.mem_map]
  constructor
  · rintro ⟨⟨names, data⟩, he, rfl⟩
    exact ⟨names, ⟨data, Directory.mem_files_iff.mp he⟩, rfl⟩
  · rintro ⟨names, ⟨data, hholds⟩, rfl⟩
    exact ⟨(names, data), Directory.mem_files_iff.mpr hholds, rfl⟩

end Scans

section Loop

variable {native compat : FileHashes}

/-- The counts of the loop are those of its comparisons. -/
theorem foldl_addComparison (paths : List Bytes) (t : Tally) :
    paths.foldl (addComparison native compat) t =
      { consistentFiles := t.consistentFiles +
          (paths.filter fun p => (compareFile native compat p).isConsistent).length
        inconsistentFiles := t.inconsistentFiles +
          (paths.filter fun p => !(compareFile native compat p).isConsistent).length
        missingInNative := t.missingInNative +
          (paths.filter fun p => (native.lookup p).isNone).length
        missingInCompat := t.missingInCompat +
          (paths.filter fun p => (compat.lookup p).isNone).length
        comparisons := t.comparisons ++ paths.map (compareFile native compat) } := by
  induction paths generalizing t with
  | nil =>
      simp
  | cons p paths ih =>
      have hnative : (compareFile native compat p).nativeHash.isNone =
          (native.lookup p).isNone := by
        simp [compareFile]
      have hcompat : (compareFile native compat p).compatHash.isNone =
          (compat.lookup p).isNone := by
        simp [compareFile]
      rw [List.foldl_cons, ih]
      simp only [addComparison, hnative, hcompat, List.filter_cons, List.map_cons,
        List.append_assoc, List.singleton_append, Tally.mk.injEq, and_true]
      refine ⟨?_, ?_, ?_, ?_⟩
      · cases (compareFile native compat p).isConsistent <;> simp +arith
      · cases (compareFile native compat p).isConsistent <;> simp +arith
      · cases (native.lookup p).isNone <;> simp +arith
      · cases (compat.lookup p).isNone <;> simp +arith

/-- A comparison is consistent if both maps have the same under the path. -/
theorem isConsistent_compareFile_iff (path : Bytes) :
    (compareFile native compat path).isConsistent = true ↔
      ∃ value, native.lookup path = some value ∧ compat.lookup path = some value := by
  unfold compareFile
  cases native.lookup path with
  | none =>
      simp
  | some value =>
      cases compat.lookup path with
      | none =>
          simp
      | some value' =>
          simp only [Option.map_some, Option.isSome_some, Bool.true_and, Bool.and_eq_true,
            beq_iff_eq, Option.some.injEq]
          constructor
          · rintro ⟨hhash, hsize⟩
            exact ⟨value, rfl, (Prod.ext hhash hsize).symm⟩
          · rintro ⟨_, rfl, rfl⟩
            exact ⟨rfl, rfl⟩

theorem mem_allPaths_iff (path : Bytes) :
    path ∈ allPaths native compat ↔
      (native.lookup path).isSome ∨ (compat.lookup path).isSome := by
  have hkeys : ∀ m : FileHashes, path ∈ (HashMap.toList m).map Prod.fst ↔
      (m.lookup path).isSome := by
    intro m
    rw [List.mem_map, Option.isSome_iff_exists]
    constructor
    · rintro ⟨⟨k, v⟩, hmem, rfl⟩
      exact ⟨v, HashMap.mem_toList.mp hmem⟩
    · rintro ⟨v, hv⟩
      exact ⟨(path, v), HashMap.mem_toList.mpr hv, rfl⟩
  rw [allPaths, List.mem_dedup, List.mem_append, hkeys, hkeys]

/-- The conclusion in terms of the paths in the order in which they are compared. -/
theorem conclude_eq (order : IterOrder Bytes) (now : DateTime) {keys : List Bytes}
    (hkeys : order.arrange (allPaths native compat) = keys) :
    conclude native compat order now =
      { checkedAt := now
        totalFilesCompared := keys.length
        consistentFiles :=
          (keys.filter fun p => (compareFile native compat p).isConsistent).length
        inconsistentFiles :=
          (keys.filter fun p => !(compareFile native compat p).isConsistent).length
        missingInNative := (keys.filter fun p => (native.lookup p).isNone).length
        missingInCompat := (keys.filter fun p => (compat.lookup p).isNone).length
        comparisons := keys.map (compareFile native compat)
        isConsistent :=
          (keys.filter fun p => !(compareFile native compat p).isConsistent).length == 0 }
    := by
  have hlength : (allPaths native compat).length = keys.length := by
    rw [← hkeys]
    exact (order.perm _).length_eq.symm
  rw [conclude, hkeys, hlength, foldl_addComparison]
  simp only [Tally.start, Nat.zero_add, List.nil_append]

end Loop

section Paths

variable {p : List Bytes → Prop}

/-- Distinct keys that are the texts of the paths with a property. -/
theorem exists_paths {keys : List Bytes} (hkeys : keys.Nodup)
    (hvalid : ∀ names, p names → names ≠ [] ∧ ∀ n ∈ names, IsName n)
    (hmem : ∀ key, key ∈ keys ↔ ∃ names, p names ∧ key = pathText names) :
    ∃ paths : List (List Bytes), paths.Nodup ∧ (∀ names, names ∈ paths ↔ p names) ∧
      keys = paths.map pathText := by
  have hrange : ∀ l : List Bytes, (∀ key ∈ l, ∃ names, p names ∧ key = pathText names) →
      ∃ paths : List (List Bytes), (∀ names ∈ paths, p names) ∧ l = paths.map pathText := by
    intro l
    induction l with
    | nil =>
        intro _
        exact ⟨[], fun _ h => absurd h List.not_mem_nil, rfl⟩
    | cons key l ih =>
        intro hall
        obtain ⟨names, hnames, rfl⟩ := hall key List.mem_cons_self
        obtain ⟨paths, hpaths, rfl⟩ := ih fun k hk => hall k (List.mem_cons_of_mem _ hk)
        exact ⟨names :: paths, List.forall_mem_cons.mpr ⟨hnames, hpaths⟩, rfl⟩
  obtain ⟨paths, hpaths, rfl⟩ := hrange keys fun key hkey => (hmem key).mp hkey
  refine ⟨paths, hkeys.of_map _, fun names => ⟨hpaths names, fun hnames => ?_⟩, rfl⟩
  obtain ⟨other, hother, heq⟩ := List.mem_map.mp ((hmem _).mpr ⟨names, hnames, rfl⟩)
  obtain ⟨hne, hall⟩ := hvalid names hnames
  obtain ⟨hne', hall'⟩ := hvalid other (hpaths other hother)
  exact pathText_injective hne' hne hall' hall heq ▸ hother

theorem counts_of_keys {keys : List Bytes} (hkeys : keys.Nodup)
    (hvalid : ∀ names, p names → names ≠ [] ∧ ∀ n ∈ names, IsName n)
    (hmem : ∀ key, key ∈ keys ↔ ∃ names, p names ∧ key = pathText names) :
    Counts keys.length p := by
  obtain ⟨paths, hnodup, hiff, rfl⟩ := exists_paths hkeys hvalid hmem
  exact ⟨paths, hnodup, hiff, (List.length_map _).symm⟩

/-- Keys of which a map lacks some: so many paths have the other property only. -/
theorem counts_lacking {q : List Bytes → Prop} {keys : List Bytes} {m : FileHashes}
    (hkeys : keys.Nodup)
    (hvalid : ∀ names, p names ∨ q names → names ≠ [] ∧ ∀ n ∈ names, IsName n)
    (hmem : ∀ key, key ∈ keys ↔ ∃ names, (p names ∨ q names) ∧ key = pathText names)
    (hnone : ∀ names, (names ≠ [] ∧ ∀ n ∈ names, IsName n) →
      ((m.lookup (pathText names)).isNone = true ↔ ¬ p names)) :
    Counts (keys.filter fun key => (m.lookup key).isNone).length
      fun names => q names ∧ ¬ p names := by
  refine counts_of_keys (hkeys.filter _) (fun names h => hvalid names (Or.inr h.1))
    fun key => ?_
  rw [List.mem_filter, hmem]
  constructor
  · rintro ⟨⟨names, hnames, rfl⟩, hkey⟩
    have hlacks := (hnone names (hvalid names hnames)).mp hkey
    exact ⟨names, ⟨hnames.resolve_left hlacks, hlacks⟩, rfl⟩
  · rintro ⟨names, ⟨hother, hlacks⟩, rfl⟩
    have hnames : p names ∨ q names := Or.inr hother
    exact ⟨⟨names, hnames, rfl⟩, (hnone names (hvalid names hnames)).mpr hlacks⟩

/-- A property counts only one number. -/
theorem counts_unique {n m : Nat} (h : Counts n p) (h' : Counts m p) : n = m := by
  obtain ⟨paths, hnodup, hiff, rfl⟩ := h
  obtain ⟨paths', hnodup', hiff', rfl⟩ := h'
  exact ((List.perm_ext_iff_of_nodup hnodup hnodup').mpr fun names =>
    (hiff names).trans (hiff' names).symm).length_eq

end Paths

section Exactness

variable {d d' : Directory Bytes}

theorem HasFile.valid {names : List Bytes} (h : HasFile d names) (hd : d.WellFormed) :
    names ≠ [] ∧ ∀ n ∈ names, IsName n := by
  obtain ⟨data, hholds⟩ := h
  obtain ⟨first, rest, rfl, -, hall⟩ := hholds.exists_cons hd
  exact ⟨List.cons_ne_nil first rest, hall⟩

/-- A scan has nothing under the path of a file that is not there. -/
theorem isNone_lookup_scan (base : List Bytes) (hd : d.WellFormed) {names : List Bytes}
    (hvalid : names ≠ [] ∧ ∀ n ∈ names, IsName n) :
    ((scanDirRecursive base base d ∅).lookup (pathText names)).isNone = true ↔
      ¬ HasFile d names := by
  rw [← Option.not_isSome, Bool.not_eq_true', ← Bool.not_eq_true, isSome_lookup_scan]
  refine not_congr ⟨?_, fun h => ⟨names, h, rfl⟩⟩
  rintro ⟨names', h, heq⟩
  obtain ⟨hne, hall⟩ := h.valid hd
  rwa [pathText_injective hvalid.1 hne hvalid.2 hall heq]

/-- The paths of both scans are those of the files of both trees. -/
theorem mem_allPaths_scan (base base' : List Bytes) (key : Bytes) :
    key ∈ allPaths (scanDirRecursive base base d ∅) (scanDirRecursive base' base' d' ∅) ↔
      ∃ names, (HasFile d names ∨ HasFile d' names) ∧ key = pathText names := by
  rw [mem_allPaths_iff, isSome_lookup_scan, isSome_lookup_scan, ← exists_or]
  simp only [or_and_right]

/-- A path is consistent if both trees have the same file there. -/
theorem isConsistent_scan_iff (base base' : List Bytes) (hd : d.WellFormed)
    (hd' : d'.WellFormed) (hfree : CollisionFree d d') {names : List Bytes}
    (hvalid : names ≠ [] ∧ ∀ n ∈ names, IsName n) :
    (compareFile (scanDirRecursive base base d ∅) (scanDirRecursive base' base' d' ∅)
        (pathText names)).isConsistent = true ↔
      ∃ data, d.Holds names data ∧ d'.Holds names data := by
  rw [isConsistent_compareFile_iff]
  constructor
  · rintro ⟨value, hnative, hcompat⟩
    obtain ⟨data, hdata, rfl⟩ := (lookup_scan base hd hvalid.1 hvalid.2 value).mp hnative
    obtain ⟨data', hdata', heq⟩ := (lookup_scan base' hd' hvalid.1 hvalid.2 _).mp hcompat
    obtain rfl := hfree names data data' hdata hdata' (congrArg Prod.fst heq)
    exact ⟨data, hdata, hdata'⟩
  · rintro ⟨data, hdata, hdata'⟩
    exact ⟨hashAndSize data,
      (lookup_scan base hd hvalid.1 hvalid.2 _).mpr ⟨data, hdata, rfl⟩,
      (lookup_scan base' hd' hvalid.1 hvalid.2 _).mpr ⟨data, hdata', rfl⟩⟩

/-- Everywhere the same file or none is: everywhere, where one of the trees has a
file, both have the same. -/
theorem holds_iff_holds_iff (hd : d.WellFormed) (hd' : d'.WellFormed) :
    (∀ names data, d.Holds names data ↔ d'.Holds names data) ↔
      ∀ names, HasFile d names ∨ HasFile d' names →
        ∃ data, d.Holds names data ∧ d'.Holds names data := by
  constructor
  · rintro h names (⟨data, hdata⟩ | ⟨data, hdata⟩)
    · exact ⟨data, hdata, (h names data).mp hdata⟩
    · exact ⟨data, (h names data).mpr hdata, hdata⟩
  · intro h names data
    constructor
    · intro hdata
      obtain ⟨data', hleft, hright⟩ := h names (Or.inl ⟨data, hdata⟩)
      rwa [hdata.unique hleft hd]
    · intro hdata
      obtain ⟨data', hleft, hright⟩ := h names (Or.inr ⟨data, hdata⟩)
      rwa [hdata.unique hright hd']

/-- All paths are consistent if the trees have the same files. -/
theorem consistent_keys_iff (base base' : List Bytes) (hd : d.WellFormed)
    (hd' : d'.WellFormed) (hfree : CollisionFree d d') {keys : List Bytes}
    (hvalid : ∀ names, HasFile d names ∨ HasFile d' names →
      names ≠ [] ∧ ∀ n ∈ names, IsName n)
    (hmem : ∀ key, key ∈ keys ↔
      ∃ names, (HasFile d names ∨ HasFile d' names) ∧ key = pathText names) :
    (∀ key ∈ keys, (compareFile (scanDirRecursive base base d ∅)
        (scanDirRecursive base' base' d' ∅) key).isConsistent = true) ↔
      ∀ names data, d.Holds names data ↔ d'.Holds names data := by
  rw [holds_iff_holds_iff hd hd']
  constructor
  · intro h names hfile
    exact (isConsistent_scan_iff base base' hd hd' hfree (hvalid names hfile)).mp
      (h _ ((hmem _).mpr ⟨names, hfile, rfl⟩))
  · intro h key hkey
    obtain ⟨names, hfile, rfl⟩ := (hmem key).mp hkey
    exact (isConsistent_scan_iff base base' hd hd' hfree (hvalid names hfile)).mpr
      (h names hfile)

/-- The conclusion about two scans is exact. -/
theorem conclude_exact (order : IterOrder Bytes) (now : DateTime)
    (base base' : List Bytes) (hd : d.WellFormed) (hd' : d'.WellFormed)
    (hfree : CollisionFree d d') :
    Exact d d' (conclude (scanDirRecursive base base d ∅)
      (scanDirRecursive base' base' d' ∅) order now) := by
  have hvalid : ∀ names, HasFile d names ∨ HasFile d' names →
      names ≠ [] ∧ ∀ n ∈ names, IsName n := by
    rintro names (h | h)
    · exact h.valid hd
    · exact h.valid hd'
  generalize hkeys : order.arrange (allPaths (scanDirRecursive base base d ∅)
    (scanDirRecursive base' base' d' ∅)) = keys
  have hnodup : keys.Nodup := by
    rw [← hkeys]
    exact (order.perm _).nodup_iff.mpr (List.nodup_dedup _)
  have hmem : ∀ key, key ∈ keys ↔
      ∃ names, (HasFile d names ∨ HasFile d' names) ∧ key = pathText names := by
    intro key
    rw [← hkeys, IterOrder.mem_arrange]
    exact mem_allPaths_scan base base' key
  have hmem' : ∀ key, key ∈ keys ↔
      ∃ names, (HasFile d' names ∨ HasFile d names) ∧ key = pathText names := by
    intro key
    rw [hmem]
    exact exists_congr fun names => and_congr_left' or_comm
  rw [conclude_eq order now hkeys]
  constructor
  case verdict =>
    rw [← consistent_keys_iff base base' hd hd' hfree hvalid hmem, beq_iff_eq,
      List.length_eq_zero_iff, List.filter_eq_nil_iff]
    simp only [Bool.not_eq_true', Bool.not_eq_false]
  case entries =>
    obtain ⟨paths, hpaths, hiff, rfl⟩ := exists_paths hnodup hvalid hmem
    refine ⟨paths, hpaths, hiff, ?_⟩
    rw [List.map_map]
    exact List.map_id' _
  case total =>
    exact (List.length_map _).symm
  case sum =>
    exact (List.length_eq_length_filter_add _).symm
  case missingInNative =>
    exact counts_lacking hnodup hvalid hmem fun names => isNone_lookup_scan base hd
  case missingInCompat =>
    exact counts_lacking hnodup (fun names h => hvalid names h.symm) hmem'
      fun names => isNone_lookup_scan base' hd'

theorem CollisionFree.symm (h : CollisionFree d d') : CollisionFree d' d :=
  fun names data data' hdata hdata' heq => (h names data' data hdata' hdata heq.symm).symm

/-- What the conclusions about the trees in both orders have in common. -/
theorem Exact.swap {c c' : ConsistencyConclusion} (h : Exact d d' c) (h' : Exact d' d c') :
    c'.missingInNative = c.missingInCompat ∧ c'.missingInCompat = c.missingInNative ∧
      c'.isConsistent = c.isConsistent := by
  refine ⟨counts_unique h'.missingInNative h.missingInCompat,
    counts_unique h'.missingInCompat h.missingInNative, ?_⟩
  rw [Bool.eq_iff_iff, h.verdict, h'.verdict]
  exact forall₂_congr fun _ _ => iff_comm

/-- The comparison of two trees is exact, and that in the other order has the counts
of missing files swapped and the same verdict. -/
theorem checkConsistency_exact (order order' : IterOrder Bytes) (now now' : DateTime)
    (native compat : List Bytes) (d d' : Directory Bytes) (hd : d.WellFormed)
    (hd' : d'.WellFormed) (hfree : CollisionFree d d') :
    ∃ c c', checkConsistency order now ⟨native, some (.dir d)⟩ ⟨compat, some (.dir d')⟩ =
        .ok c ∧
      Exact d d' c ∧
      checkConsistency order' now' ⟨compat, some (.dir d')⟩ ⟨native, some (.dir d)⟩ =
        .ok c' ∧
      c'.missingInNative = c.missingInCompat ∧ c'.missingInCompat = c.missingInNative ∧
      c'.isConsistent = c.isConsistent := by
  have hexact := conclude_exact order now native compat hd hd' hfree
  have hexact' := conclude_exact order' now' compat native hd' hd hfree.symm
  exact ⟨_, _, rfl, hexact, rfl, hexact.swap hexact'⟩

/-- A file `a` in the directory `d`, and the same next to a file `b`. -/
theorem checkConsistency_exact_nested :
    ∃ c c', checkConsistency IterOrder.asStored 0
        ⟨[], some (.dir (.dir [100] (.file [97] [1] .nil) .nil))⟩
        ⟨[], some (.dir (.file [98] [2] (.dir [100] (.file [97] [1] .nil) .nil)))⟩ =
        .ok c ∧
      Exact (.dir [100] (.file [97] [1] .nil) .nil)
        (.file [98] [2] (.dir [100] (.file [97] [1] .nil) .nil)) c ∧
      checkConsistency IterOrder.asStored 0
        ⟨[], some (.dir (.file [98] [2] (.dir [100] (.file [97] [1] .nil) .nil)))⟩
        ⟨[], some (.dir (.dir [100] (.file [97] [1] .nil) .nil))⟩ =
        .ok c' ∧
      c'.missingInNative = c.missingInCompat ∧ c'.missingInCompat = c.missingInNative ∧
      c'.isConsistent = c.isConsistent := by
  have hname : ∀ b : UInt8, b ≠ separator → IsName [b] := fun b hb =>
    ⟨List.cons_ne_nil b [], fun h => hb (List.mem_singleton.mp h).symm⟩
  have hdir : (Directory.dir [100] (.file [97] [(1 : UInt8)] .nil) .nil).WellFormed :=
    ⟨hname 100 (by decide), List.not_mem_nil,
      ⟨hname 97 (by decide), List.not_mem_nil, trivial⟩, trivial⟩
  refine checkConsistency_exact _ _ _ _ _ _ _ _ hdir
    ⟨hname 98 (by decide), by decide, hdir⟩ ?_
  rintro names data data' hdata hdata' -
  have hmem := Directory.mem_files_iff.mpr hdata
  have hmem' := Directory.mem_files_iff.mpr hdata'
  simp [Directory.files] at hmem hmem'
  grind

end Exactness

end DualRepoConsistencyChecker
end Compat
end HyperBackup
