import Mathlib.Data.List.Basic

/-!
# Trees of files and their walk

A directory is a list of named files and directories, and of other items that
nobody asks for.  A walk lists the paths of the files below a path in the order
of the directories.  Paths and names are bytes, and the path of an entry is its
name behind that of the directory, with a separator only where it is missing.

Names do not contain the separator, so the path tells every name on the way,
and no file is listed twice.
-/

namespace Lib
namespace FileTree

section Names

/-- The byte of `/`. -/
def separator : UInt8 :=
  0x2f

/-- What a path begins with if it is that of an entry of the directory. -/
def stem (base : List UInt8) : List UInt8 :=
  if base.getLast?.all (· == separator) then base else base ++ [separator]

def child (base name : List UInt8) : List UInt8 :=
  stem base ++ name

structure IsName (name : List UInt8) : Prop where
  nonempty : name ≠ []
  noSeparator : separator ∉ name

/-- The path goes through the entry of that name. -/
def Through (base name path : List UInt8) : Prop :=
  ∃ rest : List UInt8, path = child base name ++ rest ∧
    rest.head?.all (· == separator) = true

variable {base name name' path : List UInt8}

theorem through_child : Through base name (child base name) :=
  ⟨[], (List.append_nil _).symm, rfl⟩

/-- The directories of a path are below the one they are in. -/
theorem stem_child (h : IsName name) :
    stem (child base name) = child base name ++ [separator] := by
  obtain ⟨front, last, rfl⟩ : ∃ front last, name = front ++ [last] :=
    ⟨_, _, (List.dropLast_append_getLast h.nonempty).symm⟩
  have hlast : last ≠ separator := by
    rintro rfl
    exact h.noSeparator (List.mem_append_right front List.mem_cons_self)
  have hbase : (child base (front ++ [last])).getLast? = some last := by
    rw [child, ← List.append_assoc, List.getLast?_concat]
  rw [stem, hbase, Option.all_some, if_neg (by simpa using hlast)]

theorem Through.of_child (h : IsName name)
    (hpath : Through (child base name) name' path) : Through base name path := by
  obtain ⟨rest, rfl, _⟩ := hpath
  refine ⟨separator :: (name' ++ rest), ?_, rfl⟩
  rw [child, stem_child h, List.append_assoc, List.append_assoc]
  rfl

theorem takeWhile_of_through (h : IsName name) {rest : List UInt8}
    (hrest : rest.head?.all (· == separator) = true) :
    (name ++ rest).takeWhile (· != separator) = name := by
  have hname : ∀ b ∈ name, (b != separator) = true := by
    intro b hb
    rw [bne_iff_ne]
    rintro rfl
    exact h.noSeparator hb
  have hstop : rest.takeWhile (· != separator) = [] := by
    cases rest with
    | nil =>
        rfl
    | cons b rest =>
        rw [List.head?_cons, Option.all_some, beq_iff_eq] at hrest
        rw [hrest]
        rfl
  rw [List.takeWhile_append_of_pos hname, hstop, List.append_nil]

/-- A path goes through one entry of a directory only. -/
theorem Through.unique (h : IsName name) (h' : IsName name')
    (hpath : Through base name path) (hpath' : Through base name' path) :
    name = name' := by
  obtain ⟨rest, rfl, hrest⟩ := hpath
  obtain ⟨rest', heq, hrest'⟩ := hpath'
  rw [child, child, List.append_assoc, List.append_assoc,
    List.append_cancel_left_eq] at heq
  rw [← takeWhile_of_through h hrest, heq, takeWhile_of_through h' hrest']

end Names

section Directories

variable {α : Type}

/-- What a directory holds, in the order in which it is listed. -/
inductive Directory (α : Type)
  | nil
  | file (name : List UInt8) (content : α) (rest : Directory α)
  | dir (name : List UInt8) (content rest : Directory α)
  | other (rest : Directory α)

namespace Directory

def names : Directory α → List (List UInt8)
  | nil => []
  | file name _ rest => name :: rest.names
  | dir name _ rest => name :: rest.names
  | other rest => rest.names

/-- The names of a directory are different from each other. -/
def WellFormed : Directory α → Prop
  | nil => True
  | file name _ rest => IsName name ∧ name ∉ rest.names ∧ rest.WellFormed
  | dir name content rest =>
      IsName name ∧ name ∉ rest.names ∧ content.WellFormed ∧ rest.WellFormed
  | other rest => rest.WellFormed

/-- The files below a path. -/
def walk (base : List UInt8) : Directory α → List (List UInt8 × α)
  | nil => []
  | file name content rest => (child base name, content) :: rest.walk base
  | dir name content rest => content.walk (child base name) ++ rest.walk base
  | other rest => rest.walk base

/-- The directory has this file where the names lead. -/
inductive Holds : Directory α → List (List UInt8) → α → Prop
  | file (name : List UInt8) (content : α) (rest : Directory α) :
      Holds (file name content rest) [name] content
  | dir (name : List UInt8) {content : Directory α} (rest : Directory α)
      {names : List (List UInt8)} {a : α} (h : Holds content names a) :
      Holds (dir name content rest) (name :: names) a
  | afterFile (name : List UInt8) (content : α) {rest : Directory α}
      {names : List (List UInt8)} {a : α} (h : Holds rest names a) :
      Holds (file name content rest) names a
  | afterDir (name : List UInt8) (content : Directory α) {rest : Directory α}
      {names : List (List UInt8)} {a : α} (h : Holds rest names a) :
      Holds (dir name content rest) names a
  | afterOther {rest : Directory α} {names : List (List UInt8)} {a : α}
      (h : Holds rest names a) : Holds (other rest) names a

variable {d : Directory α} {base path : List UInt8} {a : α}

/-- The walk lists the files of the directory. -/
theorem mem_walk_iff :
    (path, a) ∈ d.walk base ↔
      ∃ names, Holds d names a ∧ path = names.foldl child base := by
  induction d generalizing base with
  | nil =>
      constructor
      · intro h
        cases h
      · rintro ⟨names, h, _⟩
        cases h
  | file name content rest ih =>
      rw [walk, List.mem_cons, ih]
      constructor
      · rintro (h | ⟨names, h, hpath⟩)
        · obtain ⟨rfl, rfl⟩ := Prod.mk.inj h
          exact ⟨[name], Holds.file name a rest, rfl⟩
        · exact ⟨names, h.afterFile name content, hpath⟩
      · rintro ⟨names, h, rfl⟩
        cases h with
        | file => exact Or.inl rfl
        | afterFile _ _ h => exact Or.inr ⟨names, h, rfl⟩
  | dir name content rest ihcontent ihrest =>
      rw [walk, List.mem_append, ihcontent, ihrest]
      constructor
      · rintro (⟨names, h, hpath⟩ | ⟨names, h, hpath⟩)
        · exact ⟨name :: names, h.dir name rest, hpath⟩
        · exact ⟨names, h.afterDir name content, hpath⟩
      · rintro ⟨names, h, rfl⟩
        cases h with
        | dir _ _ h => exact Or.inl ⟨_, h, rfl⟩
        | afterDir _ _ h => exact Or.inr ⟨names, h, rfl⟩
  | other rest ih =>
      rw [walk, ih]
      constructor
      · rintro ⟨names, h, hpath⟩
        exact ⟨names, h.afterOther, hpath⟩
      · rintro ⟨names, h, hpath⟩
        cases h with
        | afterOther h => exact ⟨names, h, hpath⟩

/-- The files with the names that lead to them. -/
def files : Directory α → List (List (List UInt8) × α)
  | nil => []
  | file name content rest => ([name], content) :: rest.files
  | dir name content rest => content.files.map (Prod.map (name :: ·) id) ++ rest.files
  | other rest => rest.files

theorem mem_files_iff {names : List (List UInt8)} :
    (names, a) ∈ d.files ↔ Holds d names a := by
  induction d generalizing names with
  | nil =>
      constructor
      · intro h
        cases h
      · intro h
        cases h
  | file name content rest ih =>
      rw [files, List.mem_cons, ih]
      constructor
      · rintro (h | h)
        · obtain ⟨rfl, rfl⟩ := Prod.mk.inj h
          exact Holds.file name a rest
        · exact h.afterFile name content
      · intro h
        cases h with
        | file => exact Or.inl rfl
        | afterFile _ _ h => exact Or.inr h
  | dir name content rest ihcontent ihrest =>
      rw [files, List.mem_append, ihrest, List.mem_map]
      constructor
      · rintro (⟨⟨inner, b⟩, hmem, heq⟩ | h)
        · obtain ⟨rfl, rfl⟩ := Prod.mk.inj heq
          exact (ihcontent.mp hmem).dir name rest
        · exact h.afterDir name content
      · intro h
        cases h with
        | dir _ _ h => exact Or.inl ⟨(_, a), ihcontent.mpr h, rfl⟩
        | afterDir _ _ h => exact Or.inr h
  | other rest ih =>
      rw [files, ih]
      constructor
      · exact fun h => h.afterOther
      · intro h
        cases h with
        | afterOther h => exact h

/-- The names that lead to a file begin with one of the directory. -/
theorem Holds.exists_cons {names : List (List UInt8)} (h : Holds d names a)
    (hd : d.WellFormed) :
    ∃ name rest, names = name :: rest ∧ name ∈ d.names ∧ ∀ n ∈ names, IsName n := by
  induction h with
  | file name content rest =>
      exact ⟨name, [], rfl, List.mem_cons_self, fun n hn => List.mem_singleton.mp hn ▸ hd.1⟩
  | dir name rest _ ih =>
      obtain ⟨_, _, _, _, hall⟩ := ih hd.2.2.1
      exact ⟨name, _, rfl, List.mem_cons_self, List.forall_mem_cons.mpr ⟨hd.1, hall⟩⟩
  | afterFile name content _ ih =>
      obtain ⟨first, rest, heq, hmem, hall⟩ := ih hd.2.2
      exact ⟨first, rest, heq, List.mem_cons_of_mem _ hmem, hall⟩
  | afterDir name content _ ih =>
      obtain ⟨first, rest, heq, hmem, hall⟩ := ih hd.2.2.2
      exact ⟨first, rest, heq, List.mem_cons_of_mem _ hmem, hall⟩
  | afterOther _ ih =>
      exact ih hd

/-- The same names do not lead to two files. -/
theorem Holds.unique {names : List (List UInt8)} {b : α} (h : Holds d names a)
    (h' : Holds d names b) (hd : d.WellFormed) : a = b := by
  induction h with
  | file name content rest =>
      cases h' with
      | file => rfl
      | afterFile _ _ h' =>
          obtain ⟨_, _, heq, hmem, -⟩ := h'.exists_cons hd.2.2
          cases heq
          exact absurd hmem hd.2.1
  | dir name rest h ih =>
      cases h' with
      | dir _ _ h' => exact ih h' hd.2.2.1
      | afterDir _ _ h' =>
          obtain ⟨_, _, heq, hmem, -⟩ := h'.exists_cons hd.2.2.2
          cases heq
          exact absurd hmem hd.2.1
  | afterFile name content h ih =>
      cases h' with
      | file =>
          obtain ⟨_, _, heq, hmem, -⟩ := h.exists_cons hd.2.2
          cases heq
          exact absurd hmem hd.2.1
      | afterFile _ _ h' => exact ih h' hd.2.2
  | afterDir name content h ih =>
      cases h' with
      | dir _ _ h' =>
          obtain ⟨_, _, heq, hmem, -⟩ := h.exists_cons hd.2.2.2
          cases heq
          exact absurd hmem hd.2.1
      | afterDir _ _ h' => exact ih h' hd.2.2.2
  | afterOther _ ih =>
      cases h' with
      | afterOther h' => exact ih h' hd

/-- A path of the walk goes through one of the names. -/
theorem exists_through (hd : d.WellFormed) (h : path ∈ (d.walk base).map Prod.fst) :
    ∃ name ∈ d.names, IsName name ∧ Through base name path := by
  induction d generalizing base with
  | nil =>
      cases h
  | file name content rest ih =>
      obtain ⟨hname, _, hrest⟩ := hd
      rcases List.mem_cons.mp h with rfl | h
      · exact ⟨name, List.mem_cons_self, hname, through_child⟩
      · obtain ⟨other, hmem, hother⟩ := ih hrest h
        exact ⟨other, List.mem_cons_of_mem _ hmem, hother⟩
  | dir name content rest ihcontent ihrest =>
      obtain ⟨hname, _, hcontent, hrest⟩ := hd
      rw [walk, List.map_append, List.mem_append] at h
      rcases h with h | h
      · obtain ⟨_, _, _, hthrough⟩ := ihcontent hcontent h
        exact ⟨name, List.mem_cons_self, hname, hthrough.of_child hname⟩
      · obtain ⟨other, hmem, hother⟩ := ihrest hrest h
        exact ⟨other, List.mem_cons_of_mem _ hmem, hother⟩
  | other rest ih =>
      exact ih hd h

/-- No path is listed twice. -/
theorem nodup_walk (hd : d.WellFormed) : ((d.walk base).map Prod.fst).Nodup := by
  induction d generalizing base with
  | nil =>
      exact List.nodup_nil
  | file name content rest ih =>
      obtain ⟨hname, hnew, hrest⟩ := hd
      rw [walk, List.map_cons, List.nodup_cons]
      refine ⟨?_, ih hrest⟩
      intro h
      obtain ⟨other, hmem, hother, hthrough⟩ := exists_through hrest h
      rw [through_child.unique hname hother hthrough] at hnew
      exact hnew hmem
  | dir name content rest ihcontent ihrest =>
      obtain ⟨hname, hnew, hcontent, hrest⟩ := hd
      rw [walk, List.map_append, List.nodup_append]
      refine ⟨ihcontent hcontent, ihrest hrest, ?_⟩
      rintro path hleft _ hright rfl
      obtain ⟨_, _, _, hthrough⟩ := exists_through hcontent hleft
      obtain ⟨other, hmem, hother, hthrough'⟩ := exists_through hrest hright
      rw [(hthrough.of_child hname).unique hname hother hthrough'] at hnew
      exact hnew hmem
  | other rest ih =>
      exact ih hd

end Directory

/-- What is found at a path where a walk begins. -/
inductive Root (α : Type)
  | file (content : α)
  | dir (content : Directory α)
  | other

namespace Root

def WellFormed : Root α → Prop
  | dir content => content.WellFormed
  | _ => True

def walk (base : List UInt8) : Root α → List (List UInt8 × α)
  | file content => [(base, content)]
  | dir content => content.walk base
  | other => []

inductive Holds : Root α → List (List UInt8) → α → Prop
  | file (content : α) : Holds (file content) [] content
  | dir {content : Directory α} {names : List (List UInt8)} {a : α}
      (h : Directory.Holds content names a) : Holds (dir content) names a

variable {root : Root α} {base path : List UInt8} {a : α}

theorem mem_walk_iff :
    (path, a) ∈ root.walk base ↔
      ∃ names, Holds root names a ∧ path = names.foldl child base := by
  cases root with
  | file content =>
      rw [walk, List.mem_singleton]
      constructor
      · intro h
        obtain ⟨rfl, rfl⟩ := Prod.mk.inj h
        exact ⟨[], Holds.file a, rfl⟩
      · rintro ⟨names, h, rfl⟩
        cases h
        rfl
  | dir content =>
      rw [walk, Directory.mem_walk_iff]
      constructor
      · rintro ⟨names, h, hpath⟩
        exact ⟨names, Holds.dir h, hpath⟩
      · rintro ⟨names, h, hpath⟩
        cases h with
        | dir h => exact ⟨names, h, hpath⟩
  | other =>
      constructor
      · intro h
        cases h
      · rintro ⟨names, h, _⟩
        cases h

theorem nodup_walk (hroot : root.WellFormed) :
    ((root.walk base).map Prod.fst).Nodup := by
  cases root with
  | file content => exact List.nodup_cons.mpr ⟨List.not_mem_nil, List.nodup_nil⟩
  | dir content => exact Directory.nodup_walk hroot
  | other => exact List.nodup_nil

end Root

/-- What the paths of the system lead to. -/
structure FileSystem (α : Type) where
  find : List UInt8 → Option (Root α)
  wellFormed : ∀ path root, find path = some root → root.WellFormed

namespace FileSystem

/-- The files below a path, if it leads to something. -/
def walk (fs : FileSystem α) (base : List UInt8) : List (List UInt8 × α) :=
  match fs.find base with
  | none => []
  | some root => root.walk base

/-- There is a file of this path below the base. -/
def Below (fs : FileSystem α) (base path : List UInt8) (a : α) : Prop :=
  ∃ root names, fs.find base = some root ∧ root.Holds names a ∧
    path = names.foldl child base

variable {fs : FileSystem α} {base path : List UInt8} {a : α}

theorem mem_walk_iff : (path, a) ∈ fs.walk base ↔ fs.Below base path a := by
  unfold walk Below
  cases hfind : fs.find base with
  | none =>
      constructor
      · intro h
        cases h
      · rintro ⟨root, _, hroot, _⟩
        cases hroot
  | some root =>
      constructor
      · intro h
        obtain ⟨names, hholds, hpath⟩ := Root.mem_walk_iff.mp h
        exact ⟨root, names, rfl, hholds, hpath⟩
      · rintro ⟨_, names, hroot, hholds, hpath⟩
        obtain rfl := Option.some.inj hroot
        exact Root.mem_walk_iff.mpr ⟨names, hholds, hpath⟩

/-- A walk lists no path twice. -/
theorem nodup_walk (fs : FileSystem α) (base : List UInt8) :
    ((fs.walk base).map Prod.fst).Nodup := by
  unfold walk
  cases hfind : fs.find base with
  | none => exact List.nodup_nil
  | some root => exact Root.nodup_walk (fs.wellFormed base root hfind)

end FileSystem

end Directories

end FileTree
end Lib
