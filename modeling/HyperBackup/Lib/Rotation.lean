import Mathlib.Data.List.Basic
import Mathlib.Data.List.Flatten

/-!
# Logs that are set aside under a name

The entries of a log are in a current file.  A rotation sets the current file
aside as an archive and goes on with an empty one.  If there is an archive of
that name already, it is replaced.

Nothing is lost by a rotation exactly if no archive of its name holds an entry.
What is left of a log is always a part of what was there, in its order.
-/

namespace Lib
namespace Rotation

/-- The archives in the order of their rotations, and the current file. -/
structure Log (κ α : Type) where
  archives : List (κ × List α)
  current : List α

namespace Log

section Basic

variable {κ α : Type}

def empty : Log κ α where
  archives := []
  current := []

/-- The entries of the archives, then those of the current file. -/
def contents (log : Log κ α) : List α :=
  log.archives.flatMap Prod.snd ++ log.current

def append (log : Log κ α) (a : α) : Log κ α where
  archives := log.archives
  current := log.current ++ [a]

/-- The names under which entries are set aside. -/
def names (log : Log κ α) : List κ :=
  (log.archives.filter fun archive => !archive.2.isEmpty).map Prod.fst

@[simp] theorem contents_append (log : Log κ α) (a : α) :
    (log.append a).contents = log.contents ++ [a] :=
  (List.append_assoc _ _ _).symm

@[simp] theorem names_append (log : Log κ α) (a : α) :
    (log.append a).names = log.names :=
  rfl

theorem mem_names {log : Log κ α} {k : κ} :
    k ∈ log.names ↔ ∃ entries, (k, entries) ∈ log.archives ∧ entries ≠ [] := by
  rw [names, List.mem_map]
  constructor
  · rintro ⟨⟨k, entries⟩, hmem, rfl⟩
    obtain ⟨harchive, hentries⟩ := List.mem_filter.mp hmem
    refine ⟨entries, harchive, ?_⟩
    rintro rfl
    cases hentries
  · rintro ⟨entries, harchive, hentries⟩
    refine ⟨(k, entries), List.mem_filter.mpr ⟨harchive, ?_⟩, rfl⟩
    simpa using hentries

end Basic

section Rotate

variable {κ α : Type} [DecidableEq κ]

def rotate (log : Log κ α) (k : κ) : Log κ α where
  archives := log.archives.filter (fun archive => archive.1 ≠ k) ++
    [(k, log.current)]
  current := []

/-- A rotation only loses entries. -/
theorem contents_rotate_sublist (log : Log κ α) (k : κ) :
    (log.rotate k).contents.Sublist log.contents := by
  have hkept : ((log.archives.filter (fun archive => archive.1 ≠ k)).flatMap
      Prod.snd).Sublist (log.archives.flatMap Prod.snd) :=
    List.filter_sublist.flatMap Prod.snd
  simpa [contents, rotate] using hkept

theorem flatMap_filter_of_not_mem {archives : List (κ × List α)} {k : κ}
    (h : ∀ entries, (k, entries) ∈ archives → entries = []) :
    (archives.filter fun archive => archive.1 ≠ k).flatMap Prod.snd =
      archives.flatMap Prod.snd := by
  induction archives with
  | nil =>
      rfl
  | cons archive archives ih =>
      have hrest := ih fun entries hmem => h entries (List.mem_cons_of_mem _ hmem)
      by_cases hk : archive.1 = k
      · have hempty : archive.2 = [] := by
          refine h archive.2 ?_
          rw [← hk]
          exact List.mem_cons_self
        rw [List.filter_cons_of_neg (by simpa using hk), hrest,
          List.flatMap_cons, hempty, List.nil_append]
      · rw [List.filter_cons_of_pos (by simpa using hk), List.flatMap_cons,
          hrest, List.flatMap_cons]

/-- A rotation under a name that holds no entries loses nothing. -/
theorem contents_rotate_of_not_mem {log : Log κ α} {k : κ}
    (h : k ∉ log.names) : (log.rotate k).contents = log.contents := by
  have hempty : ∀ entries, (k, entries) ∈ log.archives → entries = [] := by
    intro entries hmem
    by_contra hentries
    exact h (mem_names.mpr ⟨entries, hmem, hentries⟩)
  have hkept := flatMap_filter_of_not_mem hempty
  simp only [contents, rotate, List.flatMap_append, hkept, List.append_nil]
  simp

theorem length_flatMap_filter_lt {archives : List (κ × List α)} {k : κ}
    {entries : List α} (hmem : (k, entries) ∈ archives) (h : entries ≠ []) :
    ((archives.filter fun archive => archive.1 ≠ k).flatMap Prod.snd).length <
      (archives.flatMap Prod.snd).length := by
  obtain ⟨before, after, rfl⟩ := List.append_of_mem hmem
  have hle : ∀ part : List (κ × List α),
      ((part.filter fun archive => archive.1 ≠ k).flatMap Prod.snd).length ≤
        (part.flatMap Prod.snd).length := by
    intro part
    exact (List.filter_sublist.flatMap Prod.snd).length_le
  have hbefore := hle before
  have hafter := hle after
  have hpos : 0 < entries.length := List.length_pos_iff.mpr h
  rw [List.filter_append, List.filter_cons_of_neg (by simp)]
  simp only [List.flatMap_append, List.flatMap_cons, List.length_append]
  omega

/-- A rotation under a name that holds entries loses some. -/
theorem length_contents_rotate_lt {log : Log κ α} {k : κ} (h : k ∈ log.names) :
    (log.rotate k).contents.length < log.contents.length := by
  obtain ⟨entries, hmem, hentries⟩ := mem_names.mp h
  have hlt := length_flatMap_filter_lt hmem hentries
  simp only [contents, rotate, List.flatMap_append, List.flatMap_cons,
    List.flatMap_nil, List.append_nil, List.length_append]
  omega

theorem names_rotate_of_not_mem {log : Log κ α} {k : κ} (h : k ∉ log.names) :
    (log.rotate k).names =
      log.names ++ (if log.current = [] then [] else [k]) := by
  have hkept : (log.archives.filter fun archive => archive.1 ≠ k).filter
      (fun archive => !archive.2.isEmpty) =
        log.archives.filter fun archive => !archive.2.isEmpty := by
    rw [List.filter_filter]
    refine List.filter_congr ?_
    intro archive hmem
    by_cases hempty : archive.2 = []
    · simp [hempty]
    · have hk : archive.1 ≠ k := by
        rintro rfl
        exact h (mem_names.mpr ⟨archive.2, hmem, hempty⟩)
      simp [hk]
  by_cases hcurrent : log.current = []
  · simp only [names, rotate, List.filter_append, hkept, hcurrent]
    simp
  · simp only [names, rotate, List.filter_append, hkept, if_neg hcurrent,
      List.map_append]
    simp [hcurrent]

end Rotate

end Log

section Encode

variable {α β : Type} {encode : α → List β}

/-- A part of some entries that has as many bytes is all of them. -/
theorem eq_of_sublist_of_length_flatMap (hnonempty : ∀ a, 0 < (encode a).length)
    {kept all : List α} (hsub : kept.Sublist all)
    (hlen : (kept.flatMap encode).length = (all.flatMap encode).length) :
    kept = all := by
  induction hsub with
  | slnil =>
      rfl
  | cons a hsub _ =>
      have hle := (hsub.flatMap encode).length_le
      have hpos := hnonempty a
      rw [List.flatMap_cons, List.length_append] at hlen
      omega
  | cons_cons a hsub ih =>
      rw [List.flatMap_cons, List.flatMap_cons, List.length_append,
        List.length_append] at hlen
      rw [ih (Nat.add_left_cancel hlen)]

end Encode

end Rotation
end Lib
