import Mathlib.Data.List.Basic
import Mathlib.Data.List.DropRight

/-!
# Paths made of parts

A path is a list of parts, each with a separator before it.  If no part has the
separator in it, a path that is continued by a separator begins another one
exactly if its parts are a proper first part of the other's parts.  If moreover
no part is empty, the parts are found again by cutting the outer separators off
and splitting at the others.
-/

namespace Lib
namespace JoinedPath

universe u

variable {α : Type u}

/-- The parts one after the other, with a separator before each. -/
def joined (sep : α) (parts : List (List α)) : List α :=
  parts.flatMap fun part => sep :: part

section Joined

variable {sep : α} {p q r : List (List α)}

@[simp] theorem joined_nil : joined sep [] = [] :=
  rfl

@[simp] theorem joined_cons (part : List α) (p : List (List α)) :
    joined sep (part :: p) = sep :: (part ++ joined sep p) :=
  rfl

theorem joined_append (p q : List (List α)) :
    joined sep (p ++ q) = joined sep p ++ joined sep q :=
  List.flatMap_append

theorem joined_concat (p : List (List α)) (part : List α) :
    joined sep (p ++ [part]) = joined sep p ++ sep :: part := by
  rw [joined_append, joined_cons, joined_nil, List.append_nil]

theorem joined_eq_nil_or_cons (sep : α) (p : List (List α)) :
    joined sep p = [] ∨ ∃ rest, joined sep p = sep :: rest := by
  cases p with
  | nil =>
      exact Or.inl rfl
  | cons part p =>
      exact Or.inr ⟨_, rfl⟩

/-- What is put behind a part and begins with the separator shows where the part
ends. -/
theorem append_cons_isPrefix {a b x y : List α}
    (ha : sep ∉ a) (hb : sep ∉ b) (hy : y = [] ∨ ∃ rest, y = sep :: rest)
    (h : a ++ sep :: x <+: b ++ y) : a = b ∧ sep :: x <+: y := by
  induction a generalizing b with
  | nil =>
      cases b with
      | nil =>
          exact ⟨rfl, h⟩
      | cons c b =>
          obtain ⟨rfl, -⟩ := List.cons_prefix_cons.mp h
          exact absurd List.mem_cons_self hb
  | cons c a ih =>
      cases b with
      | nil =>
          obtain rfl | ⟨rest, rfl⟩ := hy
          · exact absurd (List.prefix_nil.mp h) (List.cons_ne_nil _ _)
          · obtain ⟨rfl, -⟩ := List.cons_prefix_cons.mp h
            exact absurd List.mem_cons_self ha
      | cons d b =>
          obtain ⟨rfl, hrest⟩ := List.cons_prefix_cons.mp h
          obtain ⟨rfl, hx⟩ := ih (fun hmem => ha (List.mem_cons_of_mem _ hmem))
            (fun hmem => hb (List.mem_cons_of_mem _ hmem)) hrest
          exact ⟨rfl, hx⟩

/-- A continued path begins another exactly if its parts do. -/
theorem joined_append_isPrefix (hp : ∀ part ∈ p, sep ∉ part)
    (hq : ∀ part ∈ q, sep ∉ part) :
    joined sep p ++ [sep] <+: joined sep q ↔ ∃ r, r ≠ [] ∧ q = p ++ r := by
  constructor
  · intro h
    induction p generalizing q with
    | nil =>
        refine ⟨q, ?_, rfl⟩
        rintro rfl
        exact absurd (List.prefix_nil.mp h) (List.cons_ne_nil _ _)
    | cons a p ih =>
        cases q with
        | nil =>
            exact absurd (List.prefix_nil.mp h) (List.cons_ne_nil _ _)
        | cons b q =>
            have hbody : a ++ (joined sep p ++ [sep]) <+: b ++ joined sep q := by
              rw [joined_cons, joined_cons, List.cons_append,
                List.append_assoc] at h
              exact (List.cons_prefix_cons.mp h).2
            obtain ⟨x, hx⟩ : ∃ x, joined sep p ++ [sep] = sep :: x := by
              obtain hnil | ⟨rest, hrest⟩ := joined_eq_nil_or_cons sep p
              · exact ⟨[], by rw [hnil]; rfl⟩
              · exact ⟨rest ++ [sep], by rw [hrest]; rfl⟩
            rw [hx] at hbody
            obtain ⟨rfl, hrest⟩ := append_cons_isPrefix (hp a List.mem_cons_self)
              (hq b List.mem_cons_self) (joined_eq_nil_or_cons sep q) hbody
            rw [← hx] at hrest
            obtain ⟨r, hr, rfl⟩ := ih
              (fun part hpart => hp part (List.mem_cons_of_mem _ hpart))
              (fun part hpart => hq part (List.mem_cons_of_mem _ hpart)) hrest
            exact ⟨r, hr, rfl⟩
  · rintro ⟨r, hr, rfl⟩
    obtain ⟨first, rest, rfl⟩ := List.exists_cons_of_ne_nil hr
    rw [joined_append, joined_cons]
    exact ⟨first ++ joined sep rest, by simp⟩

/-- A continued path begins another exactly if its parts begin those before the
last part of the other. -/
theorem joined_append_isPrefix_concat {last : List α}
    (hp : ∀ part ∈ p, sep ∉ part) (hq : ∀ part ∈ q ++ [last], sep ∉ part) :
    joined sep p ++ [sep] <+: joined sep (q ++ [last]) ↔ p <+: q := by
  rw [joined_append_isPrefix hp hq]
  constructor
  · rintro ⟨r, hr, heq⟩
    obtain ⟨back, last', rfl⟩ : ∃ back last', r = back ++ [last'] :=
      ⟨_, _, (List.dropLast_concat_getLast hr).symm⟩
    rw [← List.append_assoc] at heq
    exact ⟨back, (List.append_inj' heq rfl).1.symm⟩
  · rintro ⟨back, rfl⟩
    exact ⟨back ++ [last], by simp, by simp⟩

/-- Behind a path stand the parts that it does not have. -/
theorem drop_joined (p r : List (List α)) :
    (joined sep (p ++ r)).drop (joined sep p).length = joined sep r := by
  rw [joined_append, List.drop_left]

end Joined

section Inner

variable {sep : α} {p : List (List α)}

/-- The parts with separators between them. -/
def inner (sep : α) (p : List (List α)) : List α :=
  [sep].intercalate p

theorem inner_cons (part : List α) (p : List (List α)) :
    inner sep (part :: p) = part ++ joined sep p := by
  induction p generalizing part with
  | nil =>
      simp [inner]
  | cons part' p ih =>
      rw [joined_cons, ← ih part', inner, List.intercalate_cons_cons,
        List.append_assoc]
      rfl

theorem joined_eq_cons_inner (hne : p ≠ []) :
    joined sep p = sep :: inner sep p := by
  obtain ⟨part, rest, rfl⟩ := List.exists_cons_of_ne_nil hne
  rw [inner_cons, joined_cons]

/-- A path ends as its last part does. -/
theorem exists_inner_eq_concat (hne : p ≠ [])
    (hp : ∀ part ∈ p, part ≠ [] ∧ sep ∉ part) :
    ∃ front c, c ≠ sep ∧ inner sep p = front ++ [c] := by
  obtain ⟨init, part, rfl⟩ : ∃ init part, p = init ++ [part] :=
    ⟨_, _, (List.dropLast_concat_getLast hne).symm⟩
  obtain ⟨hpart, hsep⟩ := hp part (by simp)
  obtain ⟨body, c, rfl⟩ : ∃ body c, part = body ++ [c] :=
    ⟨_, _, (List.dropLast_concat_getLast hpart).symm⟩
  have hc : c ≠ sep := by
    rintro rfl
    exact hsep (by simp)
  have hjoined := @joined_eq_cons_inner _ sep _ hne
  rw [joined_concat] at hjoined
  obtain hnil | ⟨rest, hrest⟩ := joined_eq_nil_or_cons sep init
  · rw [hnil] at hjoined
    exact ⟨body, c, hc, (List.cons.inj hjoined).2.symm⟩
  · rw [hrest] at hjoined
    refine ⟨rest ++ sep :: body, c, hc, ?_⟩
    rw [← (List.cons.inj hjoined).2]
    simp

end Inner

section Parts

variable [DecidableEq α] {sep : α} {p : List (List α)}

/-- Cut a separator off both ends as often as it stands there. -/
def trim (sep : α) (l : List α) : List α :=
  (l.dropWhile (· = sep)).rdropWhile (· = sep)

/-- The outer separator of a path is its first one. -/
theorem trim_joined (hne : p ≠ [])
    (hp : ∀ part ∈ p, part ≠ [] ∧ sep ∉ part) :
    trim sep (joined sep p) = inner sep p := by
  have hfirst : (joined sep p).dropWhile (· = sep) = inner sep p := by
    rw [joined_eq_cons_inner hne, List.dropWhile_cons_of_pos (by simp)]
    obtain ⟨part, rest, rfl⟩ := List.exists_cons_of_ne_nil hne
    obtain ⟨hpart, hsep⟩ := hp part List.mem_cons_self
    obtain ⟨c, body, rfl⟩ := List.exists_cons_of_ne_nil hpart
    rw [inner_cons, List.cons_append, List.dropWhile_cons_of_neg]
    simp only [decide_eq_true_eq]
    rintro rfl
    exact hsep List.mem_cons_self
  obtain ⟨front, c, hc, hlast⟩ := exists_inner_eq_concat hne hp
  rw [trim, hfirst, hlast, List.rdropWhile_concat_neg]
  simpa using hc

/-- The parts are found between the inner separators. -/
theorem splitOn_trim_joined (hne : p ≠ [])
    (hp : ∀ part ∈ p, part ≠ [] ∧ sep ∉ part) :
    (trim sep (joined sep p)).splitOn sep = p := by
  rw [trim_joined hne hp, inner]
  exact List.splitOn_intercalate _ (fun part hpart => (hp part hpart).2) hne

/-- There is one inner separator less than there are parts. -/
theorem count_trim_joined (hne : p ≠ [])
    (hp : ∀ part ∈ p, part ≠ [] ∧ sep ∉ part) :
    (trim sep (joined sep p)).count sep + 1 = p.length := by
  have hjoined : (joined sep p).count sep = p.length := by
    clear hne
    induction p with
    | nil =>
        rfl
    | cons part p ih =>
        have hpart : part.count sep = 0 :=
          List.count_eq_zero.mpr (hp part List.mem_cons_self).2
        rw [joined_cons, List.count_cons_self, List.count_append, hpart,
          ih fun part' h => hp part' (List.mem_cons_of_mem _ h),
          List.length_cons, Nat.zero_add]
  rw [trim_joined hne hp, ← hjoined, joined_eq_cons_inner hne,
    List.count_cons_self]

end Parts

end JoinedPath
end Lib
