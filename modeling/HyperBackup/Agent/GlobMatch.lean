import HyperBackup.Agent.Restore
import HyperBackup.Lib.Glob

/-!
# Wildcards in the scanner and in the restore

The scanner matches a path with a pattern by a recursion over an index into
each of the two texts, the restore by the same recursion on what is left of
them.  Neither index leaves its text, the two agree, and both recognise
exactly the language of the pattern.
-/

namespace HyperBackup
namespace Agent

open Lib

namespace LocalScanner

section Matching

/-- Match the text from `ti` on with the pattern from `pi` on.  There is no
answer if an index is out of bounds. -/
def globMatchHelper (pat : List Char) (pi : Nat) (txt : List Char) (ti : Nat) :
    Option Bool :=
  if pi = pat.length then some (ti = txt.length)
  else
    match _hp : pat[pi]? with
    | none => none
    | some p =>
        if p = '*' then
          if pi + 1 = pat.length then some true
          else
            -- every end of the text is tried, until one of them matches
            (List.range' ti (txt.length + 1 - ti)).anyM fun next =>
              globMatchHelper pat (pi + 1) txt next
        else
          match txt[ti]? with
          | none => some false
          | some c =>
              if p = '?' ∨ p = c then globMatchHelper pat (pi + 1) txt (ti + 1)
              else some false
termination_by pat.length - pi
decreasing_by
  all_goals
    have hpi : pi < pat.length := (List.getElem?_eq_some_iff.mp _hp).1
    omega

def globMatch (pattern text : String) : Option Bool :=
  globMatchHelper pattern.toList 0 text.toList 0

end Matching

end LocalScanner

namespace Restore

section Language

variable {p : Char} {pattern text : List Char}

theorem globHelper_star :
    globHelper ('*' :: pattern) text =
      (pattern.isEmpty || text.tails.any fun rest => globHelper pattern rest) := by
  rw [globHelper]

theorem globHelper_nil_of_ne (hp : p ≠ '*') :
    globHelper (p :: pattern) [] = false := by
  rw [globHelper]
  exact hp

theorem globHelper_cons_of_ne (hp : p ≠ '*') (c : Char) :
    globHelper (p :: pattern) (c :: text) =
      ((p == '?' || p == c) && globHelper pattern text) := by
  rw [globHelper]
  exact hp

/-- The recursion recognises the language of the pattern. -/
theorem globHelper_iff (pattern : List Char) :
    ∀ text, globHelper pattern text = true ↔ text ∈ Glob.language pattern := by
  induction pattern with
  | nil =>
      intro text
      rw [Glob.mem_language_nil, globHelper, List.isEmpty_iff]
  | cons p pattern ih =>
      intro text
      by_cases hstar : p = '*'
      · rw [hstar, globHelper_star, Glob.mem_language_star]
        simp only [Bool.or_eq_true, List.isEmpty_iff, List.any_eq_true,
          List.mem_tails, ih]
        constructor
        · rintro (rfl | hrest)
          -- the shortcut for a star at the end
          · exact Glob.mem_language_star.mp Glob.mem_language_singleton_star
          · exact hrest
        · exact Or.inr
      · rw [Glob.mem_language_cons hstar]
        cases text with
        | nil =>
            rw [globHelper_nil_of_ne hstar]
            constructor
            · intro h
              cases h
            · rintro ⟨c, rest, htext, _⟩
              cases htext
        | cons c text =>
            rw [globHelper_cons_of_ne hstar]
            simp only [Bool.and_eq_true, Bool.or_eq_true, beq_iff_eq, ih]
            constructor
            · rintro ⟨hc, hrest⟩
              exact ⟨c, text, rfl, hc, hrest⟩
            · rintro ⟨c', rest, htext, hc, hrest⟩
              obtain ⟨rfl, rfl⟩ := List.cons.inj htext
              exact ⟨hc, hrest⟩

end Language

end Restore

namespace LocalScanner

section Agreement

/-- A search in which every question is answered. -/
theorem anyM_eq_some {α : Type} {f : α → Option Bool} {g : α → Bool} {as : List α}
    (h : ∀ a ∈ as, f a = some (g a)) : as.anyM f = some (as.any g) := by
  induction as with
  | nil =>
      rfl
  | cons a as ih =>
      have hrest := ih fun a' ha' => h a' (List.mem_cons_of_mem _ ha')
      rw [List.anyM, h a List.mem_cons_self, hrest, List.any_cons]
      cases g a with
      | _ => rfl

/-- The ends of what is left of a text. -/
theorem tails_drop (txt : List Char) {ti : Nat} (hti : ti ≤ txt.length) :
    (txt.drop ti).tails =
      (List.range' ti (txt.length + 1 - ti)).map fun next => txt.drop next := by
  refine List.ext_getElem ?_ ?_
  · simp only [List.length_tails, List.length_drop, List.length_map,
      List.length_range']
    omega
  · intro n _ _
    simp only [List.getElem_tails, List.drop_drop, List.getElem_map,
      List.getElem_range', Nat.one_mul]

variable {pat txt : List Char} {pi : Nat}

/-- The indices are in their texts, and the answer from there on is that of the
recursion on what is left of the texts. -/
def AnswersFrom (pat txt : List Char) (pi : Nat) : Prop :=
  ∀ ti ≤ txt.length, globMatchHelper pat pi txt ti =
    some (Restore.globHelper (pat.drop pi) (txt.drop ti))

theorem answersFrom_length (pat txt : List Char) : AnswersFrom pat txt pat.length := by
  intro ti hti
  have hend : (txt.drop ti).isEmpty = decide (ti = txt.length) := by
    rw [Bool.eq_iff_iff, List.isEmpty_iff, List.drop_eq_nil_iff,
      decide_eq_true_iff]
    omega
  rw [globMatchHelper, if_pos rfl, List.drop_length, Restore.globHelper, hend]

/-- The helper at a character of the pattern. -/
theorem globMatchHelper_of_lt (hlt : pi < pat.length) (ti : Nat) :
    globMatchHelper pat pi txt ti =
      if pat[pi] = '*' then
        if pi + 1 = pat.length then some true
        else
          (List.range' ti (txt.length + 1 - ti)).anyM fun next =>
            globMatchHelper pat (pi + 1) txt next
      else
        match txt[ti]? with
        | none => some false
        | some c =>
            if pat[pi] = '?' ∨ pat[pi] = c then
              globMatchHelper pat (pi + 1) txt (ti + 1)
            else some false := by
  have hp : pat[pi]? = some pat[pi] := List.getElem?_eq_getElem hlt
  rw [globMatchHelper, if_neg (Nat.ne_of_lt hlt)]
  split
  · rename_i hnone
    rw [hp] at hnone
    cases hnone
  · rename_i p hsome
    obtain rfl : pat[pi] = p := Option.some.inj (hp.symm.trans hsome)
    rfl

/-- A star tries all ends of the text. -/
theorem answersFrom_star (hlt : pi < pat.length) (hstar : pat[pi] = '*')
    (ih : AnswersFrom pat txt (pi + 1)) : AnswersFrom pat txt pi := by
  intro ti hti
  rw [globMatchHelper_of_lt hlt, List.drop_eq_getElem_cons hlt, if_pos hstar, hstar,
    Restore.globHelper_star]
  by_cases hlast : pi + 1 = pat.length
  · rw [if_pos hlast, hlast, List.drop_length]
    rfl
  · have hrest : (pat.drop (pi + 1)).isEmpty = false := by
      rw [List.isEmpty_eq_false_iff, ne_eq, List.drop_eq_nil_iff]
      omega
    have hsearch := @anyM_eq_some _ _ _ (List.range' ti (txt.length + 1 - ti))
      fun next hnext => ih next (by
        rw [List.mem_range'_1] at hnext
        omega)
    rw [if_neg hlast, hsearch, hrest, tails_drop txt hti, List.any_map]
    rfl

/-- Any other character is compared with the next one of the text. -/
theorem answersFrom_char (hlt : pi < pat.length) (hstar : pat[pi] ≠ '*')
    (ih : AnswersFrom pat txt (pi + 1)) : AnswersFrom pat txt pi := by
  intro ti hti
  rw [globMatchHelper_of_lt hlt, List.drop_eq_getElem_cons hlt, if_neg hstar]
  by_cases hend : ti < txt.length
  · have hc : txt[ti]? = some txt[ti] := List.getElem?_eq_getElem hend
    have hfits : (pat[pi] == '?' || pat[pi] == txt[ti]) =
        decide (pat[pi] = '?' ∨ pat[pi] = txt[ti]) := by
      rw [Bool.decide_or]
      rfl
    rw [List.drop_eq_getElem_cons hend, Restore.globHelper_cons_of_ne hstar, hfits]
    simp only [hc, ih (ti + 1) hend]
    by_cases hchar : pat[pi] = '?' ∨ pat[pi] = txt[ti]
    · rw [if_pos hchar, decide_eq_true hchar, Bool.true_and]
    · rw [if_neg hchar, decide_eq_false hchar, Bool.false_and]
  · have hnone : txt[ti]? = none := List.getElem?_eq_none (Nat.not_lt.mp hend)
    have htail : txt.drop ti = [] := List.drop_eq_nil_iff.mpr (Nat.not_lt.mp hend)
    rw [htail, Restore.globHelper_nil_of_ne hstar]
    simp only [hnone]

/-- The pattern is worked off from its end. -/
theorem answersFrom_of_le (hpi : pi ≤ pat.length) : AnswersFrom pat txt pi := by
  induction hpi using Nat.decreasingInduction with
  | self =>
      exact answersFrom_length pat txt
  | of_succ pi hlt ih =>
      by_cases hstar : pat[pi] = '*'
      · exact answersFrom_star hlt hstar ih
      · exact answersFrom_char hlt hstar ih

/-- The scanner and the restore give the same answer. -/
theorem globMatch_eq_some (pattern text : String) :
    globMatch pattern text = some (Restore.globMatch pattern text) :=
  answersFrom_of_le (Nat.zero_le _) 0 (Nat.zero_le _)

theorem globMatch_eq_some_true_iff (pattern text : String) :
    globMatch pattern text = some true ↔
      text.toList ∈ Glob.language pattern.toList := by
  rw [globMatch_eq_some, Option.some.injEq]
  exact Restore.globHelper_iff pattern.toList text.toList

/-- Both recursions answer, and with yes exactly for the texts in the language
of the pattern. -/
theorem globMatch_iff_mem_language (pattern text : String) :
    (globMatch pattern text = some true ↔
      text.toList ∈ Glob.language pattern.toList) ∧
    (globMatch pattern text = some false ↔
      text.toList ∉ Glob.language pattern.toList) ∧
    (Restore.globMatch pattern text = true ↔
      text.toList ∈ Glob.language pattern.toList) ∧
    globMatch pattern text = some (Restore.globMatch pattern text) := by
  have hrestore : Restore.globMatch pattern text = true ↔
      text.toList ∈ Glob.language pattern.toList :=
    Restore.globHelper_iff pattern.toList text.toList
  refine ⟨globMatch_eq_some_true_iff pattern text, ?_, hrestore,
    globMatch_eq_some pattern text⟩
  rw [globMatch_eq_some, Option.some.injEq, ← Bool.not_eq_true, hrestore]

end Agreement

end LocalScanner

end Agent
end HyperBackup
