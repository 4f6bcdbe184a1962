import Mathlib.Data.List.Basic

/-!
# Taking texts apart

Texts are lists of characters.  They are split at white space or at the first
separator, and read as a number without a sign that has to stay below a limit.
-/

namespace Lib
namespace TextFields

section Fields

/-- The characters of white space. -/
def isWhitespace (c : Char) : Bool :=
  let n := c.toNat
  (9 ≤ n && n ≤ 13) || n == 0x20 || n == 0x85 || n == 0xa0 || n == 0x1680 ||
    (0x2000 ≤ n && n ≤ 0x200a) || n == 0x2028 || n == 0x2029 || n == 0x202f ||
    n == 0x205f || n == 0x3000

def splitWhitespace (text : List Char) : List (List Char) :=
  (text.splitOnP isWhitespace).filter (· ≠ [])

/-- The text before the first separator, and the text behind it. -/
def splitOnce (separator : Char) (text : List Char) :
    Option (List Char × List Char) :=
  if separator ∈ text then
    some (text.takeWhile (· ≠ separator), (text.dropWhile (· ≠ separator)).tail)
  else none

def withoutPlus : List Char → List Char
  | '+' :: digits => digits
  | text => text

/-- Read a decimal number, which may have a plus sign. -/
def parseUnsigned (limit : Nat) (text : List Char) : Option Nat :=
  let digits := withoutPlus text
  if digits ≠ [] ∧ digits.all Char.isDigit then
    let n := digits.foldl (fun n c => 10 * n + (c.toNat - '0'.toNat)) 0
    if n < limit then some n else none
  else none

variable {separator : Char} {text start stop : List Char} {limit n : Nat}

theorem splitOnce_append (h : separator ∉ start) :
    splitOnce separator (start ++ separator :: stop) = some (start, stop) := by
  have hstart : ∀ c ∈ start, decide (c ≠ separator) = true := by
    intro c hc
    rw [decide_eq_true_iff]
    rintro rfl
    exact h hc
  have hmem : separator ∈ start ++ separator :: stop :=
    List.mem_append_right start List.mem_cons_self
  have hstop : (separator :: stop).takeWhile (fun c => decide (c ≠ separator)) = [] :=
    List.takeWhile_cons_of_neg (by simp)
  have htail : (separator :: stop).dropWhile (fun c => decide (c ≠ separator)) =
      separator :: stop :=
    List.dropWhile_cons_of_neg (by simp)
  unfold splitOnce
  rw [if_pos hmem, List.takeWhile_append_of_pos hstart,
    List.dropWhile_append_of_pos hstart, hstop, htail, List.append_nil]
  rfl

theorem splitOnce_eq_some_iff :
    splitOnce separator text = some (start, stop) ↔
      text = start ++ separator :: stop ∧ separator ∉ start := by
  constructor
  · intro h
    by_cases hmem : separator ∈ text
    · obtain ⟨front, rest, rfl, hfront⟩ := List.eq_append_cons_of_mem hmem
      rw [splitOnce_append hfront] at h
      obtain ⟨rfl, rfl⟩ := Prod.mk.inj (Option.some.inj h)
      exact ⟨rfl, hfront⟩
    · unfold splitOnce at h
      rw [if_neg hmem] at h
      cases h
  · rintro ⟨rfl, h⟩
    exact splitOnce_append h

theorem splitOnce_eq_none_iff :
    splitOnce separator text = none ↔ separator ∉ text := by
  unfold splitOnce
  by_cases h : separator ∈ text
  · rw [if_pos h]
    exact iff_of_false (by simp) (fun hnot => hnot h)
  · rw [if_neg h]
    exact iff_of_true rfl h

theorem mem_withoutPlus {c : Char} (h : c ∈ text) : c = '+' ∨ c ∈ withoutPlus text := by
  unfold withoutPlus
  split
  · exact List.mem_cons.mp h
  · exact Or.inr h

/-- A number has no characters but digits and a plus sign. -/
theorem parseUnsigned_eq_none {c : Char} (h : c ∈ text) (hplus : c ≠ '+')
    (hdigit : c.isDigit = false) : parseUnsigned limit text = none := by
  have hmem : c ∈ withoutPlus text := (mem_withoutPlus h).resolve_left hplus
  unfold parseUnsigned
  refine if_neg ?_
  rintro ⟨_, hall⟩
  rw [List.all_eq_true] at hall
  exact absurd (hall c hmem) (by simp [hdigit])

end Fields

end TextFields
end Lib
