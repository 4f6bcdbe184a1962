import Mathlib.Computability.Language

/-!
# Wildcard patterns

A pattern is a text in which `*` stands for every sequence of characters, `?`
for every single character, and any other character for itself.  Its language
is the product of the languages of its characters.

The rules at the end take a pattern apart at its first character.
-/

namespace Lib
namespace Glob

section Languages

/-- The words that a character of a pattern stands for. -/
def symbol (p : Char) : Language Char :=
  {word | p = '*' ∨ ∃ c, (p = '?' ∨ p = c) ∧ word = [c]}

def language (pattern : List Char) : Language Char :=
  (pattern.map symbol).prod

variable {p : Char} {pattern text : List Char}

theorem language_cons (p : Char) (pattern : List Char) :
    language (p :: pattern) = symbol p * language pattern := by
  rw [language, List.map_cons, List.prod_cons, ← language]

theorem mem_symbol_star : text ∈ symbol '*' :=
  Or.inl rfl

theorem mem_symbol_iff (hp : p ≠ '*') :
    text ∈ symbol p ↔ ∃ c, (p = '?' ∨ p = c) ∧ text = [c] :=
  or_iff_right hp

/-- The empty pattern only matches the empty text. -/
theorem mem_language_nil : text ∈ language [] ↔ text = [] :=
  Language.mem_one text

/-- A star leaves some end of the text to the rest of the pattern. -/
theorem mem_language_star :
    text ∈ language ('*' :: pattern) ↔
      ∃ rest, rest <:+ text ∧ rest ∈ language pattern := by
  rw [language_cons, Language.mem_mul]
  constructor
  · rintro ⟨front, _, rest, hrest, rfl⟩
    exact ⟨rest, List.suffix_append front rest, hrest⟩
  · rintro ⟨rest, ⟨front, rfl⟩, hrest⟩
    exact ⟨front, mem_symbol_star, rest, hrest, rfl⟩

/-- A star at the end matches what is left, whatever it is. -/
theorem mem_language_singleton_star : text ∈ language ['*'] :=
  mem_language_star.mpr ⟨[], List.nil_suffix, mem_language_nil.mpr rfl⟩

/-- Any other character takes one character of the text. -/
theorem mem_language_cons (hp : p ≠ '*') :
    text ∈ language (p :: pattern) ↔
      ∃ c rest, text = c :: rest ∧ (p = '?' ∨ p = c) ∧
        rest ∈ language pattern := by
  rw [language_cons, Language.mem_mul]
  constructor
  · rintro ⟨front, hfront, rest, hrest, rfl⟩
    obtain ⟨c, hc, rfl⟩ := (mem_symbol_iff hp).mp hfront
    exact ⟨c, rest, rfl, hc, hrest⟩
  · rintro ⟨c, rest, rfl, hc, hrest⟩
    exact ⟨[c], (mem_symbol_iff hp).mpr ⟨c, hc, rfl⟩, rest, hrest, rfl⟩

/-- A change of characters that keeps the two wildcards keeps the language. -/
theorem map_mem_language {f : Char → Char} (hstar : f '*' = '*') (hany : f '?' = '?')
    (h : text ∈ language pattern) : text.map f ∈ language (pattern.map f) := by
  have hsymbol : ∀ {p : Char} {word : List Char}, word ∈ symbol p →
      word.map f ∈ symbol (f p) := by
    rintro p word (rfl | ⟨c, hc, rfl⟩)
    · exact Or.inl hstar
    · refine Or.inr ⟨f c, ?_, rfl⟩
      rcases hc with rfl | rfl
      · exact Or.inl hany
      · exact Or.inr rfl
  induction pattern generalizing text with
  | nil =>
      rw [mem_language_nil] at h
      rw [h]
      exact mem_language_nil.mpr rfl
  | cons p pattern ih =>
      rw [language_cons, Language.mem_mul] at h
      obtain ⟨front, hfront, rest, hrest, rfl⟩ := h
      rw [List.map_append, List.map_cons, language_cons]
      exact Language.append_mem_mul (hsymbol hfront) (ih hrest)

end Languages

end Glob
end Lib
