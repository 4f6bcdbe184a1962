import HyperBackup.Lib.Hex

/-!
# Texts in which some bytes need an escape

Parentheses, the asterisk and the zero byte give a search filter its structure.
As part of a value they are written as a backslash and two hexadecimal digits,
and so is the backslash itself.

A text is read into tokens: a structural byte stands for itself, every other
token is an octet of a value.  Reading succeeds exactly if every backslash
starts an escape.
-/

namespace Lib
namespace FilterText

def backslash : UInt8 := 0x5c

/-- The bytes that give a filter its structure. -/
def structural : List UInt8 :=
  [0x00, 0x28, 0x29, 0x2a]

inductive Token
  | structural (c : UInt8)
  | octet (b : UInt8)
deriving DecidableEq

def hexDigit (c : UInt8) : Option Nat :=
  (Hex.val c 0).toOption

/-- The byte that two digits stand for. -/
def hexByte (h l : UInt8) : Option UInt8 := do
  let hi ← hexDigit h
  let lo ← hexDigit l
  return UInt8.ofNat (16 * hi + lo)

/-- A byte that stands for itself. -/
def plain (c : UInt8) : Token :=
  if c ∈ structural then .structural c else .octet c

def lex : List UInt8 → Option (List Token)
  | [] => some []
  | c :: rest =>
      if c = backslash then
        match rest with
        | h :: l :: rest' => do
            let b ← hexByte h l
            let tokens ← lex rest'
            return .octet b :: tokens
        | _ => none
      else do
        let tokens ← lex rest
        return plain c :: tokens

def Token.octet? : Token → Option UInt8
  | .structural _ => none
  | .octet b => some b

/-- The value that a text without structure stands for. -/
def unescape (text : List UInt8) : Option (List UInt8) := do
  let tokens ← lex text
  tokens.mapM Token.octet?

/-- The text goes on with two hexadecimal digits. -/
def StartsEscape (text : List UInt8) : Prop :=
  ∃ h l rest, text = h :: l :: rest ∧ (hexDigit h).isSome ∧ (hexDigit l).isSome

/-- Every backslash starts an escape. -/
def EveryEscape (text : List UInt8) : Prop :=
  ∀ before after, text = before ++ backslash :: after → StartsEscape after

section Reading

variable {c h l b : UInt8} {text rest : List UInt8} {tokens : List Token}

theorem hexDigit_backslash : hexDigit backslash = none := by
  rfl

theorem ne_backslash_of_hexDigit (h : (hexDigit c).isSome) : c ≠ backslash := by
  rintro rfl
  simp [hexDigit_backslash] at h

theorem everyEscape_nil : EveryEscape [] := by
  intro before after h
  simp at h

theorem everyEscape_cons :
    EveryEscape (c :: text) ↔
      (c = backslash → StartsEscape text) ∧ EveryEscape text := by
  constructor
  · intro h
    refine ⟨fun hc => h [] text (by rw [hc]; rfl), fun before after htext => ?_⟩
    exact h (c :: before) after (by rw [htext]; rfl)
  · rintro ⟨hfirst, hrest⟩ before after heq
    cases before with
    | nil =>
        obtain ⟨hc, rfl⟩ := List.cons.inj heq
        exact hfirst hc
    | cons d before =>
        exact hrest before after (List.cons.inj heq).2

theorem lex_cons_of_ne (hc : c ≠ backslash) :
    lex (c :: rest) = (lex rest).map fun tokens => plain c :: tokens := by
  rw [lex.eq_def]
  simp only [if_neg hc]
  cases lex rest <;> rfl

theorem lex_escape (hb : hexByte h l = some b) :
    lex (backslash :: h :: l :: rest) =
      (lex rest).map fun tokens => .octet b :: tokens := by
  rw [lex, if_pos rfl]
  simp only [hb]
  cases lex rest <;> rfl

theorem hexByte_eq_some (h : (hexByte c l).isSome) :
    (hexDigit c).isSome ∧ (hexDigit l).isSome := by
  unfold hexByte at h
  cases hc : hexDigit c with
  | none =>
      simp [hc] at h
  | some hi =>
      cases hl : hexDigit l with
      | none =>
          simp [hc, hl] at h
      | some lo =>
          exact ⟨rfl, rfl⟩

/-- An escape that cannot be read, or a text with a first token. -/
theorem lex_cases (c : UInt8) (rest : List UInt8) :
    (c = backslash ∧ ¬ StartsEscape rest ∧ lex (c :: rest) = none) ∨
      (∃ h l b rest', c = backslash ∧ rest = h :: l :: rest' ∧
        hexByte h l = some b ∧ StartsEscape rest) ∨
      c ≠ backslash := by
  by_cases hc : c = backslash
  · subst hc
    match rest with
    | [] =>
        exact Or.inl ⟨rfl, fun ⟨_, _, _, heq, _⟩ => by simp at heq, rfl⟩
    | [_] =>
        exact Or.inl ⟨rfl, fun ⟨_, _, _, heq, _⟩ => by simp at heq, rfl⟩
    | h :: l :: rest' =>
        cases hb : hexByte h l with
        | some b =>
            have hdigits := hexByte_eq_some (by rw [hb]; rfl)
            exact Or.inr (Or.inl ⟨h, l, b, rest', rfl, rfl, hb,
              h, l, rest', rfl, hdigits⟩)
        | none =>
            refine Or.inl ⟨rfl, ?_, ?_⟩
            · rintro ⟨h', l', rest'', heq, hh, hl⟩
              obtain ⟨rfl, htail⟩ := List.cons.inj heq
              obtain ⟨rfl, -⟩ := List.cons.inj htail
              obtain ⟨hi, hhi⟩ := Option.isSome_iff_exists.mp hh
              obtain ⟨lo, hlo⟩ := Option.isSome_iff_exists.mp hl
              simp [hexByte, hhi, hlo] at hb
            · rw [lex, if_pos rfl]
              simp only [hb]
              rfl
  · exact Or.inr (Or.inr hc)

/-- A text can be read exactly if every backslash in it starts an escape. -/
theorem isSome_lex_iff : ∀ text, (lex text).isSome ↔ EveryEscape text
  | [] => iff_of_true rfl everyEscape_nil
  | c :: rest => by
      rw [everyEscape_cons]
      rcases lex_cases c rest with ⟨rfl, hnot, hlex⟩ |
        ⟨h, l, b, rest', rfl, rfl, hb, hstart⟩ | hc
      · simp [hlex, hnot]
      · obtain ⟨hh, hl⟩ := hexByte_eq_some (by rw [hb]; rfl)
        rw [lex_escape hb, Option.isSome_map, isSome_lex_iff rest', everyEscape_cons,
          everyEscape_cons]
        simp [hstart, ne_backslash_of_hexDigit hh, ne_backslash_of_hexDigit hl]
      · rw [lex_cons_of_ne hc, Option.isSome_map, isSome_lex_iff rest]
        simp [hc]

/-- What follows a text that can be read is read as it is on its own. -/
theorem lex_append : ∀ {text tokens}, lex text = some tokens → ∀ rest,
    lex (text ++ rest) = (lex rest).map fun more => tokens ++ more
  | [], tokens, htext, rest => by
      obtain rfl := Option.some.inj htext
      simp
  | c :: text, tokens, htext, rest => by
      rcases lex_cases c text with ⟨rfl, hnot, hlex⟩ |
        ⟨h, l, b, text', rfl, rfl, hb, hstart⟩ | hc
      · rw [hlex] at htext
        cases htext
      · rw [lex_escape hb] at htext
        obtain ⟨front, hfront, rfl⟩ := Option.map_eq_some_iff.mp htext
        simp only [List.cons_append]
        rw [lex_escape hb, lex_append hfront, Option.map_map]
        rfl
      · rw [lex_cons_of_ne hc] at htext
        obtain ⟨front, hfront, rfl⟩ := Option.map_eq_some_iff.mp htext
        rw [List.cons_append, lex_cons_of_ne hc, lex_append hfront, Option.map_map]
        rfl

end Reading

section Writing

/-- A value with its bytes written by a given rule. -/
def written (write : UInt8 → List UInt8) (value : List UInt8) : List UInt8 :=
  value.flatMap write

/-- The rule writes every byte so that it is read as an octet. -/
def Writes (write : UInt8 → List UInt8) : Prop :=
  ∀ b, lex (write b) = some [.octet b]

variable {write : UInt8 → List UInt8}

theorem lex_written (hwrite : Writes write) (value : List UInt8) :
    lex (written write value) = some (value.map .octet) := by
  induction value with
  | nil =>
      rfl
  | cons b value ih =>
      have hcons : written write (b :: value) = write b ++ written write value :=
        List.flatMap_cons
      rw [hcons, lex_append (hwrite b), ih]
      rfl

theorem mapM_octet? (value : List UInt8) :
    (value.map Token.octet).mapM Token.octet? = some value := by
  induction value with
  | nil =>
      rfl
  | cons b value ih =>
      rw [List.map_cons, List.mapM_cons, ih]
      rfl

/-- Reading undoes writing. -/
theorem unescape_written (hwrite : Writes write) (value : List UInt8) :
    unescape (written write value) = some value := by
  unfold unescape
  rw [lex_written hwrite]
  exact mapM_octet? value

theorem written_injective (hwrite : Writes write) :
    Function.Injective (written write) := by
  intro value value' h
  have hread := unescape_written hwrite value
  rw [h, unescape_written hwrite] at hread
  exact (Option.some.inj hread).symm

theorem everyEscape_written (hwrite : Writes write) (value : List UInt8) :
    EveryEscape (written write value) := by
  rw [← isSome_lex_iff, lex_written hwrite]
  rfl

/-- A written value between two texts adds its own octets and nothing else. -/
theorem lex_around (hwrite : Writes write) {before : List UInt8}
    {tokens : List Token} (hbefore : lex before = some tokens)
    (value after : List UInt8) :
    lex (before ++ written write value ++ after) =
      (lex after).map fun more => tokens ++ value.map .octet ++ more := by
  rw [List.append_assoc, lex_append hbefore, lex_append (lex_written hwrite value),
    Option.map_map]
  congr 1
  funext more
  simp

end Writing

end FilterText
end Lib
