import Mathlib.Data.List.Basic
import Mathlib.Tactic.IntervalCases

/-!
# Hexadecimal text

Bytes written as lower-case hexadecimal text and read back.  Reading works on
the UTF-8 bytes of the text, accepts both cases, and reports either an odd
number of digits or the first byte that is not a digit with its position.
-/

namespace Lib
namespace Hex

/-- Why a text is not a sequence of bytes in hexadecimal. -/
inductive FromHexError
  | oddLength
  | invalidHexCharacter (c : Char) (index : Nat)
deriving DecidableEq

/-- A character below 256 in quotes, escaped where it does not print. -/
def quoted (c : Char) : String :=
  let n := c.toNat
  let body :=
    if n = 0 then "\\0"
    else if n = 9 then "\\t"
    else if n = 10 then "\\n"
    else if n = 13 then "\\r"
    else if n = 39 then "\\'"
    else if n = 92 then "\\\\"
    else if n < 32 ∨ (127 ≤ n ∧ n ≤ 160) ∨ n = 173 then
      "\\u\x7b" ++ String.ofList (Nat.toDigits 16 n) ++ "\x7d"
    else String.ofList [c]
  "'" ++ body ++ "'"

def FromHexError.message : FromHexError → String
  | .oddLength => "Odd number of digits"
  | .invalidHexCharacter c index =>
      "Invalid character " ++ quoted c ++ " at position " ++ toString index

/-- The lower-case digit of a number below sixteen. -/
def digit (n : Nat) : Char :=
  Char.ofNat (if n < 10 then 48 + n else 87 + n)

/-- The two digits of a byte. -/
def digits (b : UInt8) : List Char :=
  [digit (b.toNat / 16), digit (b.toNat % 16)]

def encode (bytes : List UInt8) : String :=
  String.ofList (bytes.flatMap digits)

/-- Value of one digit given as a byte. -/
def val (c : UInt8) (index : Nat) : Except FromHexError Nat :=
  if 65 ≤ c.toNat ∧ c.toNat ≤ 70 then .ok (c.toNat - 55)
  else if 97 ≤ c.toNat ∧ c.toNat ≤ 102 then .ok (c.toNat - 87)
  else if 48 ≤ c.toNat ∧ c.toNat ≤ 57 then .ok (c.toNat - 48)
  else .error (.invalidHexCharacter (Char.ofNat c.toNat) index)

/-- Read pairs of digits, the first of which stands at the given position. -/
def decodePairs (index : Nat) : List UInt8 → Except FromHexError (List UInt8)
  | a :: b :: rest => do
      let hi ← val a index
      let lo ← val b (index + 1)
      let tail ← decodePairs (index + 2) rest
      return UInt8.ofNat (16 * hi + lo) :: tail
  | _ => .ok []

/-- The UTF-8 bytes of a text. -/
def utf8 (s : String) : List UInt8 :=
  s.toList.flatMap String.utf8EncodeChar

theorem utf8_append (s s' : String) : utf8 (s ++ s') = utf8 s ++ utf8 s' := by
  rw [utf8, String.toList_append, List.flatMap_append]
  rfl

theorem utf8_injective : Function.Injective utf8 := by
  intro s s' h
  have hbytes : s.toList.utf8Encode = s'.toList.utf8Encode := by
    unfold List.utf8Encode
    exact congrArg List.toByteArray h
  rw [← String.toByteArray_inj]
  simpa using hbytes

def decode (s : String) : Except FromHexError (List UInt8) :=
  if (utf8 s).length % 2 ≠ 0 then .error .oddLength
  else decodePairs 0 (utf8 s)

/-- A digit is one UTF-8 byte, and that byte has the digit's value. -/
theorem utf8_digit {n : Nat} (hn : n < 16) (index : Nat) :
    ∃ c, String.utf8EncodeChar (digit n) = [c] ∧ val c index = .ok n := by
  interval_cases n <;> exact ⟨_, rfl, rfl⟩

/-- The UTF-8 bytes of an encoded list are read back pair by pair. -/
theorem decodePairs_digits (bytes : List UInt8) :
    ∀ index,
      decodePairs index
        ((bytes.flatMap digits).flatMap String.utf8EncodeChar) = .ok bytes := by
  induction bytes with
  | nil =>
      intro index
      rfl
  | cons b bytes ih =>
      intro index
      have hb := b.toNat_lt
      obtain ⟨hi, hhi, vhi⟩ :=
        utf8_digit (n := b.toNat / 16) (by omega) index
      obtain ⟨lo, hlo, vlo⟩ :=
        utf8_digit (n := b.toNat % 16) (by omega) (index + 1)
      have hbyte :
          UInt8.ofNat (16 * (b.toNat / 16) + b.toNat % 16) = b := by
        rw [Nat.div_add_mod]
        exact UInt8.ofNat_toNat
      simp only [digits, List.flatMap_cons, hhi, hlo,
        List.cons_append, List.nil_append]
      simp only [decodePairs, vhi, vlo, ih (index + 2)]
      simp [bind, Except.bind, pure, Except.pure, hbyte]

/-- An encoded list has an even number of UTF-8 bytes. -/
theorem length_utf8_digits (bytes : List UInt8) :
    ((bytes.flatMap digits).flatMap String.utf8EncodeChar).length
      = 2 * bytes.length := by
  induction bytes with
  | nil =>
      rfl
  | cons b bytes ih =>
      have hb := b.toNat_lt
      obtain ⟨hi, hhi, _⟩ :=
        utf8_digit (n := b.toNat / 16) (by omega) 0
      obtain ⟨lo, hlo, _⟩ :=
        utf8_digit (n := b.toNat % 16) (by omega) 0
      simp only [digits, List.flatMap_cons, List.flatMap_append,
        List.flatMap_nil, List.append_nil, hhi, hlo,
        List.length_append, List.length_cons, List.length_nil, ih]
      omega

/-- Reading undoes writing. -/
theorem decode_encode (bytes : List UInt8) :
    decode (encode bytes) = .ok bytes := by
  have hutf : utf8 (encode bytes) =
      (bytes.flatMap digits).flatMap String.utf8EncodeChar := by
    simp [utf8, encode]
  unfold decode
  rw [hutf, length_utf8_digits, decodePairs_digits]
  simp

theorem length_encode (bytes : List UInt8) :
    (encode bytes).toList.length = 2 * bytes.length := by
  simp [encode, digits, List.length_flatMap, Nat.mul_comm]

/-- What holds of every digit holds of every character of a text. -/
theorem forall_mem_encode {P : Char → Prop} (h : ∀ n < 16, P (digit n))
    (bytes : List UInt8) : ∀ c ∈ (encode bytes).toList, P c := by
  intro c hc
  rw [encode, String.toList_ofList, List.mem_flatMap] at hc
  obtain ⟨b, _, hb⟩ := hc
  have hlt := b.toNat_lt
  rcases List.mem_pair.mp hb with rfl | rfl
  · exact h _ (by omega)
  · exact h _ (by omega)

/-- Different byte lists have different texts. -/
theorem encode_injective : Function.Injective encode := by
  intro a b h
  have hdec : decode (encode a) = decode (encode b) := by rw [h]
  rw [decode_encode, decode_encode] at hdec
  exact Except.ok.inj hdec

end Hex
end Lib
