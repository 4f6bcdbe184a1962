import Mathlib.Data.List.Basic
import Mathlib.Data.Fin.Basic
import Mathlib.Data.List.Nodup
import Mathlib.Tactic.Common

/-!
# Base 64

Three bytes are written as four digits of six bits each, over any alphabet of 64
digits and without padding.  Two or three digits are left over for one or two
last bytes; the bits of the last digit that belong to no byte have to be zero.
A text is read as some bytes exactly if it is what these bytes are written as.
-/

namespace Lib
namespace Base64

/-- Six bits. -/
abbrev Sextet : Type := Fin 64

/-- The digits in the order of their values. -/
structure Alphabet where
  digits : List Char
  length_digits : digits.length = 64
  nodup : digits.Nodup

def Alphabet.digit (A : Alphabet) (n : Sextet) : Char :=
  A.digits.get (n.cast A.length_digits.symm)

def Alphabet.value (A : Alphabet) (c : Char) : Option Sextet :=
  (List.finRange 64).find? fun n => A.digit n = c

/-- Bytes as sextets. -/
def sextets : List UInt8 → List Sextet
  | [] => []
  | [a] => [Fin.ofNat 64 (a.toNat / 4), Fin.ofNat 64 (a.toNat % 4 * 16)]
  | [a, b] =>
      [Fin.ofNat 64 (a.toNat / 4), Fin.ofNat 64 (a.toNat % 4 * 16 + b.toNat / 16),
        Fin.ofNat 64 (b.toNat % 16 * 4)]
  | a :: b :: c :: rest =>
      Fin.ofNat 64 (a.toNat / 4) :: Fin.ofNat 64 (a.toNat % 4 * 16 + b.toNat / 16) ::
        Fin.ofNat 64 (b.toNat % 16 * 4 + c.toNat / 64) :: Fin.ofNat 64 (c.toNat % 64) ::
          sextets rest

/-- Sextets as bytes, if no bits but zeros are left over. -/
def bytesOf : List Sextet → Option (List UInt8)
  | [] => some []
  | [_] => none
  | [p, q] =>
      if q.val % 16 = 0 then some [UInt8.ofNat (p.val * 4 + q.val / 16)] else none
  | [p, q, r] =>
      if r.val % 4 = 0 then
        some [UInt8.ofNat (p.val * 4 + q.val / 16),
          UInt8.ofNat (q.val % 16 * 16 + r.val / 4)]
      else none
  | p :: q :: r :: s :: rest =>
      (bytesOf rest).map fun bytes =>
        UInt8.ofNat (p.val * 4 + q.val / 16) ::
          UInt8.ofNat (q.val % 16 * 16 + r.val / 4) ::
            UInt8.ofNat (r.val % 4 * 64 + s.val) :: bytes

def encode (A : Alphabet) (bytes : List UInt8) : List Char :=
  (sextets bytes).map A.digit

def decode (A : Alphabet) (text : List Char) : Option (List UInt8) :=
  (text.mapM A.value).bind bytesOf

section Digits

variable {A : Alphabet}

theorem Alphabet.digit_injective (A : Alphabet) : Function.Injective A.digit := by
  intro m n h
  have hget := A.nodup.injective_get h
  exact Fin.ext (Fin.mk.inj hget)

theorem Alphabet.value_eq_some_iff {c : Char} {n : Sextet} :
    A.value c = some n ↔ c = A.digit n := by
  unfold Alphabet.value
  constructor
  · intro h
    have hfound := List.find?_some h
    exact (of_decide_eq_true hfound).symm
  · rintro rfl
    cases h : (List.finRange 64).find? fun m => A.digit m = A.digit n with
    | none =>
        have hnone := List.find?_eq_none.mp h n (List.mem_finRange n)
        simp at hnone
    | some m =>
        have hfound := List.find?_some h
        rw [A.digit_injective (of_decide_eq_true hfound)]

theorem mapM_value_eq_some_iff {text : List Char} {ns : List Sextet} :
    text.mapM A.value = some ns ↔ text = ns.map A.digit := by
  induction text generalizing ns with
  | nil =>
      cases ns <;> simp
  | cons c text ih =>
      rw [List.mapM_cons]
      cases ns with
      | nil => cases A.value c <;> cases text.mapM A.value <;> simp
      | cons n ns =>
          rw [List.map_cons, List.cons.injEq, ← ih, ← Alphabet.value_eq_some_iff]
          cases A.value c <;> cases text.mapM A.value <;> simp

end Digits

section Bytes

theorem val_ofNat {n : Nat} (h : n < 64) : (Fin.ofNat 64 n).val = n :=
  Nat.mod_eq_of_lt h

theorem ofNat_eq_of_toNat {n : Nat} {a : UInt8} (h : n = a.toNat) : UInt8.ofNat n = a := by
  rw [h, UInt8.ofNat_toNat]

theorem toNat_ofNat {n : Nat} (h : n < 256) : (UInt8.ofNat n).toNat = n :=
  Nat.mod_eq_of_lt h

theorem ofNat_eq_of_val {n : Nat} {p : Sextet} (h : n = p.val) : Fin.ofNat 64 n = p := by
  have hp := p.isLt
  apply Fin.ext
  rw [val_ofNat (by omega), h]

/-- The sextets of some bytes are these bytes. -/
theorem bytesOf_sextets (bytes : List UInt8) : bytesOf (sextets bytes) = some bytes := by
  induction bytes using sextets.induct with
  | case1 => rfl
  | case2 a =>
      have ha := a.toNat_lt
      have hp := val_ofNat (n := a.toNat / 4) (by omega)
      have hq := val_ofNat (n := a.toNat % 4 * 16) (by omega)
      rw [sextets, bytesOf, if_pos (by omega), ofNat_eq_of_toNat (a := a) (by omega)]
  | case3 a b =>
      have ha := a.toNat_lt
      have hb := b.toNat_lt
      have hp := val_ofNat (n := a.toNat / 4) (by omega)
      have hq := val_ofNat (n := a.toNat % 4 * 16 + b.toNat / 16) (by omega)
      have hr := val_ofNat (n := b.toNat % 16 * 4) (by omega)
      rw [sextets, bytesOf, if_pos (by omega), ofNat_eq_of_toNat (a := a) (by omega),
        ofNat_eq_of_toNat (a := b) (by omega)]
  | case4 a b c rest ih =>
      have ha := a.toNat_lt
      have hb := b.toNat_lt
      have hc := c.toNat_lt
      have hp := val_ofNat (n := a.toNat / 4) (by omega)
      have hq := val_ofNat (n := a.toNat % 4 * 16 + b.toNat / 16) (by omega)
      have hr := val_ofNat (n := b.toNat % 16 * 4 + c.toNat / 64) (by omega)
      have hs := val_ofNat (n := c.toNat % 64) (by omega)
      rw [sextets, bytesOf, ih, Option.map_some, ofNat_eq_of_toNat (a := a) (by omega),
        ofNat_eq_of_toNat (a := b) (by omega), ofNat_eq_of_toNat (a := c) (by omega)]

/-- Only the sextets of some bytes are read as these bytes. -/
theorem eq_sextets_of_bytesOf {ns : List Sextet} {bytes : List UInt8}
    (h : bytesOf ns = some bytes) : ns = sextets bytes := by
  induction ns using bytesOf.induct generalizing bytes with
  | case1 =>
      rw [← Option.some.inj h]
      rfl
  | case2 => cases h
  | case3 p q hzero =>
      have hp := p.isLt
      have hq := q.isLt
      have ha := toNat_ofNat (n := p.val * 4 + q.val / 16) (by omega)
      rw [bytesOf, if_pos hzero] at h
      rw [← Option.some.inj h, sextets, ofNat_eq_of_val (p := p) (by omega),
        ofNat_eq_of_val (p := q) (by omega)]
  | case4 p q hleft =>
      rw [bytesOf, if_neg hleft] at h
      cases h
  | case5 p q r hzero =>
      have hp := p.isLt
      have hq := q.isLt
      have hr := r.isLt
      have ha := toNat_ofNat (n := p.val * 4 + q.val / 16) (by omega)
      have hb := toNat_ofNat (n := q.val % 16 * 16 + r.val / 4) (by omega)
      rw [bytesOf, if_pos hzero] at h
      rw [← Option.some.inj h, sextets, ofNat_eq_of_val (p := p) (by omega),
        ofNat_eq_of_val (p := q) (by omega), ofNat_eq_of_val (p := r) (by omega)]
  | case6 p q r hleft =>
      rw [bytesOf, if_neg hleft] at h
      cases h
  | case7 p q r s rest ih =>
      have hp := p.isLt
      have hq := q.isLt
      have hr := r.isLt
      have hs := s.isLt
      rw [bytesOf] at h
      obtain ⟨tail, htail, rfl⟩ := Option.map_eq_some_iff.mp h
      have ha := toNat_ofNat (n := p.val * 4 + q.val / 16) (by omega)
      have hb := toNat_ofNat (n := q.val % 16 * 16 + r.val / 4) (by omega)
      have hc := toNat_ofNat (n := r.val % 4 * 64 + s.val) (by omega)
      rw [sextets, ofNat_eq_of_val (p := p) (by omega), ofNat_eq_of_val (p := q) (by omega),
        ofNat_eq_of_val (p := r) (by omega), ofNat_eq_of_val (p := s) (by omega), ← ih htail]

end Bytes

section Texts

variable {A : Alphabet} {text : List Char} {bytes bytes' : List UInt8}

/-- A text is read as some bytes exactly if it is what they are written as. -/
theorem decode_eq_some_iff : decode A text = some bytes ↔ text = encode A bytes := by
  unfold decode encode
  rw [Option.bind_eq_some_iff]
  constructor
  · rintro ⟨ns, hns, hbytes⟩
    rw [mapM_value_eq_some_iff.mp hns, eq_sextets_of_bytesOf hbytes]
  · rintro rfl
    exact ⟨sextets bytes, mapM_value_eq_some_iff.mpr rfl, bytesOf_sextets bytes⟩

@[simp] theorem decode_encode (A : Alphabet) (bytes : List UInt8) :
    decode A (encode A bytes) = some bytes :=
  decode_eq_some_iff.mpr rfl

theorem encode_injective (A : Alphabet) : Function.Injective (encode A) := by
  intro bytes bytes' h
  exact Option.some.inj ((decode_eq_some_iff.mpr h).symm.trans (decode_encode A bytes)).symm

/-- A written text has no characters but digits. -/
theorem mem_digits_of_mem_encode {c : Char} (h : c ∈ encode A bytes) : c ∈ A.digits := by
  obtain ⟨n, -, rfl⟩ := List.mem_map.mp h
  exact List.get_mem _ _

end Texts

/-- The digits that may stand in a URL. -/
def urlSafe : Alphabet where
  digits := "ABCDEFGHIJKLMNOPQRSTUVWXYZabcdefghijklmnopqrstuvwxyz0123456789-_".toList
  length_digits := by decide +kernel
  nodup := by decide +kernel

end Base64
end Lib
