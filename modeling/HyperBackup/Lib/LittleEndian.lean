import Mathlib.Algebra.Group.Nat.Defs
import Mathlib.Data.List.Basic

/-!
# Numbers as bytes

A number in a fixed number of bytes, least significant first, and back.
Numbers that do not fit lose their high bytes.
-/

namespace Lib
namespace LittleEndian

/-- The low bytes of a number, least significant first. -/
def encode : Nat → Nat → List UInt8
  | 0, _ => []
  | width + 1, n => UInt8.ofNat n :: encode width (n / 256)

def decode : List UInt8 → Nat
  | [] => 0
  | b :: bytes => b.toNat + 256 * decode bytes

@[simp] theorem length_encode (width n : Nat) :
    (encode width n).length = width := by
  induction width generalizing n with
  | zero =>
      rfl
  | succ width ih =>
      simp [encode, ih]

/-- What does not fit is lost. -/
theorem decode_encode_mod (width n : Nat) :
    decode (encode width n) = n % 256 ^ width := by
  induction width generalizing n with
  | zero =>
      simp [encode, decode, Nat.mod_one]
  | succ width ih =>
      have hbyte : (UInt8.ofNat n).toNat = n % 256 := by
        simp
      rw [encode, decode, ih, hbyte, Nat.pow_succ', Nat.mod_mul]

theorem decode_encode {width n : Nat} (h : n < 256 ^ width) :
    decode (encode width n) = n := by
  rw [decode_encode_mod, Nat.mod_eq_of_lt h]

/-- A 32-bit number fits into four bytes. -/
@[simp] theorem decode_encode_uint32 (n : UInt32) :
    decode (encode 4 n.toNat) = n.toNat :=
  decode_encode n.toNat_lt

end LittleEndian
end Lib
