import Mathlib.Data.List.Basic

/-!
# CRC-32

The cyclic redundancy check with the reflected polynomial `0xEDB88320`, bit by
bit: the checksum that zip, gzip and many log formats use.
-/

namespace Lib
namespace Crc32

/-- Shift one bit out. -/
def shift (c : UInt32) : UInt32 :=
  if c &&& 1 = 1 then (c >>> 1) ^^^ 0xEDB88320 else c >>> 1

/-- Take in one byte. -/
def update (c : UInt32) (b : UInt8) : UInt32 :=
  Nat.repeat shift 8 (c ^^^ b.toUInt32)

def crc32 (data : List UInt8) : UInt32 :=
  data.foldl update 0xFFFFFFFF ^^^ 0xFFFFFFFF

/-- The usual check value, of the digits from 1 to 9. -/
example : crc32 [49, 50, 51, 52, 53, 54, 55, 56, 57] = 0xCBF43926 := by
  decide +kernel

end Crc32
end Lib
