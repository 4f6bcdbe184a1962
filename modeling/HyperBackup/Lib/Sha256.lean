import Mathlib.Data.Vector.Basic

/-!
# SHA-256

The hash function of FIPS 180-4 on lists of bytes.
-/

namespace Lib
namespace Sha256

abbrev Word : Type := BitVec 32

/-- The round constants. -/
def roundConstants : List Word :=
  [
    0x428a2f98, 0x71374491, 0xb5c0fbcf, 0xe9b5dba5,
    0x3956c25b, 0x59f111f1, 0x923f82a4, 0xab1c5ed5,
    0xd807aa98, 0x12835b01, 0x243185be, 0x550c7dc3,
    0x72be5d74, 0x80deb1fe, 0x9bdc06a7, 0xc19bf174,
    0xe49b69c1, 0xefbe4786, 0x0fc19dc6, 0x240ca1cc,
    0x2de92c6f, 0x4a7484aa, 0x5cb0a9dc, 0x76f988da,
    0x983e5152, 0xa831c66d, 0xb00327c8, 0xbf597fc7,
    0xc6e00bf3, 0xd5a79147, 0x06ca6351, 0x14292967,
    0x27b70a85, 0x2e1b2138, 0x4d2c6dfc, 0x53380d13,
    0x650a7354, 0x766a0abb, 0x81c2c92e, 0x92722c85,
    0xa2bfe8a1, 0xa81a664b, 0xc24b8b70, 0xc76c51a3,
    0xd192e819, 0xd6990624, 0xf40e3585, 0x106aa070,
    0x19a4c116, 0x1e376c08, 0x2748774c, 0x34b0bcb5,
    0x391c0cb3, 0x4ed8aa4a, 0x5b9cca4f, 0x682e6ff3,
    0x748f82ee, 0x78a5636f, 0x84c87814, 0x8cc70208,
    0x90befffa, 0xa4506ceb, 0xbef9a3f7, 0xc67178f2]

/-- The eight working variables. -/
structure State where
  a : Word
  b : Word
  c : Word
  d : Word
  e : Word
  f : Word
  g : Word
  h : Word
deriving DecidableEq

def State.initial : State :=
  ⟨0x6a09e667, 0xbb67ae85, 0x3c6ef372, 0xa54ff53a,
    0x510e527f, 0x9b05688c, 0x1f83d9ab, 0x5be0cd19⟩

def State.add (x y : State) : State :=
  ⟨x.a + y.a, x.b + y.b, x.c + y.c, x.d + y.d,
    x.e + y.e, x.f + y.f, x.g + y.g, x.h + y.h⟩

/-- One round with its schedule word and its constant. -/
def round (s : State) (wk : Word × Word) : State :=
  let s₁ := s.e.rotateRight 6 ^^^ s.e.rotateRight 11 ^^^ s.e.rotateRight 25
  let ch := (s.e &&& s.f) ^^^ (~~~s.e &&& s.g)
  let t₁ := s.h + s₁ + ch + wk.2 + wk.1
  let s₀ := s.a.rotateRight 2 ^^^ s.a.rotateRight 13 ^^^ s.a.rotateRight 22
  let maj := (s.a &&& s.b) ^^^ (s.a &&& s.c) ^^^ (s.b &&& s.c)
  ⟨t₁ + (s₀ + maj), s.a, s.b, s.c, s.d + t₁, s.e, s.f, s.g⟩

/-- The next schedule word; the words so far stand last first. -/
def nextWord (ws : List Word) : Word :=
  let w₂ := ws.getD 1 0
  let w₁₅ := ws.getD 14 0
  let s₁ := w₂.rotateRight 17 ^^^ w₂.rotateRight 19 ^^^ (w₂ >>> 10)
  let s₀ := w₁₅.rotateRight 7 ^^^ w₁₅.rotateRight 18 ^^^ (w₁₅ >>> 3)
  s₁ + ws.getD 6 0 + s₀ + ws.getD 15 0

/-- The schedule of a block of sixteen words. -/
def schedule (block : List Word) : List Word :=
  ((List.range 48).foldl (fun ws _ => nextWord ws :: ws) block.reverse).reverse

def compressBlock (s : State) (block : List Word) : State :=
  s.add (((schedule block).zip roundConstants).foldl round s)

/-- Words of four bytes, most significant byte first. -/
def toWords : List UInt8 → List Word
  | b₃ :: b₂ :: b₁ :: b₀ :: rest =>
      BitVec.ofNat 32 (((b₃.toNat * 256 + b₂.toNat) * 256 + b₁.toNat) * 256 +
        b₀.toNat) :: toWords rest
  | _ => []

def ofWord (w : Word) : List UInt8 :=
  [UInt8.ofNat (w.toNat / 256 ^ 3), UInt8.ofNat (w.toNat / 256 ^ 2),
    UInt8.ofNat (w.toNat / 256), UInt8.ofNat w.toNat]

/-- The message with its padding and its length in bits. -/
def pad (message : List UInt8) : List UInt8 :=
  let zeros := (119 - message.length % 64) % 64
  let bits := 8 * message.length
  message ++ 0x80 :: List.replicate zeros 0 ++
    (List.range 8).map fun i => UInt8.ofNat (bits / 256 ^ (7 - i))

/-- Compress the blocks of the given number. -/
def compressBlocks : Nat → State → List Word → State
  | 0, s, _ => s
  | n + 1, s, words =>
      compressBlocks n (compressBlock s (words.take 16)) (words.drop 16)

def hash (message : List UInt8) : List.Vector UInt8 32 :=
  let words := toWords (pad message)
  let s := compressBlocks (words.length / 16) .initial words
  ⟨[s.a, s.b, s.c, s.d, s.e, s.f, s.g, s.h].flatMap ofWord, rfl⟩

example :
    (hash [0x61, 0x62, 0x63]).toList =
      [0xba, 0x78, 0x16, 0xbf, 0x8f, 0x01, 0xcf, 0xea,
        0x41, 0x41, 0x40, 0xde, 0x5d, 0xae, 0x22, 0x23,
        0xb0, 0x03, 0x61, 0xa3, 0x96, 0x17, 0x7a, 0x9c,
        0xb4, 0x10, 0xff, 0x61, 0xf2, 0x00, 0x15, 0xad] := by
  decide +kernel

end Sha256
end Lib
