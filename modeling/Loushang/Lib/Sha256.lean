import Mathlib.Algebra.GroupWithZero.Nat

/-!
# SHA-256

`hashlib.sha256(data).hexdigest()`, on lists of bytes.
-/
namespace Loushang.Lib.Sha256

abbrev Word := BitVec 32

def roundConstants : List Word :=
  [0x428a2f98, 0x71374491, 0xb5c0fbcf, 0xe9b5dba5, 0x3956c25b, 0x59f111f1, 0x923f82a4, 0xab1c5ed5,
    0xd807aa98, 0x12835b01, 0x243185be, 0x550c7dc3, 0x72be5d74, 0x80deb1fe, 0x9bdc06a7, 0xc19bf174,
    0xe49b69c1, 0xefbe4786, 0x0fc19dc6, 0x240ca1cc, 0x2de92c6f, 0x4a7484aa, 0x5cb0a9dc, 0x76f988da,
    0x983e5152, 0xa831c66d, 0xb00327c8, 0xbf597fc7, 0xc6e00bf3, 0xd5a79147, 0x06ca6351, 0x14292967,
    0x27b70a85, 0x2e1b2138, 0x4d2c6dfc, 0x53380d13, 0x650a7354, 0x766a0abb, 0x81c2c92e, 0x92722c85,
    0xa2bfe8a1, 0xa81a664b, 0xc24b8b70, 0xc76c51a3, 0xd192e819, 0xd6990624, 0xf40e3585, 0x106aa070,
    0x19a4c116, 0x1e376c08, 0x2748774c, 0x34b0bcb5, 0x391c0cb3, 0x4ed8aa4a, 0x5b9cca4f, 0x682e6ff3,
    0x748f82ee, 0x78a5636f, 0x84c87814, 0x8cc70208, 0x90befffa, 0xa4506ceb, 0xbef9a3f7, 0xc67178f2]

/-- The eight working variables. -/
structure Working where
  (a b c d e f g h : Word)

def initial : Working :=
  ⟨0x6a09e667, 0xbb67ae85, 0x3c6ef372, 0xa54ff53a, 0x510e527f, 0x9b05688c, 0x1f83d9ab, 0x5be0cd19⟩

/-- The next word of the message schedule; `recent` lists the words so far, the last first. -/
def nextWord (recent : List Word) : Word :=
  let low := recent.getD 14 0
  let high := recent.getD 1 0
  recent.getD 15 0 + (low.rotateRight 7 ^^^ low.rotateRight 18 ^^^ (low >>> 3)) +
    recent.getD 6 0 + (high.rotateRight 17 ^^^ high.rotateRight 19 ^^^ (high >>> 10))

def schedule : Nat → List Word → List Word
  | 0, recent => recent.reverse
  | more + 1, recent => schedule more (nextWord recent :: recent)

def round (w : Working) (input : Word × Word) : Working :=
  let t1 := w.h + (w.e.rotateRight 6 ^^^ w.e.rotateRight 11 ^^^ w.e.rotateRight 25) +
    ((w.e &&& w.f) ^^^ (~~~w.e &&& w.g)) + input.1 + input.2
  let t2 := (w.a.rotateRight 2 ^^^ w.a.rotateRight 13 ^^^ w.a.rotateRight 22) +
    ((w.a &&& w.b) ^^^ (w.a &&& w.c) ^^^ (w.b &&& w.c))
  ⟨t1 + t2, w.a, w.b, w.c, w.d + t1, w.e, w.f, w.g⟩

def compress (w : Working) (block : List Word) : Working :=
  let v := (roundConstants.zip (schedule 48 block.reverse)).foldl round w
  ⟨w.a + v.a, w.b + v.b, w.c + v.c, w.d + v.d, w.e + v.e, w.f + v.f, w.g + v.g, w.h + v.h⟩

/-- A one bit, zeros, and the length in bits as eight bytes. -/
def pad (message : List UInt8) : List UInt8 :=
  message ++ 0x80 :: List.replicate ((119 - message.length % 64) % 64) 0 ++
    (List.range 8).map fun place => .ofNat (8 * message.length / 256 ^ (7 - place) % 256)

/-- Big-endian words; bytes short of a word are dropped. -/
def words : List UInt8 → List Word
  | a :: b :: c :: d :: rest =>
    .ofNat 32 (a.toNat * 0x1000000 + b.toNat * 0x10000 + c.toNat * 0x100 + d.toNat) :: words rest
  | _ => []

def blocks : Nat → List Word → Working → Working
  | 0, _, w => w
  | more + 1, input, w => blocks more (input.drop 16) (compress w (input.take 16))

def digest (message : List UInt8) : List Word :=
  let input := words (pad message)
  let w := blocks (input.length / 16) input initial
  [w.a, w.b, w.c, w.d, w.e, w.f, w.g, w.h]

def hexdigest (message : List UInt8) : List Char :=
  (digest message).flatMap fun word =>
    (List.range 8).map fun place => Nat.digitChar (word.toNat / 16 ^ (7 - place) % 16)

example : hexdigest [0x61, 0x62, 0x63] =
    "ba7816bf8f01cfea414140de5dae2223b00361a396177a9cb410ff61f20015ad".toList := by
  decide +kernel

end Loushang.Lib.Sha256
