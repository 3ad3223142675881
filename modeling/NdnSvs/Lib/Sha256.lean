import Mathlib.Data.List.Basic
import NdnSvs.Lib.Tlv

/-! The SHA-256 hash function on lists of bytes. Words are natural numbers below `2 ^ 32`. -/

namespace NdnSvs.Lib.Sha256

open Tlv

def roundConstants : List Nat :=
  [0x428a2f98, 0x71374491, 0xb5c0fbcf, 0xe9b5dba5, 0x3956c25b, 0x59f111f1, 0x923f82a4, 0xab1c5ed5,
   0xd807aa98, 0x12835b01, 0x243185be, 0x550c7dc3, 0x72be5d74, 0x80deb1fe, 0x9bdc06a7, 0xc19bf174,
   0xe49b69c1, 0xefbe4786, 0x0fc19dc6, 0x240ca1cc, 0x2de92c6f, 0x4a7484aa, 0x5cb0a9dc, 0x76f988da,
   0x983e5152, 0xa831c66d, 0xb00327c8, 0xbf597fc7, 0xc6e00bf3, 0xd5a79147, 0x06ca6351, 0x14292967,
   0x27b70a85, 0x2e1b2138, 0x4d2c6dfc, 0x53380d13, 0x650a7354, 0x766a0abb, 0x81c2c92e, 0x92722c85,
   0xa2bfe8a1, 0xa81a664b, 0xc24b8b70, 0xc76c51a3, 0xd192e819, 0xd6990624, 0xf40e3585, 0x106aa070,
   0x19a4c116, 0x1e376c08, 0x2748774c, 0x34b0bcb5, 0x391c0cb3, 0x4ed8aa4a, 0x5b9cca4f, 0x682e6ff3,
   0x748f82ee, 0x78a5636f, 0x84c87814, 0x8cc70208, 0x90befffa, 0xa4506ceb, 0xbef9a3f7, 0xc67178f2]

/-- The eight working words. -/
structure Words where
  a : Nat
  b : Nat
  c : Nat
  d : Nat
  e : Nat
  f : Nat
  g : Nat
  h : Nat

def initialWords : Words :=
  ⟨0x6a09e667, 0xbb67ae85, 0x3c6ef372, 0xa54ff53a, 0x510e527f, 0x9b05688c, 0x1f83d9ab, 0x5be0cd19⟩

def word (n : Nat) : Nat := n % 0x100000000

def rotateRight (n x : Nat) : Nat := (x >>> n) ||| word (x <<< (32 - n))

/-- The next word of the message schedule, from the last sixteen, the latest first. -/
def scheduleWord (ws : List Nat) : Nat :=
  let w2 := ws.getD 1 0
  let w15 := ws.getD 14 0
  let s0 := rotateRight 7 w15 ^^^ rotateRight 18 w15 ^^^ (w15 >>> 3)
  let s1 := rotateRight 17 w2 ^^^ rotateRight 19 w2 ^^^ (w2 >>> 10)
  word (ws.getD 15 0 + s0 + ws.getD 6 0 + s1)

/-- The message schedule, the latest word first. -/
def schedule : Nat → List Nat → List Nat
  | 0, ws => ws
  | n + 1, ws => schedule n (scheduleWord ws :: ws)

def round (v : Words) (k w : Nat) : Words :=
  let s1 := rotateRight 6 v.e ^^^ rotateRight 11 v.e ^^^ rotateRight 25 v.e
  let ch := (v.e &&& v.f) ^^^ ((v.e ^^^ 0xffffffff) &&& v.g)
  let t1 := v.h + s1 + ch + k + w
  let s0 := rotateRight 2 v.a ^^^ rotateRight 13 v.a ^^^ rotateRight 22 v.a
  let maj := (v.a &&& v.b) ^^^ (v.a &&& v.c) ^^^ (v.b &&& v.c)
  ⟨word (t1 + s0 + maj), v.a, v.b, v.c, word (v.d + t1), v.e, v.f, v.g⟩

def rounds : Words → List Nat → List Nat → Words
  | v, k :: ks, w :: ws => rounds (round v k w) ks ws
  | v, _, _ => v

def compress (v : Words) (block : List Nat) : Words :=
  let v' := rounds v roundConstants (schedule 48 block.reverse).reverse
  ⟨word (v.a + v'.a), word (v.b + v'.b), word (v.c + v'.c), word (v.d + v'.d),
    word (v.e + v'.e), word (v.f + v'.f), word (v.g + v'.g), word (v.h + v'.h)⟩

/-- The message with its padding: a one bit, zeros, and its length in bits. -/
def pad (bs : Bytes) : Bytes :=
  bs ++ 0x80 :: List.replicate ((119 - bs.length % 64) % 64) 0 ++ bigEndian 8 (8 * bs.length)

/-- The 32-bit words of the bytes. The first argument bounds their number. -/
def toWords : Nat → Bytes → List Nat
  | 0, _ => []
  | n + 1, bs => ofBigEndian (bs.take 4) :: toWords n (bs.drop 4)

/-- The words after the given number of blocks. -/
def digestWords : Nat → Words → Bytes → Words
  | 0, v, _ => v
  | n + 1, v, bs => digestWords n (compress v (toWords 16 (bs.take 64))) (bs.drop 64)

def Words.bytes (v : Words) : Bytes :=
  [v.a, v.b, v.c, v.d, v.e, v.f, v.g, v.h].flatMap (bigEndian 4)

def sha256 (bs : Bytes) : Bytes :=
  let padded := pad bs
  (digestWords (padded.length / 64) initialWords padded).bytes

theorem sha256_length (bs : Bytes) : (sha256 bs).length = 32 := by
  simp [sha256, Words.bytes]

example : sha256 [] =
    bigEndian 32 0xe3b0c44298fc1c149afbf4c8996fb92427ae41e4649b934ca495991b7852b855 := by
  decide +kernel

end NdnSvs.Lib.Sha256
