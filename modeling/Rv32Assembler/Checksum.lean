import Rv32Assembler.Text.Basic
/-!
# Checksums

The SHA-256 digest of a sequence of bytes.
-/

namespace Rv32Assembler.Checksum

def constants : List (BitVec 32) :=
  [0x428a2f98, 0x71374491, 0xb5c0fbcf, 0xe9b5dba5, 0x3956c25b, 0x59f111f1, 0x923f82a4, 0xab1c5ed5,
   0xd807aa98, 0x12835b01, 0x243185be, 0x550c7dc3, 0x72be5d74, 0x80deb1fe, 0x9bdc06a7, 0xc19bf174,
   0xe49b69c1, 0xefbe4786, 0x0fc19dc6, 0x240ca1cc, 0x2de92c6f, 0x4a7484aa, 0x5cb0a9dc, 0x76f988da,
   0x983e5152, 0xa831c66d, 0xb00327c8, 0xbf597fc7, 0xc6e00bf3, 0xd5a79147, 0x06ca6351, 0x14292967,
   0x27b70a85, 0x2e1b2138, 0x4d2c6dfc, 0x53380d13, 0x650a7354, 0x766a0abb, 0x81c2c92e, 0x92722c85,
   0xa2bfe8a1, 0xa81a664b, 0xc24b8b70, 0xc76c51a3, 0xd192e819, 0xd6990624, 0xf40e3585, 0x106aa070,
   0x19a4c116, 0x1e376c08, 0x2748774c, 0x34b0bcb5, 0x391c0cb3, 0x4ed8aa4a, 0x5b9cca4f, 0x682e6ff3,
   0x748f82ee, 0x78a5636f, 0x84c87814, 0x8cc70208, 0x90befffa, 0xa4506ceb, 0xbef9a3f7, 0xc67178f2]

structure Digest where
  a : BitVec 32 := 0x6a09e667
  b : BitVec 32 := 0xbb67ae85
  c : BitVec 32 := 0x3c6ef372
  d : BitVec 32 := 0xa54ff53a
  e : BitVec 32 := 0x510e527f
  f : BitVec 32 := 0x9b05688c
  g : BitVec 32 := 0x1f83d9ab
  h : BitVec 32 := 0x5be0cd19
  deriving DecidableEq, Repr

namespace Digest

def words (x : Digest) : List (BitVec 32) := [x.a, x.b, x.c, x.d, x.e, x.f, x.g, x.h]

def add (x y : Digest) : Digest :=
  ⟨x.a + y.a, x.b + y.b, x.c + y.c, x.d + y.d, x.e + y.e, x.f + y.f, x.g + y.g, x.h + y.h⟩

def round (x : Digest) (k w : BitVec 32) : Digest :=
  let sum₁ := x.e.rotateRight 6 ^^^ x.e.rotateRight 11 ^^^ x.e.rotateRight 25
  let choice := (x.e &&& x.f) ^^^ (~~~x.e &&& x.g)
  let t₁ := x.h + sum₁ + choice + k + w
  let sum₀ := x.a.rotateRight 2 ^^^ x.a.rotateRight 13 ^^^ x.a.rotateRight 22
  let majority := (x.a &&& x.b) ^^^ (x.a &&& x.c) ^^^ (x.b &&& x.c)
  ⟨t₁ + (sum₀ + majority), x.a, x.b, x.c, x.d + t₁, x.e, x.f, x.g⟩

end Digest

/-- The number with the given bytes, highest first. -/
def bigEndian (bytes : List UInt8) : Nat := bytes.foldl (fun n b => n * 256 + b.toNat) 0

/-- The list cut into pieces of a positive length; a shorter rest is the last piece. -/
def pieces {α : Type} (n : Nat) (l : List α) : List (List α) :=
  match l with
  | [] => []
  | x :: rest => (x :: rest).take (max n 1) :: pieces n (rest.drop (n - 1))
termination_by l.length
decreasing_by simp only [List.length_drop, List.length_cons]; omega

/-- The message with its padding: a one bit, zeros, and the length in bits. -/
def padded (message : List UInt8) : List UInt8 :=
  let length := message.length
  let zeros := (119 - length % 64) % 64
  let lengthBytes := (List.range 8).map fun i => UInt8.ofNat ((8 * length) >>> (8 * (7 - i)))
  message ++ 0x80 :: List.replicate zeros 0 ++ lengthBytes

def schedule (window : List (BitVec 32)) : Nat → List (BitVec 32)
  | 0 => window
  | n + 1 =>
    match window with
    | [] => []
    | w :: rest =>
      let wordAt (i : Nat) : BitVec 32 := (w :: rest)[i]?.getD 0
      let low := wordAt 1
      let high := wordAt 14
      let sum₀ := low.rotateRight 7 ^^^ low.rotateRight 18 ^^^ (low >>> 3)
      let sum₁ := high.rotateRight 17 ^^^ high.rotateRight 19 ^^^ (high >>> 10)
      w :: schedule (rest ++ [w + sum₀ + wordAt 9 + sum₁]) n

/-- Takes in one block of 64 bytes. -/
def block (x : Digest) (bytes : List UInt8) : Digest :=
  let words := (pieces 4 bytes).map fun b => BitVec.ofNat 32 (bigEndian b)
  let scheduled := schedule words 48
  x.add ((constants.zip scheduled).foldl (fun y (k, w) => y.round k w) x)

def digest (message : List UInt8) : Digest := (pieces 64 (padded message)).foldl block {}

def render (message : List UInt8) : Text :=
  (digest message).words.flatMap fun w => Text.hexPadded 8 w.toNat

end Rv32Assembler.Checksum
