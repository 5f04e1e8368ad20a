import Mathlib.Data.List.Basic

/-!
# SHA-256

The message is padded to whole blocks of 64 bytes. Each block is spread over a
schedule of 64 words and mixed into eight registers, whose bytes at the end
are the hash.
-/

namespace DriverBus.Foundations.Sha256

/-- The fractional parts of the cube roots of the first 64 primes. -/
def roundConstants : List UInt32 :=
  [0x428a2f98, 0x71374491, 0xb5c0fbcf, 0xe9b5dba5, 0x3956c25b, 0x59f111f1, 0x923f82a4,
    0xab1c5ed5, 0xd807aa98, 0x12835b01, 0x243185be, 0x550c7dc3, 0x72be5d74, 0x80deb1fe,
    0x9bdc06a7, 0xc19bf174, 0xe49b69c1, 0xefbe4786, 0x0fc19dc6, 0x240ca1cc, 0x2de92c6f,
    0x4a7484aa, 0x5cb0a9dc, 0x76f988da, 0x983e5152, 0xa831c66d, 0xb00327c8, 0xbf597fc7,
    0xc6e00bf3, 0xd5a79147, 0x06ca6351, 0x14292967, 0x27b70a85, 0x2e1b2138, 0x4d2c6dfc,
    0x53380d13, 0x650a7354, 0x766a0abb, 0x81c2c92e, 0x92722c85, 0xa2bfe8a1, 0xa81a664b,
    0xc24b8b70, 0xc76c51a3, 0xd192e819, 0xd6990624, 0xf40e3585, 0x106aa070, 0x19a4c116,
    0x1e376c08, 0x2748774c, 0x34b0bcb5, 0x391c0cb3, 0x4ed8aa4a, 0x5b9cca4f, 0x682e6ff3,
    0x748f82ee, 0x78a5636f, 0x84c87814, 0x8cc70208, 0x90befffa, 0xa4506ceb, 0xbef9a3f7,
    0xc67178f2]

/-- The registers `a` to `h`. -/
structure Registers where
  a : UInt32
  b : UInt32
  c : UInt32
  d : UInt32
  e : UInt32
  f : UInt32
  g : UInt32
  h : UInt32

/-- The fractional parts of the square roots of the first eight primes. -/
def Registers.initial : Registers :=
  ⟨0x6a09e667, 0xbb67ae85, 0x3c6ef372, 0xa54ff53a, 0x510e527f, 0x9b05688c,
    0x1f83d9ab, 0x5be0cd19⟩

def rotateRight (x n : UInt32) : UInt32 := x >>> n ||| x <<< (32 - n)

def Registers.round (r : Registers) (constant word : UInt32) : Registers :=
  let sum1 := rotateRight r.e 6 ^^^ rotateRight r.e 11 ^^^ rotateRight r.e 25
  let choice := (r.e &&& r.f) ^^^ (~~~r.e &&& r.g)
  let t1 := r.h + sum1 + choice + constant + word
  let sum0 := rotateRight r.a 2 ^^^ rotateRight r.a 13 ^^^ rotateRight r.a 22
  let majority := (r.a &&& r.b) ^^^ (r.a &&& r.c) ^^^ (r.b &&& r.c)
  ⟨t1 + (sum0 + majority), r.a, r.b, r.c, r.d + t1, r.e, r.f, r.g⟩

def Registers.add (r s : Registers) : Registers :=
  ⟨r.a + s.a, r.b + s.b, r.c + s.c, r.d + s.d, r.e + s.e, r.f + s.f, r.g + s.g, r.h + s.h⟩

def bytesOfWord (w : UInt32) : List UInt8 :=
  [(w >>> 24).toUInt8, (w >>> 16).toUInt8, (w >>> 8).toUInt8, w.toUInt8]

def wordsOf : List UInt8 → List UInt32
  | a :: b :: c :: d :: rest =>
    (a.toUInt32 <<< 24 ||| b.toUInt32 <<< 16 ||| c.toUInt32 <<< 8 ||| d.toUInt32) :: wordsOf rest
  | _ => []

/-- `n` more words of the schedule in front of those already there, the newest first. -/
def extend : ℕ → List UInt32 → List UInt32
  | 0, words => words
  | n + 1, words =>
    let w2 := words.getD 1 0
    let w15 := words.getD 14 0
    let sigma1 := rotateRight w2 17 ^^^ rotateRight w2 19 ^^^ w2 >>> 10
    let sigma0 := rotateRight w15 7 ^^^ rotateRight w15 18 ^^^ w15 >>> 3
    extend n ((sigma1 + words.getD 6 0 + sigma0 + words.getD 15 0) :: words)

def schedule (block : List UInt8) : List UInt32 := (extend 48 (wordsOf block).reverse).reverse

def compress (r : Registers) (block : List UInt8) : Registers :=
  r.add ((roundConstants.zip (schedule block)).foldl (fun s (k, w) => s.round k w) r)

/-- A one bit, zeros up to a whole block, and the length in bits. -/
def pad (message : List UInt8) : List UInt8 :=
  let bits := UInt64.ofNat (8 * message.length)
  message ++ (0x80 : UInt8) :: List.replicate ((119 - message.length % 64) % 64) 0 ++
    (bytesOfWord (bits >>> 32).toUInt32 ++ bytesOfWord bits.toUInt32)

def blocksOf (message : List UInt8) : List (List UInt8) :=
  (List.range (message.length / 64)).map fun i => (message.drop (64 * i)).take 64

def Registers.bytes (r : Registers) : List UInt8 :=
  [r.a, r.b, r.c, r.d, r.e, r.f, r.g, r.h].flatMap bytesOfWord

def hash (message : List UInt8) : List UInt8 :=
  ((blocksOf (pad message)).foldl compress .initial).bytes

@[simp] theorem length_hash (message : List UInt8) : (hash message).length = 32 := rfl

/-- The hash of "abc" begins as the standard says. -/
example : (hash [0x61, 0x62, 0x63]).take 4 = [0xba, 0x78, 0x16, 0xbf] := by decide +kernel

end DriverBus.Foundations.Sha256
