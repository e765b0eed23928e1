import RecordQuery.Text.Hexadecimal

namespace RecordQuery.Digest.Sha256

/-- The eight words that a digest is computed in. -/
structure Words where
  a : UInt32
  b : UInt32
  c : UInt32
  d : UInt32
  e : UInt32
  f : UInt32
  g : UInt32
  h : UInt32
  deriving DecidableEq

/-- The first 32 bits of the fractions of the square roots of the first eight primes. -/
def initial : Words :=
  ⟨0x6a09e667, 0xbb67ae85, 0x3c6ef372, 0xa54ff53a, 0x510e527f, 0x9b05688c, 0x1f83d9ab, 0x5be0cd19⟩

/-- The first 32 bits of the fractions of the cube roots of the first 64 primes. -/
def constants : List UInt32 := [
  0x428a2f98, 0x71374491, 0xb5c0fbcf, 0xe9b5dba5, 0x3956c25b, 0x59f111f1, 0x923f82a4, 0xab1c5ed5,
  0xd807aa98, 0x12835b01, 0x243185be, 0x550c7dc3, 0x72be5d74, 0x80deb1fe, 0x9bdc06a7, 0xc19bf174,
  0xe49b69c1, 0xefbe4786, 0x0fc19dc6, 0x240ca1cc, 0x2de92c6f, 0x4a7484aa, 0x5cb0a9dc, 0x76f988da,
  0x983e5152, 0xa831c66d, 0xb00327c8, 0xbf597fc7, 0xc6e00bf3, 0xd5a79147, 0x06ca6351, 0x14292967,
  0x27b70a85, 0x2e1b2138, 0x4d2c6dfc, 0x53380d13, 0x650a7354, 0x766a0abb, 0x81c2c92e, 0x92722c85,
  0xa2bfe8a1, 0xa81a664b, 0xc24b8b70, 0xc76c51a3, 0xd192e819, 0xd6990624, 0xf40e3585, 0x106aa070,
  0x19a4c116, 0x1e376c08, 0x2748774c, 0x34b0bcb5, 0x391c0cb3, 0x4ed8aa4a, 0x5b9cca4f, 0x682e6ff3,
  0x748f82ee, 0x78a5636f, 0x84c87814, 0x8cc70208, 0x90befffa, 0xa4506ceb, 0xbef9a3f7, 0xc67178f2]

def rotate (x : UInt32) (n : UInt32) : UInt32 :=
  (x >>> n) ||| (x <<< (32 - n))

/-- The next word of the message schedule from the sixteen before it. -/
def nextWord (window : List UInt32) : UInt32 :=
  let low := window.getD 1 0
  let high := window.getD 14 0
  window.getD 0 0 + (rotate low 7 ^^^ rotate low 18 ^^^ (low >>> 3)) + window.getD 9 0 +
    (rotate high 17 ^^^ rotate high 19 ^^^ (high >>> 10))

/-- One round. The window holds the schedule words of this round and of the fifteen after it. -/
def round (state : Words × List UInt32) (constant : UInt32) : Words × List UInt32 :=
  let (w, window) := state
  let choice := (w.e &&& w.f) ^^^ ((~~~w.e) &&& w.g)
  let majority := (w.a &&& w.b) ^^^ (w.a &&& w.c) ^^^ (w.b &&& w.c)
  let t := w.h + (rotate w.e 6 ^^^ rotate w.e 11 ^^^ rotate w.e 25) + choice + constant +
    window.getD 0 0
  let u := (rotate w.a 2 ^^^ rotate w.a 13 ^^^ rotate w.a 22) + majority
  (⟨t + u, w.a, w.b, w.c, w.d + t, w.e, w.f, w.g⟩, window.tail ++ [nextWord window])

def compress (w : Words) (block : List UInt32) : Words :=
  let (v, _) := constants.foldl round (w, block)
  ⟨w.a + v.a, w.b + v.b, w.c + v.c, w.d + v.d, w.e + v.e, w.f + v.f, w.g + v.g, w.h + v.h⟩

/-- The big-endian bytes of a number. -/
def bytesOf (count n : Nat) : List UInt8 :=
  (List.range count).map fun i => UInt8.ofNat (n / Nat.pow 256 (count - 1 - i))

/-- A message behind which stand one set bit, as few zeros as fill the last block, and its length
in bits. -/
def padded (message : List UInt8) : List UInt8 :=
  message ++ 0x80 :: List.replicate ((119 - message.length % 64) % 64) 0 ++
    bytesOf 8 (8 * message.length)

/-- Words of four bytes each, the most significant one first. -/
def wordsOf : List UInt8 → List UInt32
  | a :: b :: c :: d :: rest =>
    UInt32.ofNat (((a.toNat * 256 + b.toNat) * 256 + c.toNat) * 256 + d.toNat) :: wordsOf rest
  | _ => []

/-- Compresses sixteen words after the other. -/
def absorb (w : Words) (words : List UInt32) : Words :=
  if words.length < 16 then w else absorb (compress w (words.take 16)) (words.drop 16)
termination_by words.length
decreasing_by simp only [List.length_drop]; omega

def digest (message : List UInt8) : List UInt8 :=
  let w := absorb initial (wordsOf (padded message))
  [w.a, w.b, w.c, w.d, w.e, w.f, w.g, w.h].flatMap fun x => bytesOf 4 x.toNat

/-- The digest of the UTF-8 encoding of a text, in hexadecimal digits. -/
def ofText (s : String) : String :=
  String.ofList ((digest s.toUTF8.toList).flatMap fun byte => Text.hexDigits 2 byte.toNat)

end RecordQuery.Digest.Sha256
