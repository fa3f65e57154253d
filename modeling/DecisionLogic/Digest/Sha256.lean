import DecisionLogic.Text.Hexadecimal

/-!
# SHA-256

The 256-bit secure hash: the message is padded to blocks of sixteen words, and each block is mixed
into eight words of state in 64 rounds.
-/

namespace DecisionLogic.Digest

def roundConstants : List UInt32 := [
  0x428a2f98, 0x71374491, 0xb5c0fbcf, 0xe9b5dba5, 0x3956c25b, 0x59f111f1, 0x923f82a4, 0xab1c5ed5,
  0xd807aa98, 0x12835b01, 0x243185be, 0x550c7dc3, 0x72be5d74, 0x80deb1fe, 0x9bdc06a7, 0xc19bf174,
  0xe49b69c1, 0xefbe4786, 0x0fc19dc6, 0x240ca1cc, 0x2de92c6f, 0x4a7484aa, 0x5cb0a9dc, 0x76f988da,
  0x983e5152, 0xa831c66d, 0xb00327c8, 0xbf597fc7, 0xc6e00bf3, 0xd5a79147, 0x06ca6351, 0x14292967,
  0x27b70a85, 0x2e1b2138, 0x4d2c6dfc, 0x53380d13, 0x650a7354, 0x766a0abb, 0x81c2c92e, 0x92722c85,
  0xa2bfe8a1, 0xa81a664b, 0xc24b8b70, 0xc76c51a3, 0xd192e819, 0xd6990624, 0xf40e3585, 0x106aa070,
  0x19a4c116, 0x1e376c08, 0x2748774c, 0x34b0bcb5, 0x391c0cb3, 0x4ed8aa4a, 0x5b9cca4f, 0x682e6ff3,
  0x748f82ee, 0x78a5636f, 0x84c87814, 0x8cc70208, 0x90befffa, 0xa4506ceb, 0xbef9a3f7, 0xc67178f2]

structure State where
  a : UInt32
  b : UInt32
  c : UInt32
  d : UInt32
  e : UInt32
  f : UInt32
  g : UInt32
  h : UInt32

namespace State

def initial : State :=
  ⟨0x6a09e667, 0xbb67ae85, 0x3c6ef372, 0xa54ff53a, 0x510e527f, 0x9b05688c, 0x1f83d9ab, 0x5be0cd19⟩

def rotate (x : UInt32) (n : UInt32) : UInt32 :=
  (x >>> n) ||| (x <<< (32 - n))

def step (s : State) (constant word : UInt32) : State :=
  let sum1 := rotate s.e 6 ^^^ rotate s.e 11 ^^^ rotate s.e 25
  let choice := (s.e &&& s.f) ^^^ ((s.e ^^^ 0xffffffff) &&& s.g)
  let first := s.h + sum1 + choice + constant + word
  let sum0 := rotate s.a 2 ^^^ rotate s.a 13 ^^^ rotate s.a 22
  let majority := (s.a &&& s.b) ^^^ (s.a &&& s.c) ^^^ (s.b &&& s.c)
  ⟨first + (sum0 + majority), s.a, s.b, s.c, s.d + first, s.e, s.f, s.g⟩

def add (s t : State) : State :=
  ⟨s.a + t.a, s.b + t.b, s.c + t.c, s.d + t.d, s.e + t.e, s.f + t.f, s.g + t.g, s.h + t.h⟩

def words (s : State) : List UInt32 :=
  [s.a, s.b, s.c, s.d, s.e, s.f, s.g, s.h]

end State

def nextWord (window : Array UInt32) : UInt32 :=
  let w15 := window.getD 1 0
  let w2 := window.getD 14 0
  let small0 := State.rotate w15 7 ^^^ State.rotate w15 18 ^^^ (w15 >>> 3)
  let small1 := State.rotate w2 17 ^^^ State.rotate w2 19 ^^^ (w2 >>> 10)
  window.getD 0 0 + small0 + window.getD 9 0 + small1

/-- Sixty-four rounds; the window slides over the schedule, its first word being the round's. -/
def mix : List UInt32 → Array UInt32 → State → State
  | [], _, s => s
  | constant :: rest, window, s =>
      mix rest ((window.eraseIdxIfInBounds 0).push (nextWord window))
        (s.step constant (window.getD 0 0))

def absorb (s : State) (block : List UInt32) : State :=
  s.add (mix roundConstants block.toArray s)

/-- The bytes followed by a set bit, zeros, and the length in bits as 64 bits, in whole blocks. -/
def padded (bytes : List UInt8) : List UInt8 :=
  let bits := 8 * bytes.length
  let zeros := (119 - bytes.length % 64) % 64
  let length := (List.range 8).map fun i => (bits >>> (8 * (7 - i))).toUInt8
  bytes ++ 0x80 :: List.replicate zeros 0 ++ length

def wordsOf : List UInt8 → List UInt32
  | a :: b :: c :: d :: rest =>
      ((a.toUInt32 <<< 24) ||| (b.toUInt32 <<< 16) ||| (c.toUInt32 <<< 8) ||| d.toUInt32) ::
        wordsOf rest
  | _ => []

def absorbBlocks : Nat → State → List UInt32 → State
  | 0, s, _ => s
  | count + 1, s, words => absorbBlocks count (absorb s (words.take 16)) (words.drop 16)

def sha256 (text : String) : String :=
  let words := wordsOf (padded text.toUTF8.toList)
  let final := absorbBlocks (words.length / 16) State.initial words
  String.ofList (final.words.flatMap fun word => Text.hexDigits 8 word.toNat)

end DecisionLogic.Digest
