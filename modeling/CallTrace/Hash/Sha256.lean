/-!
# SHA-256

A hasher takes bytes one at a time, so what is hashed in pieces has the digest
of the pieces joined. Full blocks of 64 bytes are folded into a chain of eight
words; a digest pads what is left over with a mark, zeros and the length of
the whole in bits.
-/

namespace CallTrace.Sha256

/-- The eight words that stand for the blocks hashed so far. -/
structure Chain where
  (a b c d e f g h : UInt32)
  deriving DecidableEq

/-- The chain before the first block. -/
def Chain.initial : Chain :=
  ⟨0x6a09e667, 0xbb67ae85, 0x3c6ef372, 0xa54ff53a, 0x510e527f, 0x9b05688c, 0x1f83d9ab, 0x5be0cd19⟩

/-- The words of a chain in order. -/
def Chain.words (s : Chain) : List UInt32 := [s.a, s.b, s.c, s.d, s.e, s.f, s.g, s.h]

/-- One constant for each round. -/
def roundConstants : List UInt32 :=
  [ 0x428a2f98, 0x71374491, 0xb5c0fbcf, 0xe9b5dba5, 0x3956c25b, 0x59f111f1, 0x923f82a4, 0xab1c5ed5,
    0xd807aa98, 0x12835b01, 0x243185be, 0x550c7dc3, 0x72be5d74, 0x80deb1fe, 0x9bdc06a7, 0xc19bf174,
    0xe49b69c1, 0xefbe4786, 0x0fc19dc6, 0x240ca1cc, 0x2de92c6f, 0x4a7484aa, 0x5cb0a9dc, 0x76f988da,
    0x983e5152, 0xa831c66d, 0xb00327c8, 0xbf597fc7, 0xc6e00bf3, 0xd5a79147, 0x06ca6351, 0x14292967,
    0x27b70a85, 0x2e1b2138, 0x4d2c6dfc, 0x53380d13, 0x650a7354, 0x766a0abb, 0x81c2c92e, 0x92722c85,
    0xa2bfe8a1, 0xa81a664b, 0xc24b8b70, 0xc76c51a3, 0xd192e819, 0xd6990624, 0xf40e3585, 0x106aa070,
    0x19a4c116, 0x1e376c08, 0x2748774c, 0x34b0bcb5, 0x391c0cb3, 0x4ed8aa4a, 0x5b9cca4f, 0x682e6ff3,
    0x748f82ee, 0x78a5636f, 0x84c87814, 0x8cc70208, 0x90befffa, 0xa4506ceb, 0xbef9a3f7, 0xc67178f2 ]

/-- A word turned to the right. -/
def rotate (w : UInt32) (n : UInt32) : UInt32 := (w >>> n) ||| (w <<< (32 - n))

/-- The word sixteen places behind the first of a window of sixteen. -/
def nextWord (window : List UInt32) : UInt32 :=
  let w0 := window.getD 0 0
  let w1 := window.getD 1 0
  let w9 := window.getD 9 0
  let w14 := window.getD 14 0
  let s0 := rotate w1 7 ^^^ rotate w1 18 ^^^ (w1 >>> 3)
  let s1 := rotate w14 17 ^^^ rotate w14 19 ^^^ (w14 >>> 10)
  w0 + s0 + w9 + s1

/-- One round, with its constant and its word. -/
def Chain.round (s : Chain) (constant word : UInt32) : Chain :=
  let e1 := rotate s.e 6 ^^^ rotate s.e 11 ^^^ rotate s.e 25
  let choice := (s.e &&& s.f) ^^^ (s.e.complement &&& s.g)
  let t1 := s.h + e1 + choice + constant + word
  let a0 := rotate s.a 2 ^^^ rotate s.a 13 ^^^ rotate s.a 22
  let majority := (s.a &&& s.b) ^^^ (s.a &&& s.c) ^^^ (s.b &&& s.c)
  ⟨t1 + a0 + majority, s.a, s.b, s.c, s.d + t1, s.e, s.f, s.g⟩

/-- The rounds for the given constants, over the window of words that come next. -/
def rounds : List UInt32 → List UInt32 → Chain → Chain
  | [], _, s => s
  | constant :: constants, window, s =>
    rounds constants (window.drop 1 ++ [nextWord window]) (s.round constant (window.getD 0 0))

/-- The sum of two chains, word by word. -/
def Chain.add (s t : Chain) : Chain :=
  ⟨s.a + t.a, s.b + t.b, s.c + t.c, s.d + t.d, s.e + t.e, s.f + t.f, s.g + t.g, s.h + t.h⟩

/-- Bytes as words of four, the first byte highest. -/
def wordsOfBytes : List UInt8 → List UInt32
  | a :: b :: c :: d :: rest =>
    ((a.toUInt32 <<< 24) ||| (b.toUInt32 <<< 16) ||| (c.toUInt32 <<< 8) ||| d.toUInt32) ::
      wordsOfBytes rest
  | _ => []

/-- The chain after one more block. -/
def Chain.compress (s : Chain) (block : List UInt8) : Chain :=
  s.add (rounds roundConstants (wordsOfBytes block) s)

/-- What has been hashed so far. -/
structure Hasher where
  /-- The full blocks. -/
  chain : Chain := .initial
  /-- The bytes since the last full block, the latest first. -/
  pending : List UInt8 := []
  /-- How many bytes there were in all. -/
  count : Nat := 0
  deriving DecidableEq

/-- One more byte. -/
def Hasher.push (s : Hasher) (b : UInt8) : Hasher :=
  if s.pending.length = 63 then ⟨s.chain.compress (b :: s.pending).reverse, [], s.count + 1⟩
  else ⟨s.chain, b :: s.pending, s.count + 1⟩

/-- More bytes. -/
def Hasher.update (s : Hasher) (bytes : List UInt8) : Hasher := bytes.foldl Hasher.push s

theorem Hasher.update_append (s : Hasher) (xs ys : List UInt8) :
    s.update (xs ++ ys) = (s.update xs).update ys := by
  simp [update, List.foldl_append]

/-- A number as the given count of bytes, the highest first. -/
def bigEndian : (size : Nat) → Nat → List UInt8
  | 0, _ => []
  | size + 1, n => UInt8.ofNat (n / 256 ^ size) :: bigEndian size n

/-- What fills up the last block: a mark, zeros, and the number of bits hashed. -/
def padding (count : Nat) : List UInt8 :=
  0x80 :: List.replicate ((119 - count % 64) % 64) 0 ++ bigEndian 8 (8 * count % UInt64.size)

/-- The 32 bytes that stand for all that was hashed. -/
def Hasher.digest (s : Hasher) : List UInt8 :=
  (s.update (padding s.count)).chain.words.flatMap fun w => bigEndian 4 w.toNat

/-- Two lowercase digits for each byte. -/
def hexText (bytes : List UInt8) : String :=
  String.ofList (bytes.flatMap fun b =>
    [Nat.digitChar (b.toNat / 16), Nat.digitChar (b.toNat % 16)])

/-- The digest as text, behind the name of the hash. -/
def Hasher.label (s : Hasher) : String := "sha256:" ++ hexText s.digest

/-- The label of a run of bytes. -/
def label (bytes : List UInt8) : String := (({} : Hasher).update bytes).label

end CallTrace.Sha256
