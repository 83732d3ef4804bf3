/-! # The SHA-256 digest

* **`sha256`** — the digest of a list of bytes: 32 bytes.
* **`hexDigest`** — bytes as pairs of lower-case hexadecimal digits.

The message is padded to whole blocks of 64 bytes: a byte `0x80`, zeros, and the number of bits as a
word of 64 bits, most significant byte first. Each block is mixed into eight words of 32 bits.
-/

namespace AliasReport.Digest

/-- The words that the digest starts from. -/
def initialState : List UInt32 :=
  [0x6a09e667, 0xbb67ae85, 0x3c6ef372, 0xa54ff53a, 0x510e527f, 0x9b05688c, 0x1f83d9ab, 0x5be0cd19]

/-- The words that are added in the rounds. -/
def roundConstants : List UInt32 :=
  [0x428a2f98, 0x71374491, 0xb5c0fbcf, 0xe9b5dba5, 0x3956c25b, 0x59f111f1, 0x923f82a4, 0xab1c5ed5,
   0xd807aa98, 0x12835b01, 0x243185be, 0x550c7dc3, 0x72be5d74, 0x80deb1fe, 0x9bdc06a7, 0xc19bf174,
   0xe49b69c1, 0xefbe4786, 0x0fc19dc6, 0x240ca1cc, 0x2de92c6f, 0x4a7484aa, 0x5cb0a9dc, 0x76f988da,
   0x983e5152, 0xa831c66d, 0xb00327c8, 0xbf597fc7, 0xc6e00bf3, 0xd5a79147, 0x06ca6351, 0x14292967,
   0x27b70a85, 0x2e1b2138, 0x4d2c6dfc, 0x53380d13, 0x650a7354, 0x766a0abb, 0x81c2c92e, 0x92722c85,
   0xa2bfe8a1, 0xa81a664b, 0xc24b8b70, 0xc76c51a3, 0xd192e819, 0xd6990624, 0xf40e3585, 0x106aa070,
   0x19a4c116, 0x1e376c08, 0x2748774c, 0x34b0bcb5, 0x391c0cb3, 0x4ed8aa4a, 0x5b9cca4f, 0x682e6ff3,
   0x748f82ee, 0x78a5636f, 0x84c87814, 0x8cc70208, 0x90befffa, 0xa4506ceb, 0xbef9a3f7, 0xc67178f2]

/-! ## Words -/

/-- A word with its bits moved around to the right. -/
def rotate (x : UInt32) (count : UInt32) : UInt32 :=
  (x >>> count) ||| (x <<< (32 - count))

/-- The word of four bytes, most significant first. -/
def word (a b c d : UInt8) : UInt32 :=
  (a.toUInt32 <<< 24) ||| (b.toUInt32 <<< 16) ||| (c.toUInt32 <<< 8) ||| d.toUInt32

/-- The words of bytes, four at a time. -/
def words : List UInt8 → List UInt32
  | a :: b :: c :: d :: rest => word a b c d :: words rest
  | _ => []

/-- The bytes of a word, most significant first. -/
def bytes (x : UInt32) : List UInt8 :=
  [(x >>> 24).toUInt8, (x >>> 16).toUInt8, (x >>> 8).toUInt8, x.toUInt8]

/-- The bytes of a number as a word of 64 bits, most significant first. -/
def lengthBytes (n : Nat) : List UInt8 :=
  bytes (UInt32.ofNat (n / UInt32.size)) ++ bytes (UInt32.ofNat n)

/-! ## Blocks -/

/-- A message padded to whole blocks. -/
def pad (message : List UInt8) : List UInt8 :=
  let zeros := (119 - message.length % 64) % 64
  message ++ 0x80 :: List.replicate zeros 0 ++ lengthBytes (8 * message.length)

/-- A word of a block's schedule from the words 16, 15, 7 and 2 places before it. -/
def scheduleWord (w16 w15 w7 w2 : UInt32) : UInt32 :=
  let s0 := rotate w15 7 ^^^ rotate w15 18 ^^^ (w15 >>> 3)
  let s1 := rotate w2 17 ^^^ rotate w2 19 ^^^ (w2 >>> 10)
  w16 + s0 + w7 + s1

/-- Continues a schedule by some words. `recent` holds the last sixteen words, the latest last. -/
def extendSchedule : (count : Nat) → (recent : List UInt32) → List UInt32
  | 0, _ => []
  | count + 1, recent =>
    let w := scheduleWord (recent.getD 0 0) (recent.getD 1 0) (recent.getD 9 0) (recent.getD 14 0)
    w :: extendSchedule count (recent.drop 1 ++ [w])

/-- The 64 words that a block of sixteen words is mixed in as. -/
def schedule (block : List UInt32) : List UInt32 :=
  block ++ extendSchedule 48 block

/-- The eight words that the rounds work on. -/
structure Working where
  a : UInt32
  b : UInt32
  c : UInt32
  d : UInt32
  e : UInt32
  f : UInt32
  g : UInt32
  h : UInt32
deriving DecidableEq, Repr

namespace Working

/-- The words of a list of eight. -/
def ofList : List UInt32 → Working
  | [a, b, c, d, e, f, g, h] => ⟨a, b, c, d, e, f, g, h⟩
  | _ => ⟨0, 0, 0, 0, 0, 0, 0, 0⟩

/-- The list of the words. -/
def toList (s : Working) : List UInt32 :=
  [s.a, s.b, s.c, s.d, s.e, s.f, s.g, s.h]

/-- One round, with the constant and the schedule word of the round. -/
def round (s : Working) (kw : UInt32 × UInt32) : Working :=
  let s1 := rotate s.e 6 ^^^ rotate s.e 11 ^^^ rotate s.e 25
  let choice := (s.e &&& s.f) ^^^ (~~~s.e &&& s.g)
  let t1 := s.h + s1 + choice + kw.1 + kw.2
  let s0 := rotate s.a 2 ^^^ rotate s.a 13 ^^^ rotate s.a 22
  let majority := (s.a &&& s.b) ^^^ (s.a &&& s.c) ^^^ (s.b &&& s.c)
  ⟨t1 + s0 + majority, s.a, s.b, s.c, s.d + t1, s.e, s.f, s.g⟩

end Working

/-- Mixes a block of sixteen words into the state. -/
def mix (state : List UInt32) (block : List UInt32) : List UInt32 :=
  let mixed := (roundConstants.zip (schedule block)).foldl Working.round (.ofList state)
  List.zipWith (· + ·) state mixed.toList

/-- Mixes words into the state, sixteen at a time; `count` is the number of blocks. -/
def mixAll : (count : Nat) → (state : List UInt32) → List UInt32 → List UInt32
  | 0, state, _ => state
  | count + 1, state, ws => mixAll count (mix state (ws.take 16)) (ws.drop 16)

/-- The digest of a message. -/
def sha256 (message : List UInt8) : List UInt8 :=
  let ws := words (pad message)
  (mixAll (ws.length / 16) initialState ws).flatMap bytes

/-! ## Text -/

/-- A byte as two lower-case hexadecimal digits. -/
def hexByte (b : UInt8) : List Char :=
  [Nat.digitChar (b.toNat / 16), Nat.digitChar (b.toNat % 16)]

/-- Bytes as pairs of lower-case hexadecimal digits. -/
def hexDigest (bs : List UInt8) : String :=
  String.ofList (bs.flatMap hexByte)

end AliasReport.Digest
