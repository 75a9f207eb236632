/-
  SHA-1, the digest that stable identifiers are made of.

  The message is padded to whole blocks of 64 bytes: a one bit, zeros, and the length in bits as the
  last eight bytes.  Every block is read as sixteen words, which are stretched to eighty; eighty
  rounds stir them into five words of state.  All arithmetic is on 32-bit words, where addition
  wraps.
-/

namespace RouteAtlas.Digest

/-- The five words that the rounds stir. -/
structure State where
  a : UInt32
  b : UInt32
  c : UInt32
  d : UInt32
  e : UInt32
  deriving DecidableEq, Repr, Inhabited

namespace State

/-- The state before the first block. -/
def initial : State := ⟨0x67452301, 0xEFCDAB89, 0x98BADCFE, 0x10325476, 0xC3D2E1F0⟩

/-- Word by word. -/
def add (s t : State) : State := ⟨s.a + t.a, s.b + t.b, s.c + t.c, s.d + t.d, s.e + t.e⟩

/-- The words in order. -/
def words (s : State) : List UInt32 := [s.a, s.b, s.c, s.d, s.e]

end State

/-- The word turned left by `n` bits. -/
def rotate (n : UInt32) (w : UInt32) : UInt32 := (w <<< n) ||| (w >>> (32 - n))

/-- The last `places` bytes of a number, high ones first. -/
def bytesOf : (places : Nat) → Nat → List UInt8
  | 0, _ => []
  | places + 1, n => bytesOf places (n / 256) ++ [UInt8.ofNat n]

/-- The message as whole blocks. -/
def padded (message : List UInt8) : List UInt8 :=
  let zeros := (119 - message.length % 64) % 64
  message ++ 0x80 :: List.replicate zeros 0 ++ bytesOf 8 (8 * message.length)

/-- Bytes as words, high bytes first. -/
def wordsOf : List UInt8 → List UInt32
  | b₀ :: b₁ :: b₂ :: b₃ :: rest =>
    ((b₀.toUInt32 <<< 24) ||| (b₁.toUInt32 <<< 16) ||| (b₂.toUInt32 <<< 8) ||| b₃.toUInt32)
      :: wordsOf rest
  | _ => []

/-- Goes on with the schedule for `count` words; `recent` holds the last sixteen, latest first. -/
def stretch : (count : Nat) → (recent : List UInt32) → List UInt32
  | 0, _ => []
  | count + 1, recent =>
    let word := rotate 1 (recent.getD 2 0 ^^^ recent.getD 7 0 ^^^ recent.getD 13 0 ^^^ recent.getD 15 0)
    word :: stretch count (word :: recent.take 15)

/-- The eighty words of a block. -/
def schedule (block : List UInt32) : List UInt32 := block ++ stretch 64 block.reverse

/-- What round `i` does with three words of the state, and its constant. -/
def mixing (i : Nat) (b c d : UInt32) : UInt32 × UInt32 :=
  if i < 20 then ((b &&& c) ||| (~~~b &&& d), 0x5A827999)
  else if i < 40 then (b ^^^ c ^^^ d, 0x6ED9EBA1)
  else if i < 60 then ((b &&& c) ||| (b &&& d) ||| (c &&& d), 0x8F1BBCDC)
  else (b ^^^ c ^^^ d, 0xCA62C1D6)

/-- One round. -/
def round (s : State) (i : Nat) (word : UInt32) : State :=
  let (mixed, constant) := mixing i s.b s.c s.d
  ⟨rotate 5 s.a + mixed + s.e + constant + word, s.a, rotate 30 s.b, s.c, s.d⟩

/-- The rounds of a block from round `i` on. -/
def rounds : (i : Nat) → State → List UInt32 → State
  | _, s, [] => s
  | i, s, word :: rest => rounds (i + 1) (round s i word) rest

/-- Stirs `count` blocks into the state. -/
def absorb : (count : Nat) → State → List UInt32 → State
  | 0, s, _ => s
  | count + 1, s, words => absorb count (s.add (rounds 0 s (schedule (words.take 16)))) (words.drop 16)

/-- The digest of a message. -/
def sha1 (message : List UInt8) : State :=
  let words := wordsOf (padded message)
  absorb (words.length / 16) .initial words

/-- A word in eight hexadecimal digits. -/
def hexWord (w : UInt32) : List Char :=
  [7, 6, 5, 4, 3, 2, 1, 0].map fun k => Nat.digitChar (w.toNat / Nat.pow 16 k % 16)

/-- The digest of a text's UTF-8 in hexadecimal digits. -/
def sha1Hex (text : String) : String :=
  String.ofList ((sha1 text.toUTF8.toList).words.flatMap hexWord)

end RouteAtlas.Digest
