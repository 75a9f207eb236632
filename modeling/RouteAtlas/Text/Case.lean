/-
  Case of letters, and comparison of texts that ignores it.

  `lower` and `upper` follow Unicode's full case mapping.  Capitalising may lengthen a text (`ß`
  becomes `SS`); lowering does so for one letter only, the dotted capital I, and depends on what
  stands around the letter for one letter only, the capital sigma, which becomes `ς` at the end of
  a word and `σ` elsewhere.

  Patterns that ignore case compare letters one by one instead: `sameLetter` holds of two
  characters with the same small letter, and of the few further pairs that Unicode regards as
  variants of each other (the dotless i, the long s, the letter variants of Greek and Cyrillic).
-/
import RouteAtlas.Text.Blank
import RouteAtlas.Text.CaseTable

namespace RouteAtlas.Text

/-- The image of `n` under the first shift that moves it. -/
def shifted (table : List Shift) (n : Nat) : Option Nat := table.findSome? (·.apply n)

/-- The small form of a single letter, whatever stands around it. -/
def smallLetter (c : Char) : Char :=
  if c.toNat < 128 then c.toLower
  else match shifted smallShifts c.toNat with
    | some n => Char.ofNat n
    | none => c

/-- The capital form of a letter, which may be several letters. -/
def capitalLetters (c : Char) : List Char :=
  if c.toNat < 128 then [c.toUpper]
  else match wideCapitals.lookup c.toNat with
    | some wide => wide.map Char.ofNat
    | none => match shifted capitalShifts c.toNat with
      | some n => [Char.ofNat n]
      | none => [c]

/-- The first character of `cs` that is not passed over when a word's end is sought is cased. -/
def meetsCased (cs : List Char) : Bool :=
  match cs.dropWhile fun c => inBlocks ignorableBlocks c.toNat with
  | [] => false
  | c :: _ => inBlocks casedBlocks c.toNat

/-- Lowers a text whose beginning, read backwards, is `before`. -/
def lowerFrom (before : List Char) : List Char → List Char
  | [] => []
  | c :: cs =>
    (if c = 'Σ' then (if meetsCased before && !meetsCased cs then ['ς'] else ['σ'])
     else if c = 'İ' then ['i', '\u0307']
     else [smallLetter c]) ++ lowerFrom (c :: before) cs

/-- The text in small letters. -/
def lowerChars (cs : List Char) : List Char := lowerFrom [] cs

/-- The text in capitals. -/
def upperChars (cs : List Char) : List Char := cs.flatMap capitalLetters

/-- The text in small letters. -/
def lower (s : String) : String := String.ofList (lowerChars s.toList)

/-- The text in capitals. -/
def upper (s : String) : String := String.ofList (upperChars s.toList)

/-! ## Letters that count as one when case is ignored -/

/-- Small letters that are variants of another one, with the one that stands for the class. -/
def letterVariants : List (Nat × Nat) :=
  [(0x131, 0x69), (0x17F, 0x73), (0x3BC, 0xB5), (0x3B9, 0x345), (0x1FBE, 0x345), (0x1FD3, 0x390),
   (0x1FE3, 0x3B0), (0x3D0, 0x3B2), (0x3F5, 0x3B5), (0x3D1, 0x3B8), (0x3F0, 0x3BA), (0x3D6, 0x3C0),
   (0x3F1, 0x3C1), (0x3C3, 0x3C2), (0x3D5, 0x3C6), (0x1C80, 0x432), (0x1C81, 0x434),
   (0x1C82, 0x43E), (0x1C83, 0x441), (0x1C84, 0x442), (0x1C85, 0x442), (0x1C86, 0x44A),
   (0x1C87, 0x463), (0xA64B, 0x1C88), (0x1E9B, 0x1E61), (0xFB06, 0xFB05)]

/-- The code point that stands for all letters equal to `c` but for case. -/
def letterClass (c : Char) : Nat :=
  let small := (smallLetter c).toNat
  (letterVariants.lookup small).getD small

/-- Equal but for case. -/
def sameLetter (a b : Char) : Bool := letterClass a == letterClass b

/-- What follows `word` in `cs` when `cs` begins with it, case ignored. -/
def afterWord? : (word cs : List Char) → Option (List Char)
  | [], cs => some cs
  | _ :: _, [] => none
  | w :: word, c :: cs => if sameLetter w c then afterWord? word cs else none

/-- Does `word` occur in `cs`, case ignored? -/
def hasWord (word : List Char) : List Char → Bool
  | [] => (afterWord? word []).isSome
  | c :: cs => (afterWord? word (c :: cs)).isSome || hasWord word cs

/-! ## ASCII classes -/

/-- Letters, digits and the underscore, ASCII only: the characters of a placeholder's name. -/
def isNameChar (c : Char) : Bool := c.isAlphanum || c == '_'

/-- A name character, or a letter equal to one but for case. -/
def isNameCharAnyCase (c : Char) : Bool := isNameChar c || c == 'İ' || c == 'ı' || c == 'ſ' || c == '\u212A'

/-- An ASCII letter, or a letter equal to one but for case. -/
def isLatinAnyCase (c : Char) : Bool := c.isAlpha || c == 'İ' || c == 'ı' || c == 'ſ' || c == '\u212A'

/-- A small ASCII letter or a digit. -/
def isSmallAlphanum (c : Char) : Bool := c.isLower || c.isDigit

/-! ## Digits -/

/-- The value of a decimal digit of any script. -/
def digitValue? (c : Char) : Option Nat :=
  if c.toNat < 128 then (if c.isDigit then some (c.toNat - 48) else none)
  else digitZeros.findSome? fun first =>
    if first ≤ c.toNat ∧ c.toNat < first + 10 then some (c.toNat - first) else none

end RouteAtlas.Text
