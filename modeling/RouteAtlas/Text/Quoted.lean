/-
  Values shown in messages and labels.

  `quoted` shows a text as a literal: between single quotes, or between double quotes when it holds
  a single quote and no double one; the backslash, the quote in use and everything without a printed
  form are escaped.  `shown` writes a JSON value in the same notation, with `None`, `True` and
  `False` for the three constants; a text that stands alone is shown bare.
-/
import RouteAtlas.Json.Basic
import RouteAtlas.Text.Blank

namespace RouteAtlas.Text

/-- Characters without a printed form: controls, format marks, spaces other than the plain one,
    and the blocks for private use. -/
def unprintedBlocks : List (Nat × Nat) :=
  [(0x0, 0x1F), (0x7F, 0xA0), (0xAD, 0xAD), (0x600, 0x605), (0x61C, 0x61C), (0x6DD, 0x6DD),
   (0x70F, 0x70F), (0x890, 0x891), (0x8E2, 0x8E2), (0x1680, 0x1680), (0x180E, 0x180E),
   (0x2000, 0x200F), (0x2028, 0x202F), (0x205F, 0x2064), (0x2066, 0x206F), (0x3000, 0x3000),
   (0xE000, 0xF8FF), (0xFEFF, 0xFEFF), (0xFFF9, 0xFFFB), (0x110BD, 0x110BD), (0x110CD, 0x110CD),
   (0x13430, 0x13438), (0x1BCA0, 0x1BCA3), (0x1D173, 0x1D17A), (0xE0001, 0xE0001),
   (0xE0020, 0xE007F), (0xF0000, 0xFFFFD), (0x100000, 0x10FFFD)]

/-- The last `places` hexadecimal digits of a number, small letters. -/
def hexDigits : (places : Nat) → Nat → List Char
  | 0, _ => []
  | places + 1, n => hexDigits places (n / 16) ++ [Nat.digitChar (n % 16)]

/-- One character of a literal in the quotes `quote`. -/
def quoteChar (quote c : Char) : List Char :=
  if c == quote || c == '\\' then ['\\', c]
  else if c == '\n' then ['\\', 'n']
  else if c == '\r' then ['\\', 'r']
  else if c == '\t' then ['\\', 't']
  else if inBlocks unprintedBlocks c.toNat then
    if c.toNat < 0x100 then '\\' :: 'x' :: hexDigits 2 c.toNat
    else if c.toNat < 0x10000 then '\\' :: 'u' :: hexDigits 4 c.toNat
    else '\\' :: 'U' :: hexDigits 8 c.toNat
  else [c]

/-- A text as a literal. -/
def quoted (s : String) : String :=
  let single := "'".toList.headD ' '
  let quote := if s.toList.contains single && !s.toList.contains '"' then '"' else single
  String.ofList (quote :: s.toList.flatMap (quoteChar quote) ++ [quote])

end RouteAtlas.Text

namespace RouteAtlas.Json

mutual
/-- A value in literal notation. -/
def literalText : Json → String
  | .null => "None"
  | .bool true => "True"
  | .bool false => "False"
  | .int n => toString n
  | .float x => x.text
  | .str s => Text.quoted s
  | .arr items => "[" ++ String.intercalate ", " (literalTexts items) ++ "]"
  | .obj fields => "\x7b" ++ String.intercalate ", " (fieldTexts fields) ++ "\x7d"
/-- Values in literal notation. -/
def literalTexts : List Json → List String
  | [] => []
  | x :: xs => literalText x :: literalTexts xs
/-- Fields in literal notation. -/
def fieldTexts : List (String × Json) → List String
  | [] => []
  | (k, v) :: fs => (Text.quoted k ++ ": " ++ literalText v) :: fieldTexts fs
end

/-- A value as a label: a text as it is, anything else in literal notation. -/
def shown : Json → String
  | .str s => s
  | j => j.literalText

end RouteAtlas.Json
