/-
  JSON text.

  A value is written in one of two layouts: spread over lines with an indent of two spaces a
  level, or on one line with a space behind commas and colons.  Either escapes the quote, the
  backslash and the control characters; the ASCII spelling escapes everything beyond ASCII as well,
  a character outside the basic plane as its two surrogates.  Doubles are written with their
  shortest digits.
-/
import RouteAtlas.Json.Basic

namespace RouteAtlas.Json

/-- How texts are spelled: with ASCII only, or with all characters but the control ones. -/
inductive Spelling where
  | ascii
  | plain
  deriving DecidableEq, Repr

/-- The four hexadecimal digits of a 16-bit number, small letters. -/
def hex4 (n : Nat) : String :=
  let digit (k : Nat) := Nat.digitChar (n / Nat.pow 16 k % 16)
  String.ofList [digit 3, digit 2, digit 1, digit 0]

/-- The escape of a character by its UTF-16 units. -/
def unitEscape (c : Char) : String :=
  if c.toNat < 0x10000 then "\\u" ++ hex4 c.toNat
  else
    let n := c.toNat - 0x10000
    "\\u" ++ hex4 (0xD800 + n / 0x400) ++ "\\u" ++ hex4 (0xDC00 + n % 0x400)

/-- One character inside a string. -/
def spellChar (spelling : Spelling) (c : Char) : String :=
  match c with
  | '"' => "\\\""
  | '\\' => "\\\\"
  | '\n' => "\\n"
  | '\r' => "\\r"
  | '\t' => "\\t"
  | c =>
    if c.toNat = 8 then "\\b"
    else if c.toNat = 12 then "\\f"
    else if c.toNat < 32 then unitEscape c
    else match spelling with
      | .plain => c.toString
      | .ascii => if c.toNat ≥ 127 then unitEscape c else c.toString

/-- A string in quotes. -/
def spell (spelling : Spelling) (s : String) : String :=
  s.toList.foldl (fun out c => out ++ spellChar spelling c) "\"" ++ "\""

/-- The text of a value without parts. -/
def leafText (spelling : Spelling) : Json → String
  | .null => "null"
  | .bool true => "true"
  | .bool false => "false"
  | .int n => toString n
  | .float x => x.textWith "Infinity" "NaN"
  | .str s => spell spelling s
  | .arr _ => "[]"
  | .obj _ => "\x7b\x7d"

/-- A new line at some level of nesting. -/
def newLine (level : Nat) : String := "\n" ++ String.ofList (List.replicate (2 * level) ' ')

mutual
/-- Writes a value over lines, at some level of nesting. -/
def spread (spelling : Spelling) (level : Nat) : Json → String
  | .arr (x :: xs) =>
    "[" ++ newLine (level + 1) ++ spread spelling (level + 1) x
      ++ spreadItems spelling (level + 1) xs ++ newLine level ++ "]"
  | .obj ((k, v) :: fs) =>
    "\x7b" ++ newLine (level + 1) ++ spell spelling k ++ ": " ++ spread spelling (level + 1) v
      ++ spreadFields spelling (level + 1) fs ++ newLine level ++ "\x7d"
  | j => leafText spelling j
/-- The items after the first. -/
def spreadItems (spelling : Spelling) (level : Nat) : List Json → String
  | [] => ""
  | x :: xs => "," ++ newLine level ++ spread spelling level x ++ spreadItems spelling level xs
/-- The fields after the first. -/
def spreadFields (spelling : Spelling) (level : Nat) : List (String × Json) → String
  | [] => ""
  | (k, v) :: fs =>
    "," ++ newLine level ++ spell spelling k ++ ": " ++ spread spelling level v
      ++ spreadFields spelling level fs
end

mutual
/-- Writes a value on one line. -/
def inline (spelling : Spelling) : Json → String
  | .arr (x :: xs) => "[" ++ inline spelling x ++ inlineItems spelling xs ++ "]"
  | .obj ((k, v) :: fs) =>
    "\x7b" ++ spell spelling k ++ ": " ++ inline spelling v ++ inlineFields spelling fs ++ "\x7d"
  | j => leafText spelling j
/-- The items after the first. -/
def inlineItems (spelling : Spelling) : List Json → String
  | [] => ""
  | x :: xs => ", " ++ inline spelling x ++ inlineItems spelling xs
/-- The fields after the first. -/
def inlineFields (spelling : Spelling) : List (String × Json) → String
  | [] => ""
  | (k, v) :: fs => ", " ++ spell spelling k ++ ": " ++ inline spelling v ++ inlineFields spelling fs
end

/-- The text of an example or a body: over lines, ASCII only. -/
def exampleText (j : Json) : String := spread .ascii 0 j

/-- The text of a document: over lines, characters as they are. -/
def documentText (j : Json) : String := spread .plain 0 j

end RouteAtlas.Json
