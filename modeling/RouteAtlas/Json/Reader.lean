/-
  JSON text read.

  The reader takes the values of the standard and three words more, for infinity, its negative and
  for what is no number.  A number with a fraction or an exponent is a double, any other a whole
  number; of two fields with one name the last counts, at the first one's place.

  A fault says what was expected and where.  Positions count characters; the message gives line and
  column as well.

  Nesting bounds the depth of the recursion, and every value takes at least one character; so the
  number of characters left serves as fuel, and no text uses it up.
-/
import RouteAtlas.Decimal.Numeral
import RouteAtlas.Json.Basic

namespace RouteAtlas.Json

/-- What is wrong with a text. -/
inductive ReadProblem where
  | value
  | name
  | colon
  | comma
  | extra
  | unterminated
  | control
  | escape
  | unitEscape
  | mark
  deriving DecidableEq, Repr

/-- What is said about a problem. -/
def ReadProblem.reason : ReadProblem → String
  | value => "Expecting value"
  | name => "Expecting property name enclosed in double quotes"
  | colon => "Expecting ':' delimiter"
  | comma => "Expecting ',' delimiter"
  | extra => "Extra data"
  | unterminated => "Unterminated string starting at"
  | control => "Invalid control character at"
  | escape => "Invalid \\escape"
  | unitEscape => "Invalid \\uXXXX escape"
  | mark => "Unexpected UTF-8 BOM (decode using utf-8-sig)"

/-- A problem and the number of characters left at its place. -/
structure ReadFault where
  problem : ReadProblem
  left : Nat
  deriving DecidableEq, Repr

/-- The message of a fault in a text. -/
def ReadFault.message (f : ReadFault) (text : List Char) : String :=
  let before := text.take (text.length - f.left)
  let column := (before.reverse.takeWhile (· != '\n')).length + 1
  f.problem.reason ++ ": line " ++ toString (before.count '\n' + 1) ++ " column " ++ toString column
    ++ " (char " ++ toString before.length ++ ")"

/-- A reader: a value and what follows it. -/
abbrev Reader (α : Type) := List Char → Except ReadFault (α × List Char)

/-- Fails where `cs` is left. -/
def failAt {α : Type} (problem : ReadProblem) (cs : List Char) : Except ReadFault α :=
  .error ⟨problem, cs.length⟩

/-- White space of the format. -/
def isSpace (c : Char) : Bool := c == ' ' || c == '\t' || c == '\n' || c == '\r'

/-- What follows white space. -/
def skipSpace (cs : List Char) : List Char := cs.dropWhile isSpace

/-! ## Strings -/

/-- The value of a hexadecimal digit. -/
def hexValue? (c : Char) : Option Nat :=
  if c.isDigit then some (c.toNat - 48)
  else if 'a' ≤ c ∧ c ≤ 'f' then some (c.toNat - 87)
  else if 'A' ≤ c ∧ c ≤ 'F' then some (c.toNat - 55)
  else none

/-- The number four hexadecimal digits write. -/
def hexUnit? (digits : List Char) : Option Nat :=
  if digits.length = 4 then (digits.mapM hexValue?).map (·.foldl (fun n d => 16 * n + d) 0) else none

/-- The character of a single-letter escape. -/
def escaped? (c : Char) : Option Char :=
  match c with
  | '"' | '\\' | '/' => some c
  | 'b' => some (Char.ofNat 8)
  | 'f' => some (Char.ofNat 12)
  | 'n' => some '\n'
  | 'r' => some '\r'
  | 't' => some '\t'
  | _ => none

/-- Is the unit the first of a pair? -/
def isHighUnit (n : Nat) : Bool := 0xD800 ≤ n && n < 0xDC00

/-- Is the unit the second of a pair? -/
def isLowUnit (n : Nat) : Bool := 0xDC00 ≤ n && n < 0xE000

/-- The character of a unit; one without its partner has none, and is replaced. -/
def unitChar (n : Nat) : Char := if isHighUnit n || isLowUnit n then '\ufffd' else Char.ofNat n

/-- The character of a pair of units. -/
def pairChar (high low : Nat) : Char := Char.ofNat (0x10000 + (high - 0xD800) * 0x400 + (low - 0xDC00))

/-- The character of the digits that `cs` begins with, behind a `u`, and the number of characters
    they take; a second escape may be part of it.  Something must follow the digits. -/
def unitEscapeAt (cs : List Char) : Except ReadFault (Char × Nat) :=
  let fault (cs : List Char) : Except ReadFault (Char × Nat) := .error ⟨.unitEscape, cs.length + 1⟩
  if (cs.take 5).length < 5 then fault cs
  else match hexUnit? (cs.take 4) with
    | none => fault cs
    | some high =>
      match cs.drop 4 with
      | '\\' :: 'u' :: rest =>
        if isHighUnit high && (rest.take 5).length = 5 then
          match hexUnit? (rest.take 4) with
          | none => fault rest
          | some low => .ok (if isLowUnit low then (pairChar high low, 10) else (unitChar high, 4))
        else .ok (unitChar high, 4)
      | _ => .ok (unitChar high, 4)

/-- Reads the rest of a string that began where `start` was left; the first `skip` characters belong
    to an escape already read. -/
def readString (start : List Char) : (skip : Nat) → Reader (List Char)
  | _, [] => failAt .unterminated start
  | skip + 1, _ :: cs => readString start skip cs
  | 0, c :: cs =>
    if c = '"' then .ok ([], cs)
    else if c = '\\' then
      match cs with
      | [] => failAt .unterminated start
      | e :: rest =>
        if e = 'u' then
          match unitEscapeAt rest with
          | .error fault => .error fault
          | .ok (put, length) => (readString start (length + 1) cs).map fun (s, r) => (put :: s, r)
        else match escaped? e with
          | some put => (readString start 1 cs).map fun (s, r) => (put :: s, r)
          | none => failAt .escape (c :: cs)
    else if c.toNat < 32 then failAt .control (c :: cs)
    else (readString start 0 cs).map fun (s, r) => (c :: s, r)

/-! ## Numbers -/

/-- The digits a text begins with. -/
def digitsOf (cs : List Char) : List Char := cs.takeWhile Char.isDigit

/-- The whole part of a number: no digit follows a leading zero. -/
def wholeLength? : List Char → Option Nat
  | '0' :: _ => some 1
  | c :: cs => if c.isDigit then some ((digitsOf cs).length + 1) else none
  | [] => none

/-- The length of a fraction, zero when there is none. -/
def fractionLength : List Char → Nat
  | '.' :: cs => match (digitsOf cs).length with
    | 0 => 0
    | n => n + 1
  | _ => 0

/-- The length of an exponent, zero when there is none. -/
def exponentLength : List Char → Nat
  | e :: cs =>
    if e = 'e' ∨ e = 'E' then
      let sign := match cs with
        | s :: _ => if s = '+' ∨ s = '-' then 1 else 0
        | [] => 0
      match (digitsOf (cs.drop sign)).length with
      | 0 => 0
      | n => n + sign + 1
    else 0
  | [] => 0

/-- Reads a number. -/
def readNumber : Reader Json := fun cs =>
  let sign := if cs.head? = some '-' then 1 else 0
  match wholeLength? (cs.drop sign) with
  | none => failAt .value cs
  | some whole =>
    let fraction := fractionLength (cs.drop (sign + whole))
    let exponent := exponentLength (cs.drop (sign + whole + fraction))
    let length := sign + whole + fraction + exponent
    let text := String.ofList (cs.take length)
    let value := if fraction + exponent = 0 then text.toInt?.map Json.int
      else (Decimal.Double.ofText? text).map Json.float
    match value with
    | some value => .ok (value, cs.drop length)
    | none => failAt .value cs

/-! ## Values -/

/-- Words that are values. -/
def words : List (String × Json) :=
  [("null", .null), ("true", .bool true), ("false", .bool false),
   ("NaN", .float Decimal.Double.notANumber), ("Infinity", .float Decimal.Double.infinity),
   ("-Infinity", .float Decimal.Double.infinity.negate)]

/-- The word a text begins with. -/
def word? (cs : List Char) : Option (Json × List Char) :=
  words.findSome? fun (word, value) =>
    if word.toList.isPrefixOf cs then some (value, cs.drop word.toList.length) else none

mutual
/-- Reads a value, nested at most `fuel` times. -/
def readValue : (fuel : Nat) → Reader Json
  | 0, cs => failAt .value cs
  | fuel + 1, cs =>
    match cs with
    | '"' :: rest => (readString cs 0 rest).map fun (s, r) => (.str (String.ofList s), r)
    | '\x7b' :: rest =>
      match skipSpace rest with
      | '\x7d' :: r => .ok (.obj [], r)
      | r => (readFields fuel r).map fun (fields, r) => (.obj (Dict.ofList fields), r)
    | '[' :: rest =>
      match skipSpace rest with
      | ']' :: r => .ok (.arr [], r)
      | r => (readItems fuel r).map fun (items, r) => (.arr items, r)
    | cs =>
      match word? cs with
      | some found => .ok found
      | none => readNumber cs
/-- Reads the items of a list, one at least, to its end. -/
def readItems : (fuel : Nat) → Reader (List Json)
  | 0, cs => failAt .value cs
  | fuel + 1, cs => do
    let (item, rest) ← readValue fuel cs
    match skipSpace rest with
    | ']' :: r => return ([item], r)
    | ',' :: r =>
      let (items, r) ← readItems fuel (skipSpace r)
      return (item :: items, r)
    | r => failAt .comma r
/-- Reads the fields of an object, one at least, to its end. -/
def readFields : (fuel : Nat) → Reader (List (String × Json))
  | 0, cs => failAt .value cs
  | fuel + 1, cs => do
    let (name, rest) ← match cs with
      | '"' :: rest => readString cs 0 rest
      | cs => failAt .name cs
    let rest ← match skipSpace rest with
      | ':' :: r => pure (skipSpace r)
      | r => failAt .colon r
    let (value, rest) ← readValue fuel rest
    let field := (String.ofList name, value)
    match skipSpace rest with
    | '\x7d' :: r => return ([field], r)
    | ',' :: r =>
      let (fields, r) ← readFields fuel (skipSpace r)
      return (field :: fields, r)
    | r => failAt .comma r
end

/-- Reads a text that is one value.  The readers above call each other at most twice for every
    character that they use up. -/
def read (text : List Char) : Except ReadFault Json := do
  if text.head? = some '\ufeff' then failAt .mark text
  let (value, rest) ← readValue (2 * text.length + 2) (skipSpace text)
  match skipSpace rest with
  | [] => return value
  | r => failAt .extra r

end RouteAtlas.Json
