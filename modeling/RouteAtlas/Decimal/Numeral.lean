/-
  Number literals of the JavaScript family.

  A literal may group its digits with underscores and may end in `n` (a big integer).  Without
  those, it is a whole number when it is written in base ten without a leading zero, or in base
  two, eight or sixteen behind `0b`, `0o`, `0x`; else it is read as a decimal number with a point or
  an exponent; `0777`, an octal of old, is read as the decimal it looks like.  Whole numbers are
  exact at any size, the others are rounded to a double.
-/
import RouteAtlas.Decimal.Double
import RouteAtlas.Text.Blank
import RouteAtlas.Text.Case

namespace RouteAtlas.Decimal

/-- A number as a literal gives it. -/
inductive Number where
  | whole (n : Int)
  | real (x : Double)
  deriving DecidableEq, Repr

/-- The value of a digit in some base up to sixteen. -/
def digitIn? (base : Nat) (c : Char) : Option Nat :=
  let v := if c.isDigit then some (c.toNat - 48)
    else if 'a' ≤ c ∧ c ≤ 'f' then some (c.toNat - 87)
    else if 'A' ≤ c ∧ c ≤ 'F' then some (c.toNat - 55) else none
  v.filter (· < base)

/-- The value of a non-empty run of digits. -/
def natOf? (base : Nat) : List Char → Option Nat
  | [] => none
  | cs => cs.foldl (fun acc c => do return (← acc) * base + (← digitIn? base c)) (some 0)

/-- The most decimal digits a whole number may have; longer ones are read as real numbers. -/
def maxWholeDigits : Nat := 4300

/-- A whole number, its base given by how it begins. -/
def wholeOf? (cs : List Char) : Option Nat :=
  match cs with
  | '0' :: 'x' :: r | '0' :: 'X' :: r => natOf? 16 r
  | '0' :: 'o' :: r | '0' :: 'O' :: r => natOf? 8 r
  | '0' :: 'b' :: r | '0' :: 'B' :: r => natOf? 2 r
  | '0' :: r => if r.all (· == '0') then some 0 else none
  | cs => if cs.length ≤ maxWholeDigits then natOf? 10 cs else none

/-- A sign in front, and the rest. -/
def signed (cs : List Char) : Bool × List Char :=
  match cs with
  | '-' :: r => (true, r)
  | '+' :: r => (false, r)
  | r => (false, r)

/-- The exponent that follows an `e`: a whole number with an optional sign. -/
def exponentOf? (cs : List Char) : Option Int :=
  let (negative, digits) := signed cs
  (natOf? 10 digits).map fun n => if negative then -(n : Int) else n

/-- A decimal number: digits with at most one point, at least one digit, perhaps an exponent. -/
def decimalOf? (cs : List Char) : Option Double := do
  let (negative, cs) := signed cs
  let whole := cs.takeWhile Char.isDigit
  let rest := cs.dropWhile Char.isDigit
  let (places, rest) := match rest with
    | '.' :: r => (r.takeWhile Char.isDigit, r.dropWhile Char.isDigit)
    | r => ([], r)
  let digits ← natOf? 10 (whole ++ places)
  let exponent ← match rest with
    | [] => some 0
    | c :: r => if c = 'e' ∨ c = 'E' then exponentOf? r else none
  return Double.withSign negative (Double.ofDecimal digits (exponent - places.length))

/-- Reads the text of a number literal. -/
def Number.ofLiteral? (text : String) : Option Number :=
  let plain := text.toList.filter (· != '_')
  let plain := (plain.reverse.dropWhile (· == 'n')).reverse
  match wholeOf? plain with
  | some n => some (.whole n)
  | none => (decimalOf? plain).map .real

/-- Reads the text that `Double.text` writes, the two words for what has no digits included. -/
def Double.ofText? (text : String) : Option Double :=
  let (negative, cs) := signed text.toList
  if cs = "inf".toList then some (Double.withSign negative Double.infinity)
  else if cs = "nan".toList then some Double.notANumber
  else decimalOf? text.toList

end RouteAtlas.Decimal
