/-
  The shortest decimal text of a double.

  Among all decimals that read back as a given double there is a least number of digits, and among
  those with that number of digits one nearest to the double.  `shortest` finds it by trying the
  grids of one, two, … seventeen digits in turn: on each grid only the two neighbours of the value
  can lie in the interval of reals that round to it, so it is enough to test those.  Seventeen digits
  always suffice.

  All tests are comparisons of naturals: value, interval ends and grid unit are brought to a common
  denominator, four times finer than the value's own, where the interval ends are whole.

  `text` writes the digits: positionally when the decimal exponent lies between -4 and 15, with
  `.0` after a whole number; otherwise with one digit before the point and an exponent of at least
  two digits.
-/
import RouteAtlas.Decimal.Double

namespace RouteAtlas.Decimal

/-- A finite positive double, scaled: `value`, `low` and `high` over `den` are the number and the
    ends of the interval of reals that round to it; the ends belong to it when `closed`. -/
structure Interval where
  value : Nat
  low : Nat
  high : Nat
  den : Nat
  closed : Bool

/-- The rounding interval of `m · 2^q`; below a power of two the lower neighbour is half as far. -/
def Interval.ofParts (m : Nat) (q : Int) : Interval :=
  let near := m = Nat.pow 2 52 ∧ q > -1074
  let low := if near then 4 * m - 1 else 4 * m - 2
  let closed := m % 2 = 0
  if q ≥ 2 then
    let f := Nat.pow 2 (q - 2).toNat
    ⟨4 * m * f, low * f, (4 * m + 2) * f, 1, closed⟩
  else ⟨4 * m, low, 4 * m + 2, Nat.pow 2 (2 - q).toNat, closed⟩

/-- Does `n` units of `unit / den` lie in the interval? -/
def Interval.holds (i : Interval) (n unit : Nat) : Bool :=
  if i.closed then i.low ≤ n * unit && n * unit ≤ i.high
  else i.low < n * unit && n * unit < i.high

/-- The interval with all ends multiplied by ten to the `k`, the denominator for a negative `k`. -/
def Interval.scaled (i : Interval) (k : Int) : Interval :=
  if k ≥ 0 then
    let f := Nat.pow 10 k.toNat
    { i with value := i.value * f, low := i.low * f, high := i.high * f }
  else { i with den := i.den * Nat.pow 10 (-k).toNat }

/-- The nearest point of the grid of unit `den` that lies in the interval; of two at the same
    distance the even one. -/
def Interval.pick? (i : Interval) : Option Nat :=
  let below := i.value / i.den
  let rest := i.value % i.den
  match i.holds below i.den, i.holds (below + 1) i.den with
  | true, true =>
    if 2 * rest < i.den then some below
    else if 2 * rest > i.den then some (below + 1)
    else if below % 2 = 0 then some below else some (below + 1)
  | true, false => some below
  | false, true => some (below + 1)
  | false, false => none

/-- The exponent `k` with `10^k ≤ value / den < 10^(k+1)`, from the binary one. -/
def Interval.decimalExponent (i : Interval) : Int :=
  let binary : Int := (i.value.log2 : Int) - (i.den.log2 : Int) - 1
  let guess := Int.fdiv (binary * 30103) 100000
  let reaches (k : Int) : Bool :=
    if k ≥ 0 then i.value ≥ i.den * Nat.pow 10 k.toNat else i.value * Nat.pow 10 (-k).toNat ≥ i.den
  if reaches (guess + 1) then guess + 1 else guess

/-- Tries the grids of `count`, `count + 1`, … digits, `tries` of them. -/
def Interval.shortestFrom (i : Interval) (k : Int) : (tries count : Nat) → Nat × Int
  | 0, count => ((i.scaled (count - 1 - k)).value / (i.scaled (count - 1 - k)).den, k + 1 - count)
  | tries + 1, count =>
    match (i.scaled (count - 1 - k)).pick? with
    | some n => (n, k + 1 - count)
    | none => i.shortestFrom k tries (count + 1)

/-- Digits without trailing zeros, and the power of ten they are to be multiplied by. -/
def dropZeros : (fuel : Nat) → Nat → Int → Nat × Int
  | 0, n, e => (n, e)
  | fuel + 1, n, e => if n ≠ 0 ∧ n % 10 = 0 then dropZeros fuel (n / 10) (e + 1) else (n, e)

/-- The shortest decimal `digits · 10^exponent` that reads back as `m · 2^q`. -/
def shortest (m : Nat) (q : Int) : Nat × Int :=
  let i := Interval.ofParts m q
  let (n, e) := i.shortestFrom i.decimalExponent 17 1
  dropZeros 20 n e

/-- The decimal digits of a natural number. -/
def digitsOf (n : Nat) : List Char := Nat.toDigits 10 n

/-- The exponent's text: a sign and at least two digits. -/
def exponentChars (e : Int) : List Char :=
  let digits := digitsOf e.natAbs
  (if e < 0 then '-' else '+') :: (if digits.length < 2 then '0' :: digits else digits)

/-- Writes `digits · 10^exponent`. -/
def decimalChars (n : Nat) (exponent : Int) : List Char :=
  let digits := digitsOf n
  let k : Int := exponent + digits.length - 1
  if -4 ≤ k ∧ k < 16 then
    if exponent ≥ 0 then digits ++ List.replicate exponent.toNat '0' ++ ['.', '0']
    else if k ≥ 0 then digits.take (k + 1).toNat ++ '.' :: digits.drop (k + 1).toNat
    else '0' :: '.' :: List.replicate (-k - 1).toNat '0' ++ digits
  else
    match digits with
    | [] => []
    | [d] => d :: 'e' :: exponentChars k
    | d :: rest => d :: '.' :: rest ++ 'e' :: exponentChars k

/-- The text of a double; `infinite` and `nan` are the words for what has no digits. -/
def Double.textWith (infinite nan : String) (x : Double) : String :=
  let sign := if x.isNegative then "-" else ""
  match x.magnitude with
  | .nan => nan
  | .infinite => sign ++ infinite
  | .finite m q =>
    if m = 0 then sign ++ "0.0"
    else
      let (n, e) := shortest m q
      sign ++ String.ofList (decimalChars n e)

/-- The plain text of a double. -/
def Double.text (x : Double) : String := x.textWith "inf" "nan"

end RouteAtlas.Decimal
