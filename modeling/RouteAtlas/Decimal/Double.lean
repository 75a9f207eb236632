/-
  Binary floating-point numbers of 64 bits, as data.

  A `Double` is its bit pattern, so two of them are equal exactly when they are the same number
  with the same sign (and `0.0 ≠ -0.0`).  The pattern splits into a sign, an exponent of eleven
  bits and a fraction of 52; a finite magnitude is `m · 2^q` with natural `m < 2^53` and
  `-1074 ≤ q ≤ 971`, which `parts` reads off.

  Arithmetic is done on those two numbers, in `Nat`: `ofRatio` rounds a quotient to the nearest
  double (a tie goes to the even neighbour), and `ofDecimal` reads `digits · 10^exponent` through
  it.  Beyond the largest finite double lies infinity, below half the smallest positive one zero;
  exponents so far out that the power of ten alone decides are cut off first, so that no huge power
  is ever computed.
-/

namespace RouteAtlas.Decimal

/-- A 64-bit binary floating-point number, by its bit pattern. -/
structure Double where
  bits : UInt64
  deriving DecidableEq, Repr, Inhabited

namespace Double

/-- What a bit pattern stands for, sign aside. -/
inductive Magnitude where
  /-- The number `m · 2^q`. -/
  | finite (m : Nat) (q : Int)
  | infinite
  | nan
  deriving DecidableEq, Repr

/-- Is the sign bit set? -/
def isNegative (x : Double) : Bool := x.bits.toNat ≥ Nat.pow 2 63

/-- The magnitude: with exponent field zero there is no implicit leading bit. -/
def magnitude (x : Double) : Magnitude :=
  let exponent : Nat := x.bits.toNat / Nat.pow 2 52 % 2048
  let fraction : Nat := x.bits.toNat % Nat.pow 2 52
  if exponent = 2047 then (if fraction = 0 then .infinite else .nan)
  else if exponent = 0 then .finite fraction (-1074)
  else .finite (fraction + Nat.pow 2 52) ((exponent : Int) - 1075)

/-- Changes the sign. -/
def negate (x : Double) : Double := ⟨x.bits ^^^ 0x8000000000000000⟩

/-- Positive infinity. -/
def infinity : Double := ⟨0x7FF0000000000000⟩

/-- The number that is none. -/
def notANumber : Double := ⟨0x7FF8000000000000⟩

/-- Puts the sign bit on a non-negative number. -/
def withSign (negative : Bool) (x : Double) : Double := if negative then x.negate else x

/-- `num / den` rounded to a natural number, a tie to the even one. -/
def roundHalfEven (num den : Nat) : Nat :=
  let floor := num / den
  let twice := 2 * (num % den)
  if twice < den then floor
  else if twice > den then floor + 1
  else if floor % 2 = 0 then floor else floor + 1

/-- The quotient of two naturals times `2^(-q)`, rounded. -/
def roundAt (num den : Nat) (q : Int) : Nat :=
  if q ≥ 0 then roundHalfEven num (den * Nat.pow 2 q.toNat) else roundHalfEven (num * Nat.pow 2 (-q).toNat) den

/-- The bit pattern of `m · 2^q` for a rounded `m ≤ 2^53`; too large a number is infinite. -/
def pack (m : Nat) (q : Int) : Double :=
  let (m, q) := if m = Nat.pow 2 53 then (Nat.pow 2 52, q + 1) else (m, q)
  if m < Nat.pow 2 52 then ⟨m.toUInt64⟩
  else if q > 971 then infinity
  else ⟨((q + 1075).toNat * Nat.pow 2 52 + (m - Nat.pow 2 52)).toUInt64⟩

/-- The double nearest to `num / den`, for a positive denominator. -/
def ofRatio (num den : Nat) : Double :=
  if num = 0 then ⟨0⟩
  else
    let guess : Int := (num.log2 : Int) - (den.log2 : Int)
    let reaches := if guess ≥ 0 then num ≥ den * Nat.pow 2 guess.toNat else num * Nat.pow 2 (-guess).toNat ≥ den
    let top := if reaches then guess else guess - 1
    let q := max (top - 52) (-1074)
    pack (roundAt num den q) q

/-- The double nearest to `digits · 10^exponent`. -/
def ofDecimal (digits : Nat) (exponent : Int) : Double :=
  let size : Int := (Nat.toDigits 10 digits).length
  if digits = 0 then ⟨0⟩
  else if exponent + size > 400 then infinity
  else if exponent + size < -400 then ⟨0⟩
  else if exponent ≥ 0 then ofRatio (digits * Nat.pow 10 exponent.toNat) 1
  else ofRatio digits (Nat.pow 10 (-exponent).toNat)

/-- Is the number zero, of either sign? -/
def isZero (x : Double) : Bool := x.magnitude matches .finite 0 _

/-- The whole number a double stands for, if it does. -/
def toInt? (x : Double) : Option Int :=
  match x.magnitude with
  | .finite m q =>
    let sign : Int := if x.isNegative then -1 else 1
    if q ≥ 0 then some (sign * (m * Nat.pow 2 q.toNat : Nat))
    else if m % Nat.pow 2 (-q).toNat = 0 then some (sign * (m / Nat.pow 2 (-q).toNat : Nat)) else none
  | _ => none

/-- Equality of numbers that are looked up by: the two zeros are equal, and apart from them every
    number equals itself only, the one that is none included. -/
def same (x y : Double) : Bool := x == y || (x.isZero && y.isZero)

end Double

end RouteAtlas.Decimal
