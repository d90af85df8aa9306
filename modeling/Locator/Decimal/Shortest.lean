import Locator.Decimal.Binary64

/-!
# The shortest decimal of a float

A float is written with the fewest digits that read back as the same float; of the decimals with
that many digits it is the nearest. The notation is positional, whatever the exponent.
-/

namespace Locator.Binary64

/-- The numbers `num / den` that round to a float lie between these bounds; the bounds themselves
do when `closed` holds. All three fractions have the same denominator. -/
structure Interval where
  low : Nat
  value : Nat
  high : Nat
  den : Nat
  closed : Bool

/-- The numbers that round to `mantissa * 2 ^ exponent`. Below a power of two the floats lie
twice as dense. -/
def interval (mantissa : Nat) (exponent : Int) : Interval :=
  let below := if mantissa == Nat.pow 2 (precision - 1) && minExponent < exponent then 1 else 2
  let (unit, den) := scale 1 4 exponent
  { low := (4 * mantissa - below) * unit
    value := 4 * mantissa * unit
    high := (4 * mantissa + 2) * unit
    den
    closed := mantissa % 2 == 0 }

/-- The power of ten of the first digit of a fraction that is not zero. -/
def leadingPower (num den : Nat) : Int :=
  if den ≤ num then ((Nat.toDigits 10 (num / den)).length : Int) - 1
  else
    let places := (Nat.toDigits 10 den).length - (Nat.toDigits 10 num).length
    if den ≤ num * Nat.pow 10 places then -(places : Int) else -(places + 1 : Int)

def Interval.holds (i : Interval) (power : Int) (n : Nat) : Bool :=
  let (left, right) := match power with
    | .ofNat k => (n * Nat.pow 10 k * i.den, 1)
    | .negSucc k => (n * i.den, Nat.pow 10 (k + 1))
  let inside (below above : Nat) := below < above || (i.closed && below == above)
  inside (i.low * right) left && inside left (i.high * right)

/-- The multiple of `10 ^ power` that lies in the interval, if one of the two around the value
does: the nearer one, and of two at the same distance the upper one. -/
def Interval.nearest? (i : Interval) (power : Int) : Option Nat :=
  let (num, den) := match power with
    | .ofNat k => (i.value, i.den * Nat.pow 10 k)
    | .negSucc k => (i.value * Nat.pow 10 (k + 1), i.den)
  let lower := num / den
  let upperFirst := den ≤ 2 * (num % den)
  let candidates := if upperFirst then [lower + 1, lower] else [lower, lower + 1]
  candidates.find? (i.holds power)

def shortest (mantissa : Nat) (exponent : Int) : Nat × Int :=
  let i := interval mantissa exponent
  let above := leadingPower i.value i.den + 1
  let tried := (List.range 18).findSome? fun (places : Nat) =>
    let power := above - places
    (i.nearest? power).map fun n => (n, power)
  tried.getD (0, 0)

def positional (digits : List Char) : Int → List Char
  | .ofNat k => digits ++ List.replicate k '0'
  | .negSucc k =>
    let places := k + 1
    let padded := List.replicate (places + 1 - digits.length) '0' ++ digits
    padded.take (padded.length - places) ++ '.' :: padded.drop (padded.length - places)

def text : Binary64 → List Char
  | nan => "NaN".toList
  | infinite negative => (if negative then ['-'] else []) ++ "inf".toList
  | finite negative 0 _ => if negative then ['-', '0'] else ['0']
  | finite negative mantissa exponent =>
    let (digits, power) := shortest mantissa exponent
    (if negative then ['-'] else []) ++ positional (Nat.toDigits 10 digits) power

end Locator.Binary64
