import Locator.Text.Ascii
import Locator.Text.Integer

/-!
# Binary floating point

A floating-point number of 64 bits is a whole number times a power of two, or infinite, or no
number. A decimal is rounded to the nearest of them, a tie to the one with the even mantissa.
-/

namespace Locator

/-- A floating-point number: `mantissa * 2 ^ exponent` with a sign, an infinity, or no number. -/
inductive Binary64
  | finite (negative : Bool) (mantissa : Nat) (exponent : Int)
  | infinite (negative : Bool)
  | nan
  deriving DecidableEq, Repr

namespace Binary64

def precision : Nat := 53

def minExponent : Int := -1074

def maxExponent : Int := 971

/-- The quotient rounded to the nearest number, a tie to the even one. -/
def roundDiv (num den : Nat) : Nat :=
  let quotient := num / den
  let rest := 2 * (num % den)
  if rest < den || (rest == den && quotient % 2 == 0) then quotient else quotient + 1

def scale (num den : Nat) : Int → Nat × Nat
  | .ofNat k => (num * Nat.pow 2 k, den)
  | .negSucc k => (num, den * Nat.pow 2 (k + 1))

def ofFraction (negative : Bool) (num den : Nat) : Binary64 :=
  let guess : Int := (num.log2 : Int) - den.log2 - (precision - 1)
  let (n, d) := scale num den (-guess)
  let exponent := max minExponent (if n < d * Nat.pow 2 (precision - 1) then guess - 1 else guess)
  let (n, d) := scale num den (-exponent)
  let mantissa := roundDiv n d
  let (mantissa, exponent) :=
    if mantissa == Nat.pow 2 precision then (Nat.pow 2 (precision - 1), exponent + 1)
    else (mantissa, exponent)
  if maxExponent < exponent then infinite negative else finite negative mantissa exponent

def ofDecimal (negative : Bool) (digits : Nat) (exponent : Int) : Binary64 :=
  let magnitude := exponent + (Nat.toDigits 10 digits).length
  if digits == 0 || magnitude < -330 then finite negative 0 0
  else if 310 < magnitude then infinite negative
  else
    match exponent with
    | .ofNat k => ofFraction negative (digits * Nat.pow 10 k) 1
    | .negSucc k => ofFraction negative digits (Nat.pow 10 (k + 1))

def ofDigits (negative : Bool) (whole fraction : List Char) (exponent : Int) : Binary64 :=
  ofDecimal negative ((Text.readDigits (whole ++ fraction)).getD 0) (exponent - fraction.length)

/-- The value rounded to a whole number, a half away from zero, and brought into the range of an
unsigned 64-bit word. -/
def toWord : Binary64 → Nat
  | nan | infinite true | finite true _ _ => 0
  | infinite false => UInt64.size - 1
  | finite false mantissa (.ofNat k) => min (mantissa * Nat.pow 2 k) (UInt64.size - 1)
  | finite false mantissa (.negSucc k) =>
    min ((mantissa + Nat.pow 2 k) / Nat.pow 2 (k + 1)) (UInt64.size - 1)

/-! ## Reading -/

def readExponent : List Char → Option Int
  | '+' :: ds => (Text.readDigits ds).map Int.ofNat
  | '-' :: ds => (Text.readDigits ds).map fun n => -Int.ofNat n
  | ds => (Text.readDigits ds).map Int.ofNat

/-- Reads a decimal without a sign: digits on at least one side of a point, which may be missing,
and an exponent, which may be missing too. -/
def readUnsigned (negative : Bool) (s : List Char) : Option Binary64 :=
  let whole := s.takeWhile Char.isDigit
  let rest := s.dropWhile Char.isDigit
  let (fraction, rest) := match rest with
    | '.' :: rest => (rest.takeWhile Char.isDigit, rest.dropWhile Char.isDigit)
    | rest => ([], rest)
  if (whole ++ fraction).isEmpty then none
  else
    match rest with
    | [] => some (ofDigits negative whole fraction 0)
    | e :: rest =>
      if e == 'e' || e == 'E' then
        (readExponent rest).map fun exponent => ofDigits negative whole fraction exponent
      else none

def read? (s : List Char) : Option Binary64 :=
  let (negative, body) := match s with
    | '-' :: rest => (true, rest)
    | '+' :: rest => (false, rest)
    | rest => (false, rest)
  if Text.sameIgnoringCase body "inf".toList || Text.sameIgnoringCase body "infinity".toList then
    some (infinite negative)
  else if Text.sameIgnoringCase body "nan".toList then some nan
  else readUnsigned negative body

end Binary64

end Locator
