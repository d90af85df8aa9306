/-!
# Hexadecimal digits

Reading and writing numbers in hexadecimal, and in smaller bases, whose digits are among the
hexadecimal ones.
-/

namespace Locator.Text

def hexValue? (c : Char) : Option Nat :=
  if '0' ≤ c ∧ c ≤ '9' then some (c.toNat - '0'.toNat)
  else if 'a' ≤ c ∧ c ≤ 'f' then some (c.toNat - 'a'.toNat + 10)
  else if 'A' ≤ c ∧ c ≤ 'F' then some (c.toNat - 'A'.toNat + 10)
  else none

/-- Reads exactly `count` hexadecimal digits at the front of a text. -/
def readHex (value : Nat) : Nat → List Char → Option (Nat × List Char)
  | 0, s => some (value, s)
  | _ + 1, [] => none
  | count + 1, c :: cs => (hexValue? c).bind fun digit => readHex (16 * value + digit) count cs

def ofBase? (base : Nat) (digits : List Char) : Option Nat := do
  let values ← digits.mapM fun c => (hexValue? c).filter (· < base)
  if values.isEmpty then none
  else return values.foldl (fun n digit => base * n + digit) 0

def hex (width n : Nat) : List Char :=
  let digits := Nat.toDigits 16 n
  List.replicate (width - digits.length) '0' ++ digits

/-- The character of a code point, unless it is half of a surrogate pair or out of range. -/
def scalar? (n : Nat) : Option Char :=
  if h : n.isValidChar then some (Char.ofNatAux n h) else none

end Locator.Text
