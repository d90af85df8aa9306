/-!
# Whole numbers in decimal

Reading accepts an optional sign and at least one ASCII digit, with any number of leading zeros,
and refuses a number that its word cannot hold.
-/

namespace Locator.Text

/-- The value of a run of ASCII digits; nothing for an empty run or another character. -/
def readDigits : List Char → Option Nat
  | [] => none
  | c :: cs => if (c :: cs).all Char.isDigit then some (go 0 (c :: cs)) else none
where
  go (value : Nat) : List Char → Nat
    | [] => value
    | d :: ds => go (10 * value + (d.toNat - '0'.toNat)) ds

def fitsInt64 (n : Int) : Bool :=
  decide (-(UInt64.size / 2 : Nat) ≤ n ∧ n < (UInt64.size / 2 : Nat))

def readInt64 (s : List Char) : Option Int :=
  let value : Option Int := match s with
    | '+' :: ds => (readDigits ds).map Int.ofNat
    | '-' :: ds => (readDigits ds).map fun n => -Int.ofNat n
    | ds => (readDigits ds).map Int.ofNat
  value.filter fitsInt64

/-- An unsigned 64-bit integer; a minus sign is refused even before zero. -/
def readUInt64 (s : List Char) : Option Nat :=
  let value := match s with
    | '+' :: ds => readDigits ds
    | ds => readDigits ds
  value.filter (· < UInt64.size)

def decimal (n : Nat) : List Char :=
  Nat.toDigits 10 n

theorem decimal_inj {m n : Nat} : decimal m = decimal n ↔ m = n := by
  refine ⟨fun h => ?_, congrArg decimal⟩
  have hvalues := congrArg (Nat.ofDigitChars 10 · 0) h
  simpa [decimal, Nat.ofDigitChars_toDigits] using hvalues

theorem isDigit_of_mem_decimal {n : Nat} {c : Char} (h : c ∈ decimal n) : c.isDigit :=
  Nat.isDigit_of_mem_toDigits (by decide) (Nat.le_refl 10) h

end Locator.Text
