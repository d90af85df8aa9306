import Locator.Toml
import Locator.Text.Cut
import Locator.Text.Hex
import Locator.Text.Integer

/-!
# Numbers, dates and times in TOML

Whole numbers are decimal, hexadecimal, octal or binary and fit a signed 64-bit word. Digits may
be set apart by single underscores. Dates and times are those of the calendar.
-/

namespace Locator.Toml

open Text

/-! ## Digits -/

/-- Reads the digits that go on a number. An underscore must stand between two digits. -/
def moreDigits (isDigit : Char → Bool) : List Char → Option (List Char × List Char)
  | [] => some ([], [])
  | '_' :: rest =>
    match rest with
    | [] => none
    | c :: rest =>
      if isDigit c then (moreDigits isDigit rest).map fun (ds, rest) => (c :: ds, rest) else none
  | c :: rest =>
    if isDigit c then (moreDigits isDigit rest).map fun (ds, rest) => (c :: ds, rest)
    else some ([], c :: rest)

/-- Reads at least one digit, with single underscores between digits, and gives the digits. -/
def readDigits (isDigit : Char → Bool) : List Char → Option (List Char × List Char)
  | [] => none
  | c :: rest =>
    if isDigit c then (moreDigits isDigit rest).map fun (ds, rest) => (c :: ds, rest) else none

/-- Takes a sign off the front of a text; it is true for a minus. -/
def readSign : List Char → Bool × List Char
  | '-' :: rest => (true, rest)
  | '+' :: rest => (false, rest)
  | rest => (false, rest)

/-- Reads the whole part of a decimal: a zero, or digits that do not begin with a zero. -/
def readWhole : List Char → Option (List Char × List Char)
  | '0' :: rest => some (['0'], rest)
  | s => readDigits Char.isDigit s

def integer? (negative : Bool) (magnitude : Nat) : Option Toml :=
  let value : Int := if negative then -magnitude else magnitude
  if Text.fitsInt64 value then some (integer value) else none

def readBase (base : Nat) (s : List Char) : Option (Toml × List Char) := do
  let isDigit (c : Char) := (hexValue? c).any (· < base)
  let (digits, rest) ← readDigits isDigit s
  return (← integer? false (← ofBase? base digits), rest)

def readExponent (s : List Char) : Option (Int × List Char) := do
  let (negative, rest) := readSign s
  let (digits, rest) ← readDigits Char.isDigit rest
  let magnitude := (Text.readDigits digits).getD 0
  return (if negative then -magnitude else magnitude, rest)

def float? (value : Binary64) : Option Toml :=
  if value == .infinite false then none else some (float value)

def readScaled (negative : Bool) (whole fraction : List Char) (s : List Char) :
    Option (Toml × List Char) :=
  match s with
  | e :: rest =>
    if e == 'e' || e == 'E' then do
      let (exponent, rest) ← readExponent rest
      return (← float? (.ofDigits negative whole fraction exponent), rest)
    else do return (← float? (.ofDigits negative whole fraction 0), e :: rest)
  | [] => do return (← float? (.ofDigits negative whole fraction 0), [])

def readDecimal (negative : Bool) (s : List Char) : Option (Toml × List Char) := do
  let (whole, rest) ← readWhole s
  match rest with
  | '.' :: rest =>
    let (fraction, rest) ← readDigits Char.isDigit rest
    readScaled negative whole fraction rest
  | 'e' :: _ | 'E' :: _ => readScaled negative whole [] rest
  | rest => return (← integer? negative ((Text.readDigits whole).getD 0), rest)

def readNumber (s : List Char) : Option (Toml × List Char) :=
  match s with
  | '0' :: 'x' :: rest => readBase 16 rest
  | '0' :: 'o' :: rest => readBase 8 rest
  | '0' :: 'b' :: rest => readBase 2 rest
  | s =>
    let (negative, rest) := readSign s
    match rest with
    | 'i' :: 'n' :: 'f' :: rest => some (float (.infinite negative), rest)
    | 'n' :: 'a' :: 'n' :: rest => some (float .nan, rest)
    | rest => readDecimal negative rest

/-! ## Dates and times -/

def readFixed (count : Nat) (s : List Char) : Option (Nat × List Char) := do
  let digits := s.take count
  if digits.length < count then none
  else return (← Text.readDigits digits, s.drop count)

def padded (width n : Nat) : List Char :=
  let digits := decimal n
  List.replicate (width - digits.length) '0' ++ digits

def daysInMonth (year month : Nat) : Nat :=
  let leap := year % 4 == 0 && (year % 100 != 0 || year % 400 == 0)
  if month == 2 then if leap then 29 else 28
  else if month == 4 || month == 6 || month == 9 || month == 11 then 30
  else 31

def readDate (s : List Char) : Option (List Char × List Char) := do
  let (year, rest) ← readFixed 4 s
  let rest ← stripPrefix? ['-'] rest
  let (month, rest) ← readFixed 2 rest
  let rest ← stripPrefix? ['-'] rest
  let (day, rest) ← readFixed 2 rest
  if 1 ≤ month ∧ month ≤ 12 ∧ 1 ≤ day ∧ day ≤ daysInMonth year month then
    return (padded 4 year ++ '-' :: padded 2 month ++ '-' :: padded 2 day, rest)
  else none

def fractionText (digits : List Char) : List Char :=
  let kept := ((digits.take 9).reverse.dropWhile (· == '0')).reverse
  if kept.isEmpty then [] else '.' :: kept

def readTime (s : List Char) : Option (List Char × List Char) := do
  let (hour, rest) ← readFixed 2 s
  let rest ← stripPrefix? [':'] rest
  let (minute, rest) ← readFixed 2 rest
  let rest ← stripPrefix? [':'] rest
  let (second, rest) ← readFixed 2 rest
  let whole := padded 2 hour ++ ':' :: padded 2 minute ++ ':' :: padded 2 second
  if 23 < hour ∨ 59 < minute ∨ 60 < second then none
  else
    match rest with
    | '.' :: rest =>
      let digits := rest.takeWhile Char.isDigit
      if digits.isEmpty then none
      else return (whole ++ fractionText digits, rest.dropWhile Char.isDigit)
    | rest => return (whole, rest)

def readOffset : List Char → Option (List Char × List Char)
  | 'Z' :: rest | 'z' :: rest => some (['Z'], rest)
  | sign :: rest =>
    if sign == '+' || sign == '-' then do
      let (hour, rest) ← readFixed 2 rest
      let rest ← stripPrefix? [':'] rest
      let (minute, rest) ← readFixed 2 rest
      if 23 < hour ∨ 59 < minute then none
      else return (sign :: padded 2 hour ++ ':' :: padded 2 minute, rest)
    else some ([], sign :: rest)
  | [] => some ([], [])

def readTimeOfDay (date : List Char) (s : List Char) : Option (Toml × List Char) :=
  let alone := some (dateTime (String.ofList date), s)
  match s with
  | mark :: rest =>
    if mark == 'T' || mark == 't' || mark == ' ' then
      match readTime rest with
      | none => alone
      | some (time, rest) => do
        let (offset, rest) ← readOffset rest
        return (dateTime (String.ofList (date ++ 'T' :: time ++ offset)), rest)
    else alone
  | [] => alone

def beginsDate (s : List Char) : Bool :=
  (s.take 4).all Char.isDigit && s[4]? == some '-'

def beginsTime (s : List Char) : Bool :=
  (s.take 2).all Char.isDigit && s[2]? == some ':'

def readNumberOrDate (s : List Char) : Option (Toml × List Char) :=
  if beginsDate s then do
    let (date, rest) ← readDate s
    readTimeOfDay date rest
  else if beginsTime s then do
    let (time, rest) ← readTime s
    return (dateTime (String.ofList time), rest)
  else readNumber s

end Locator.Toml
