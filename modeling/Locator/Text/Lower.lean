import Locator.Text.CaseTable

/-!
# Lowercase

The full lowercase mapping of Unicode, without regard to language. Two letters are special: `İ`
becomes an `i` with a dot above it, and `Σ` becomes `ς` at the end of a word and `σ` elsewhere.
A `Σ` ends a word when a cased letter precedes it and none follows it, `Case_Ignorable`
characters between them set aside.
-/

namespace Locator.Text

/-- The code point lies in one of the ranges, which are in ascending order. -/
def inRanges (n : Nat) : List (Nat × Nat) → Bool
  | [] => false
  | (first, last) :: rest => if n < first then false else n ≤ last || inRanges n rest

def isCased (c : Char) : Bool :=
  inRanges c.toNat casedRanges

def isCaseIgnorable (c : Char) : Bool :=
  inRanges c.toNat caseIgnorableRanges

/-- The lowercase code point that the first fitting run gives, or the code point itself. -/
def lowerCode (n : Nat) : List LowerRun → Nat
  | [] => n
  | run :: rest =>
    if n < run.first then n
    else if run.last < n then lowerCode n rest
    else if (n - run.first) % run.stride == 0 then run.image + (n - run.first)
    else n

def lowerChar (c : Char) : List Char :=
  if c == 'İ' then ['i', Char.ofNat 0x307] else [Char.ofNat (lowerCode c.toNat lowerRuns)]

/-- The first character that is not `Case_Ignorable` is a cased letter. -/
def startsCased (s : List Char) : Bool :=
  match s.dropWhile isCaseIgnorable with
  | [] => false
  | c :: _ => isCased c

/-- The lowercase of a text that follows another; `afterCased` says whether the last character
before it that is not `Case_Ignorable` is a cased letter. -/
def lowerFrom (afterCased : Bool) : List Char → List Char
  | [] => []
  | c :: cs =>
    let image :=
      if c == 'Σ' then [if afterCased && !startsCased cs then 'ς' else 'σ'] else lowerChar c
    image ++ lowerFrom (if isCaseIgnorable c then afterCased else isCased c) cs

def lower (s : List Char) : List Char :=
  lowerFrom false s

end Locator.Text

def Locator.lowercase (s : String) : String :=
  String.ofList (Locator.Text.lower s.toList)
