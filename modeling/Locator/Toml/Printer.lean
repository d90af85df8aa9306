import Locator.Text.Hex
import Locator.Text.Integer
import Locator.Toml

/-!
# Printing TOML

A string is written in the first of four kinds that holds it without an escape: basic, literal,
basic over several lines, literal over several lines. A string that none of them holds so is
written as a basic one with escapes, over several lines if it has a line break.
-/

namespace Locator.Toml

open Text

/-! ## Strings -/

/-- The length of the longest run of a character. `current` is the length of the run that the
text goes on. -/
def longestRun (c : Char) (current : Nat) : List Char → Nat
  | [] => current
  | d :: rest =>
    if d == c then longestRun c (current + 1) rest else max current (longestRun c 0 rest)

def isControl (c : Char) : Bool :=
  (c.toNat < 0x20 && c != '\t' && c != '\n') || c.toNat == 0x7F

structure Traits where
  control : Bool
  backslash : Bool
  lineBreak : Bool
  singleQuotes : Nat
  doubleQuotes : Nat

def traits (s : List Char) : Traits :=
  { control := s.any isControl
    backslash := s.contains '\\'
    lineBreak := s.contains '\n'
    singleQuotes := longestRun '\x27' 0 s
    doubleQuotes := longestRun '"' 0 s }

/-- The escape of a character in a basic string, if it needs one whatever its neighbours. -/
def escape? (lines : Bool) (c : Char) : Option (List Char) :=
  match c with
  | '\x08' => some ['\\', 'b']
  | '\t' => some ['\\', 't']
  | '\n' => if lines then none else some ['\\', 'n']
  | '\x0c' => some ['\\', 'f']
  | '\r' => some ['\\', 'r']
  | '\\' => some ['\\', '\\']
  | c => if isControl c then some ('\\' :: 'u' :: (hex 4 c.toNat).map Char.toUpper) else none

/-- The body of a basic string. `quotes` is the length of the run of quotes before the text, and
over several lines two quotes in a row may stand as they are. -/
def basicBody (lines : Bool) (quotes : Nat) : List Char → List Char
  | [] => []
  | c :: rest =>
    if c == '"' then
      if lines && quotes < 2 then '"' :: basicBody lines (quotes + 1) rest
      else '\\' :: '"' :: basicBody lines 0 rest
    else (escape? lines c).getD [c] ++ basicBody lines 0 rest

def openingBreak (t : Traits) : List Char :=
  if t.lineBreak then ['\n'] else []

def fence (quote : Char) : List Char :=
  List.replicate 3 quote

def quote (s : List Char) : List Char :=
  let t := traits s
  let basicLines := fence '"' ++ openingBreak t ++ basicBody true 0 s ++ fence '"'
  if !t.control && !t.backslash && t.doubleQuotes == 0 && !t.lineBreak then
    '"' :: basicBody false 0 s ++ ['"']
  else if !t.control && t.singleQuotes == 0 && !t.lineBreak then '\x27' :: s ++ ['\x27']
  else if !t.control && !t.backslash && t.doubleQuotes ≤ 2 then basicLines
  else if !t.control && t.singleQuotes ≤ 2 then
    fence '\x27' ++ openingBreak t ++ s ++ fence '\x27'
  else if t.lineBreak then basicLines
  else '"' :: basicBody false 0 s ++ ['"']

/-! ## Lines -/

def pairLine (key : String) (value : List Char) : List Char :=
  key.toList ++ [' ', '=', ' '] ++ value ++ ['\n']

def headerLine (key : String) : List Char :=
  '[' :: key.toList ++ [']', '\n']

/-- A list of strings: on one line if it has at most one item, else each item on its own line. -/
def quoteAll : List String → List Char
  | [] => ['[', ']']
  | [item] => '[' :: quote item.toList ++ [']']
  | items =>
    let line (item : String) := "    ".toList ++ quote item.toList ++ [',', '\n']
    '[' :: '\n' :: items.flatMap line ++ [']']

def largest : Nat := UInt64.size / 2 - 1

def natural? (n : Nat) : Option (List Char) :=
  if n ≤ largest then some (decimal n) else none

end Locator.Toml
