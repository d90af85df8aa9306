import Locator.Json.Reader
import Locator.Settings.Loose
import Locator.Text.Blank
import Locator.Text.Cut

/-!
# Settings in JSON5

JSON with comments, with commas after the last item, with keys that need no quotes, with texts in
single quotes, and with more ways to write a number.
-/

namespace Locator.Json5

open Text

def isLineEnd (c : Char) : Bool :=
  c == '\n' || c == '\r' || c == '\u2028' || c == '\u2029'

def isSpace (c : Char) : Bool :=
  (isBlank c && c != '\u0085') || c == '\ufeff'

def afterBlock : List Char → Option (List Char)
  | [] => none
  | '*' :: '/' :: rest => some rest
  | _ :: rest => afterBlock rest

/-- The text after its leading blanks and comments. The fuel bounds its length. -/
def skipSpace : Nat → List Char → List Char
  | 0, s => s
  | fuel + 1, s =>
    match s.dropWhile isSpace with
    | '/' :: '/' :: rest => skipSpace fuel (rest.dropWhile (!isLineEnd ·))
    | '/' :: '*' :: rest => ((afterBlock rest).map (skipSpace fuel)).getD ('/' :: '*' :: rest)
    | s => s

def skip (s : List Char) : List Char :=
  skipSpace (s.length + 1) s

/-! ## Texts -/

def simpleEscape? (c : Char) : Option Char :=
  match c with
  | 'b' => some '\x08'
  | 'f' => some '\x0c'
  | 'n' => some '\n'
  | 'r' => some '\r'
  | 't' => some '\t'
  | 'v' => some '\x0b'
  | '0' => some '\x00'
  | c => if c.isDigit then none else some c

def readUnits (unit : Nat) (rest : List Char) : Option (Char × List Char) :=
  if Json.isHighSurrogate unit then
    match rest with
    | '\\' :: 'u' :: rest => do
      let (second, rest) ← readHex 0 4 rest
      if Json.isLowSurrogate second then return (← Json.ofPair? unit second, rest) else none
    | _ => none
  else (scalar? unit).map fun c => (c, rest)

/-- Reads what follows a backslash; a line break after it stands for nothing. -/
def readEscape : List Char → Option (Option Char × List Char)
  | 'x' :: rest => do
    let (n, rest) ← readHex 0 2 rest
    return (← scalar? n, rest)
  | 'u' :: rest => do
    let (unit, rest) ← readHex 0 4 rest
    let (c, rest) ← readUnits unit rest
    return (c, rest)
  | '\r' :: '\n' :: rest => some (none, rest)
  | c :: rest => if isLineEnd c then some (none, rest) else (simpleEscape? c).map (some ·, rest)
  | [] => none

def readQuoted (quote : Char) : Nat → List Char → Option (List Char × List Char)
  | 0, _ | _, [] => none
  | fuel + 1, c :: rest =>
    if c == quote then some ([], rest)
    else if c == '\n' || c == '\r' then none
    else do
      let (c, rest) ← if c == '\\' then readEscape rest else some (some c, rest)
      let (text, rest) ← readQuoted quote fuel rest
      return (c.toList ++ text, rest)

def isNameChar (c : Char) : Bool :=
  c.isAlphanum || c == '$' || c == '_' || (0x80 ≤ c.toNat && !isSpace c)

def readKey (s : List Char) : Option (String × List Char) :=
  match s with
  | '"' :: rest => (readQuoted '"' (rest.length + 1) rest).map fun (t, r) => (String.ofList t, r)
  | '\x27' :: rest =>
    (readQuoted '\x27' (rest.length + 1) rest).map fun (t, r) => (String.ofList t, r)
  | c :: _ =>
    if isNameChar c && !c.isDigit then
      some (String.ofList (s.takeWhile isNameChar), s.dropWhile isNameChar)
    else none
  | [] => none

/-! ## Numbers -/

def isDecimal (s : List Char) : Bool :=
  match s with
  | '0' :: d :: _ => !d.isDigit
  | c :: _ => c.isDigit || c == '.'
  | [] => false

def number? (negative : Bool) (s : List Char) : Option Loose :=
  match s with
  | '0' :: 'x' :: digits | '0' :: 'X' :: digits => do
    Loose.integer? negative (← ofBase? 16 digits)
  | s =>
    if s == "Infinity".toList then some (.float (.infinite negative))
    else if s == "NaN".toList then some (.float .nan)
    else if !isDecimal s then none
    else
      match readDigits s with
      | some n => Loose.integer? negative n
      | none => (Binary64.readUnsigned negative s).map .float

def readNumber (s : List Char) : Option (Loose × List Char) :=
  let (negative, s) := match s with
    | '-' :: rest => (true, rest)
    | '+' :: rest => (false, rest)
    | rest => (false, rest)
  let isPart (c : Char) : Bool := c.isAlphanum || c == '.'
  let (lexeme, rest) := s.span isPart
  let afterExponent := match lexeme.getLast?, rest with
    | some e, sign :: more =>
      (e == 'e' || e == 'E') && (sign == '+' || sign == '-') && more.head?.any Char.isDigit
        && !"0x".toList.isPrefixOf lexeme
    | _, _ => false
  let (lexeme, rest) :=
    if afterExponent then
      let (digits, after) := (rest.drop 1).span Char.isDigit
      (lexeme ++ rest.take 1 ++ digits, after)
    else (lexeme, rest)
  (number? negative lexeme).map fun n => (n, rest)

/-! ## Values -/

mutual

/-- Reads a value. The fuel bounds the depth of the recursion. -/
def readValue : Nat → List Char → Option (Loose × List Char)
  | 0, _ => none
  | fuel + 1, s =>
    match s with
    | '[' :: rest => (readItems fuel rest).map fun (items, rest) => (.array items, rest)
    | '\x7b' :: rest => (readMembers fuel rest).map fun (es, rest) => (.table es, rest)
    | '"' :: _ | '\x27' :: _ => (readKey s).map fun (t, rest) => (.text t, rest)
    | 'n' :: 'u' :: 'l' :: 'l' :: rest => some (.nothing, rest)
    | 't' :: 'r' :: 'u' :: 'e' :: rest => some (.boolean true, rest)
    | 'f' :: 'a' :: 'l' :: 's' :: 'e' :: rest => some (.boolean false, rest)
    | s => readNumber s

def readItems : Nat → List Char → Option (List Loose × List Char)
  | 0, _ => none
  | fuel + 1, s =>
    match skip s with
    | ']' :: rest => some ([], rest)
    | s => do
      let (item, rest) ← readValue fuel s
      match skip rest with
      | ',' :: rest =>
        let (items, rest) ← readItems fuel rest
        return (item :: items, rest)
      | ']' :: rest => return ([item], rest)
      | _ => none

/-- Reads the members of an object and its closing brace; of members with the same key the last
one stays. -/
def readMembers : Nat → List Char → Option (List (String × Loose) × List Char)
  | 0, _ => none
  | fuel + 1, s =>
    match skip s with
    | '\x7d' :: rest => some ([], rest)
    | s => do
      let (key, rest) ← readKey s
      match skip rest with
      | ':' :: rest =>
        let (value, rest) ← readValue fuel (skip rest)
        match skip rest with
        | ',' :: rest =>
          let (members, rest) ← readMembers fuel rest
          return (if (members.lookup key).isSome then members else (key, value) :: members, rest)
        | '\x7d' :: rest => return ([(key, value)], rest)
        | _ => none
      | _ => none

end

def ofChars? (s : List Char) : Option Loose := do
  let (value, rest) ← readValue (2 * s.length + 2) (skip s)
  if (skip rest).isEmpty then return value else none

end Locator.Json5
