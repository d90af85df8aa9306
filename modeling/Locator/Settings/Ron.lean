import Locator.Settings.Loose
import Locator.Text.Blank
import Locator.Text.Hex

/-!
# Settings in RON

Records in parentheses, with or without a name before them, maps in braces and lists in brackets.
A record without field names is a list, and an option is its value or nothing.
-/

namespace Locator.Ron

open Text

/-- The text after a comment of several lines, in which comments may stand. `nested` counts the
inner ones that are open. -/
def afterBlock (nested : Nat) : List Char → Option (List Char)
  | '/' :: '*' :: rest => afterBlock (nested + 1) rest
  | '*' :: '/' :: rest =>
    match nested with
    | 0 => some rest
    | nested + 1 => afterBlock nested rest
  | _ :: rest => afterBlock nested rest
  | [] => none

def skipSpace : Nat → List Char → List Char
  | 0, s => s
  | fuel + 1, s =>
    match s.dropWhile isBlank with
    | '/' :: '/' :: rest => skipSpace fuel (rest.dropWhile (· != '\n'))
    | '/' :: '*' :: rest =>
      ((afterBlock 0 rest).map (skipSpace fuel)).getD ('/' :: '*' :: rest)
    | s => s

def skip (s : List Char) : List Char :=
  skipSpace (s.length + 1) s

/-! ## Scalars -/

def readEscape : List Char → Option (Char × List Char)
  | 'n' :: rest => some ('\n', rest)
  | 'r' :: rest => some ('\r', rest)
  | 't' :: rest => some ('\t', rest)
  | '0' :: rest => some ('\x00', rest)
  | '\\' :: rest => some ('\\', rest)
  | '\x27' :: rest => some ('\x27', rest)
  | '"' :: rest => some ('"', rest)
  | 'x' :: rest => do
    let (n, rest) ← readHex 0 2 rest
    return (← scalar? n, rest)
  | 'u' :: '\x7b' :: rest => do
    let n ← ofBase? 16 (rest.takeWhile (· != '\x7d'))
    return (← scalar? n, (rest.dropWhile (· != '\x7d')).drop 1)
  | _ => none

def readQuoted : Nat → List Char → Option (List Char × List Char)
  | 0, _ | _, [] => none
  | fuel + 1, c :: rest =>
    if c == '"' then some ([], rest)
    else do
      let (c, rest) ← if c == '\\' then readEscape rest else some (c, rest)
      let (text, rest) ← readQuoted fuel rest
      return (c :: text, rest)

/-- Reads a text without escapes up to its closing quote and as many hash signs as stand before
its opening quote. -/
def readRaw (close : List Char) : List Char → Option (List Char × List Char)
  | [] => none
  | c :: rest =>
    if close.isPrefixOf (c :: rest) then some ([], (c :: rest).drop close.length)
    else (readRaw close rest).map fun (text, rest) => (c :: text, rest)

def readText : List Char → Option (String × List Char)
  | '"' :: rest => (readQuoted (rest.length + 1) rest).map fun (t, r) => (String.ofList t, r)
  | 'r' :: rest =>
    let hashes := rest.takeWhile (· == '#')
    match rest.dropWhile (· == '#') with
    | '"' :: rest => (readRaw ('"' :: hashes) rest).map fun (t, r) => (String.ofList t, r)
    | _ => none
  | _ => none

def isNameChar (c : Char) : Bool :=
  c.isAlphanum || c == '_'

def readName (s : List Char) : Option (String × List Char) :=
  match s with
  | c :: _ =>
    if isNameChar c && !c.isDigit then
      some (String.ofList (s.takeWhile isNameChar), s.dropWhile isNameChar)
    else none
  | [] => none

/-- A number without its sign. Underscores in it do not count. -/
def number? (negative : Bool) (s : List Char) : Option Loose :=
  match s.filter (· != '_') with
  | '0' :: 'x' :: digits => do Loose.integer? negative (← ofBase? 16 digits)
  | '0' :: 'o' :: digits => do Loose.integer? negative (← ofBase? 8 digits)
  | '0' :: 'b' :: digits => do Loose.integer? negative (← ofBase? 2 digits)
  | s =>
    if s == "inf".toList then some (.float (.infinite negative))
    else if s == "NaN".toList then some (.float .nan)
    else
      match readDigits s with
      | some n => Loose.integer? negative n
      | none => (Binary64.readUnsigned negative s).map .float

def readNumber (s : List Char) : Option (Loose × List Char) :=
  let (negative, s) := match s with
    | '-' :: rest => (true, rest)
    | '+' :: rest => (false, rest)
    | rest => (false, rest)
  let isPart (c : Char) : Bool := isNameChar c || c == '.'
  let (lexeme, rest) := s.span isPart
  let (lexeme, rest) := match lexeme.getLast?, rest with
    | some e, sign :: more =>
      if (e == 'e' || e == 'E') && (sign == '+' || sign == '-') then
        (lexeme ++ sign :: more.takeWhile isPart, more.dropWhile isPart)
      else (lexeme, rest)
    | _, _ => (lexeme, rest)
  (number? negative lexeme).map fun n => (n, rest)

/-! ## Values -/

def keyName : Loose → Option String
  | .text name => some name
  | _ => none

def beginsField (s : List Char) : Bool :=
  match readName s with
  | some (_, rest) => (skip rest).head? == some ':'
  | none => false

mutual

/-- Reads a value. The fuel bounds the depth of the recursion. -/
def readValue : Nat → List Char → Option (Loose × List Char)
  | 0, _ => none
  | fuel + 1, s =>
    match s, readText s, readName s with
    | '[' :: rest, _, _ => (readItems ']' fuel rest).map fun (items, rest) => (.array items, rest)
    | '\x7b' :: rest, _, _ => (readPairs fuel rest).map fun (es, rest) => (.table es, rest)
    | '(' :: rest, _, _ => readRecord fuel rest
    | _, some (t, rest), _ => some (.text t, rest)
    | s, none, some (name, rest) =>
      if name == "true" then some (.boolean true, rest)
      else if name == "false" then some (.boolean false, rest)
      else if name == "None" then some (.nothing, rest)
      else if name == "inf" || name == "NaN" then readNumber s
      else
        match skip rest with
        | '(' :: rest =>
          if name == "Some" then do
            let (value, rest) ← readValue fuel (skip rest)
            match skip rest with
            | ')' :: rest => return (value, rest)
            | _ => none
          else readRecord fuel rest
        | _ => none
    | s, none, none => readNumber s

def readRecord : Nat → List Char → Option (Loose × List Char)
  | 0, _ => none
  | fuel + 1, s =>
    match skip s with
    | ')' :: rest => some (.nothing, rest)
    | s =>
      if beginsField s then (readFields fuel s).map fun (es, rest) => (.table es, rest)
      else (readItems ')' fuel s).map fun (items, rest) => (.array items, rest)

def readItems (close : Char) : Nat → List Char → Option (List Loose × List Char)
  | 0, _ => none
  | fuel + 1, s =>
    match skip s with
    | [] => none
    | c :: rest =>
      if c == close then some ([], rest)
      else do
        let (item, rest) ← readValue fuel (c :: rest)
        match skip rest with
        | [] => none
        | d :: rest =>
          if d == ',' then
            let (items, rest) ← readItems close fuel rest
            return (item :: items, rest)
          else if d == close then return ([item], rest)
          else none

def readFields : Nat → List Char → Option (List (String × Loose) × List Char)
  | 0, _ => none
  | fuel + 1, s =>
    match skip s with
    | ')' :: rest => some ([], rest)
    | s => do
      let (name, rest) ← readName s
      match skip rest with
      | ':' :: rest =>
        let (value, rest) ← readValue fuel (skip rest)
        match skip rest with
        | ',' :: rest =>
          let (fields, rest) ← readFields fuel rest
          return (if (fields.lookup name).isSome then fields else (name, value) :: fields, rest)
        | ')' :: rest => return ([(name, value)], rest)
        | _ => none
      | _ => none

def readPairs : Nat → List Char → Option (List (String × Loose) × List Char)
  | 0, _ => none
  | fuel + 1, s =>
    match skip s with
    | '\x7d' :: rest => some ([], rest)
    | s => do
      let (key, rest) ← readValue fuel s
      let name ← keyName key
      match skip rest with
      | ':' :: rest =>
        let (value, rest) ← readValue fuel (skip rest)
        match skip rest with
        | ',' :: rest =>
          let (pairs, rest) ← readPairs fuel rest
          return (if (pairs.lookup name).isSome then pairs else (name, value) :: pairs, rest)
        | '\x7d' :: rest => return ([(name, value)], rest)
        | _ => none
      | _ => none

end

def ofChars? (s : List Char) : Option Loose := do
  let (value, rest) ← readValue (2 * s.length + 2) (skip s)
  if (skip rest).isEmpty then return value else none

end Locator.Ron
