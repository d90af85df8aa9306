import Locator.Text.Cut
import Locator.Text.Hex

/-!
# Quoted text in TOML

There are four kinds of strings: basic ones in double quotes, where a backslash escapes, and
literal ones in single quotes, where nothing does; both may be written over several lines between
three quotes. A line break right after the opening quotes does not count.
-/

namespace Locator.Toml

open Text

def isSpace (c : Char) : Bool :=
  c == ' ' || c == '\t'

def skipSpace (s : List Char) : List Char :=
  s.dropWhile isSpace

def isPlain (c : Char) : Bool :=
  c == '\t' || (0x20 ≤ c.toNat && c.toNat != 0x7F)

def lineBreak? : List Char → Option (List Char)
  | '\n' :: rest => some rest
  | '\r' :: '\n' :: rest => some rest
  | _ => none

def skipBlank : List Char → List Char
  | ' ' :: rest | '\t' :: rest | '\n' :: rest | '\r' :: '\n' :: rest => skipBlank rest
  | s => s

/-- What a text and the text after it were read as. -/
abbrev Reading := Option (String × List Char)

def finish (read rest : List Char) : Reading :=
  some (String.ofList read.reverse, rest)

def readEscape : List Char → Option (Char × List Char)
  | '"' :: rest => some ('"', rest)
  | '\\' :: rest => some ('\\', rest)
  | 'b' :: rest => some ('\x08', rest)
  | 'f' :: rest => some ('\x0c', rest)
  | 'n' :: rest => some ('\n', rest)
  | 'r' :: rest => some ('\r', rest)
  | 't' :: rest => some ('\t', rest)
  | 'u' :: rest => codePoint 4 rest
  | 'U' :: rest => codePoint 8 rest
  | _ => none
where
  codePoint (digits : Nat) (s : List Char) : Option (Char × List Char) := do
    let (n, rest) ← readHex 0 digits s
    return (← scalar? n, rest)

def readBasic (read : List Char) : Nat → List Char → Reading
  | 0, _ | _, [] => none
  | fuel + 1, c :: rest =>
    if c == '"' then finish read rest
    else if c == '\\' then do
      let (c, rest) ← readEscape rest
      readBasic (c :: read) fuel rest
    else if isPlain c then readBasic (c :: read) fuel rest
    else none

def readLiteral (read : List Char) : List Char → Reading
  | [] => none
  | c :: rest =>
    if c == '\x27' then finish read rest
    else if isPlain c then readLiteral (c :: read) rest
    else none

/-- Reads the quotes that close a string of several lines, after the first three of them: up to
two more belong to the string. -/
def closeLines (quote : Char) (read : List Char) : List Char → Reading
  | a :: b :: rest =>
    if a == quote && b == quote then finish (quote :: quote :: read) rest
    else if a == quote then finish (quote :: read) (b :: rest)
    else finish read (a :: b :: rest)
  | [a] => if a == quote then finish (quote :: read) [] else finish read [a]
  | [] => finish read []

/-- Reads a basic string of several lines up to its closing quotes. A backslash at the end of a
line takes the blanks after it away. The fuel bounds the length of the text. -/
def readBasicLines (read : List Char) : Nat → List Char → Reading
  | 0, _ | _, [] => none
  | fuel + 1, c :: rest =>
    if c == '"' then
      match rest with
      | '"' :: '"' :: rest => closeLines '"' read rest
      | rest => readBasicLines ('"' :: read) fuel rest
    else if c == '\\' then
      match lineBreak? (skipSpace rest) with
      | some rest => readBasicLines read fuel (skipBlank rest)
      | none => do
        let (c, rest) ← readEscape rest
        readBasicLines (c :: read) fuel rest
    else if isPlain c then readBasicLines (c :: read) fuel rest
    else
      match lineBreak? (c :: rest) with
      | some rest => readBasicLines ('\n' :: read) fuel rest
      | none => none

def readLiteralLines (read : List Char) : Nat → List Char → Reading
  | 0, _ | _, [] => none
  | fuel + 1, c :: rest =>
    if c == '\x27' then
      match rest with
      | '\x27' :: '\x27' :: rest => closeLines '\x27' read rest
      | rest => readLiteralLines ('\x27' :: read) fuel rest
    else if isPlain c then readLiteralLines (c :: read) fuel rest
    else
      match lineBreak? (c :: rest) with
      | some rest => readLiteralLines ('\n' :: read) fuel rest
      | none => none

def skipFirstBreak (s : List Char) : List Char :=
  (lineBreak? s).getD s

def readLineString : List Char → Reading
  | '"' :: rest => readBasic [] (rest.length + 1) rest
  | '\x27' :: rest => readLiteral [] rest
  | _ => none

def readString : List Char → Reading
  | '"' :: '"' :: '"' :: rest =>
    let body := skipFirstBreak rest
    readBasicLines [] (body.length + 1) body
  | '\x27' :: '\x27' :: '\x27' :: rest =>
    let body := skipFirstBreak rest
    readLiteralLines [] (body.length + 1) body
  | s => readLineString s

end Locator.Toml
