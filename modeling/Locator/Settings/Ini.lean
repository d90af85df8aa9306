import Locator.Settings.Loose
import Locator.Text.Blank
import Locator.Text.Hex

/-!
# Settings in INI

A file of lines: headers in brackets, keys with values after an equals sign or a colon, and
comments. Every value is a text. A section is a table; of sections with the same name the last one
stays, and what stands before the first header belongs to the file itself.
-/

namespace Locator.Ini

open Text

def isSpace (c : Char) : Bool :=
  c == ' ' || c == '\t' || c == '\n' || c == '\r'

def isLineEnd (c : Char) : Bool :=
  c == '\n' || c == '\r'

def readEscape : List Char → Option (Char × List Char)
  | '0' :: rest => some ('\x00', rest)
  | 'a' :: rest => some ('\x07', rest)
  | 'b' :: rest => some ('\x08', rest)
  | 't' :: rest => some ('\t', rest)
  | 'r' :: rest => some ('\r', rest)
  | 'n' :: rest => some ('\n', rest)
  | 'x' :: rest => do
    let (n, rest) ← readHex 0 4 rest
    return (← scalar? n, rest)
  | c :: rest => some (c, rest)
  | [] => none

/-- Reads up to a character that ends the text, and resolves escapes. The end of the file may end
it or not. The fuel bounds the length of the text. -/
def readUntil (ends : Char → Bool) (atEnd : Bool) : Nat → List Char → Option (List Char × List Char)
  | _, [] => if atEnd then some ([], []) else none
  | 0, _ => none
  | fuel + 1, c :: rest =>
    if ends c then some ([], c :: rest)
    else do
      let (c, rest) ← if c == '\\' then readEscape rest else some (c, rest)
      let (text, rest) ← readUntil ends atEnd fuel rest
      return (c :: text, rest)

def readRest (s : List Char) : Option (List Char × List Char) :=
  (readUntil isLineEnd true s.length s).map fun (text, rest) => (trim text, rest)

def readValue (s : List Char) : Option (List Char × List Char) :=
  match s.dropWhile fun c => c == ' ' || c == '\t' with
  | [] => some ([], [])
  | c :: rest =>
    if c == '"' || c == '\x27' then do
      let (quoted, rest) ← readUntil (· == c) false rest.length rest
      let (more, rest) ← readRest (rest.drop 1)
      return (quoted ++ more, rest)
    else readRest (c :: rest)

/-- The sections of a file. The one without a name stands before the first header. -/
abbrev Sections := List (Option String × List (String × Loose))

def addPair (key value : List Char) : Sections → Sections
  | [] => [(none, [(String.ofList key, .text (String.ofList value))])]
  | [(name, pairs)] => [(name, pairs ++ [(String.ofList key, .text (String.ofList value))])]
  | first :: rest => first :: addPair key value rest

/-- Reads a file from a place where a key, a header or a comment may begin, or an equals sign if a
key stands before it. The fuel bounds the number of steps. -/
def readSections (sections : Sections) (key : List Char) : Nat → List Char → Option Sections
  | 0, _ => none
  | fuel + 1, s =>
    match s.dropWhile isSpace with
    | [] => some sections
    | c :: rest =>
      if c == ';' || c == '#' then
        readSections sections key fuel (rest.dropWhile (· != '\n'))
      else if c == '[' then do
        let (name, rest) ← readUntil (· == ']') false rest.length rest
        readSections (sections ++ [(some (String.ofList (trim name)), [])]) key fuel (rest.drop 1)
      else if c == '=' || c == ':' then
        if key.isEmpty then none
        else do
          let (value, rest) ← readValue rest
          readSections (addPair key value sections) [] fuel rest
      else do
        let isSign (c : Char) : Bool := c == '=' || c == ':'
        let (key, rest) ← readUntil isSign false (rest.length + 1) (c :: rest)
        readSections sections (trim key) fuel rest

def entries (sections : Sections) : List (String × Loose) :=
  sections.foldl (fun found (name, pairs) =>
    let table := pairs.foldl (fun table (key, value) => Loose.putEntry key value table) []
    match name with
    | none => table.foldl (fun found (key, value) => Loose.putEntry key value found) found
    | some name => Loose.putEntry name (.table table) found) []

def ofChars? (s : List Char) : Option Loose :=
  (readSections [] [] (2 * s.length + 2) s).map fun sections => .table (entries sections)

end Locator.Ini
