import Locator.Settings.Loose
import Locator.Text.Blank
import Locator.Text.Hex

/-!
# Settings in YAML

One document of block mappings and block sequences, with plain and quoted scalars and flow
collections in them. Indentation says what belongs together. Anchors, tags and block scalars have
no use in settings, and a file that has them is refused.
-/

namespace Locator.Yaml

open Text

/-! ## Scalars -/

def resolve (s : List Char) : Loose :=
  let number := match s with
    | '0' :: 'x' :: digits => do Loose.integer? false (← ofBase? 16 digits)
    | '0' :: 'o' :: digits => do Loose.integer? false (← ofBase? 8 digits)
    | s => (readInt64 s).map Loose.integer
  let text := String.ofList s
  match number with
  | some n => n
  | none =>
    if ["", "~", "null"].contains text then .nothing
    else if text == "true" then .boolean true
    else if text == "false" then .boolean false
    else if [".inf", ".Inf", ".INF", "+.inf", "+.Inf", "+.INF"].contains text then
      .float (.infinite false)
    else if ["-.inf", "-.Inf", "-.INF"].contains text then .float (.infinite true)
    else if [".nan", ".NaN", ".NAN"].contains text then .float .nan
    else
      match if s.any Char.isDigit then Binary64.read? s else none with
      | some x => .float x
      | none => .text text

def simpleEscape? : Char → Option Char
  | '0' => some '\x00'
  | 'a' => some '\x07'
  | 'b' => some '\x08'
  | 't' | '\t' => some '\t'
  | 'n' => some '\n'
  | 'v' => some '\x0b'
  | 'f' => some '\x0c'
  | 'r' => some '\r'
  | 'e' => some '\x1b'
  | ' ' => some ' '
  | '"' => some '"'
  | '/' => some '/'
  | '\\' => some '\\'
  | 'N' => some '\u0085'
  | '_' => some '\u00a0'
  | 'L' => some '\u2028'
  | 'P' => some '\u2029'
  | _ => none

def readEscape : List Char → Option (Char × List Char)
  | [] => none
  | c :: rest =>
    let width := if c == 'x' then 2 else if c == 'u' then 4 else if c == 'U' then 8 else 0
    if width == 0 then (simpleEscape? c).map fun c => (c, rest)
    else do
      let (n, rest) ← readHex 0 width rest
      return (← scalar? n, rest)

def readDouble : Nat → List Char → Option (List Char × List Char)
  | 0, _ | _, [] => none
  | fuel + 1, c :: rest =>
    if c == '"' then some ([], rest)
    else do
      let (c, rest) ← if c == '\\' then readEscape rest else some (c, rest)
      let (text, rest) ← readDouble fuel rest
      return (c :: text, rest)

/-- Reads a text in single quotes up to its closing quote; a quote in it is written twice. -/
def readSingle : List Char → Option (List Char × List Char)
  | [] => none
  | '\x27' :: '\x27' :: rest => (readSingle rest).map fun (text, rest) => ('\x27' :: text, rest)
  | '\x27' :: rest => some ([], rest)
  | c :: rest => (readSingle rest).map fun (text, rest) => (c :: text, rest)

def readQuoted : List Char → Option (List Char × List Char)
  | '"' :: rest => readDouble (rest.length + 1) rest
  | '\x27' :: rest => readSingle rest
  | _ => none

def isIndicator (c : Char) : Bool :=
  "&*!|>%@\x60,[]\x7b\x7d#\"\x27".toList.contains c

/-! ## Flow collections -/

def skipSpace (s : List Char) : List Char :=
  s.dropWhile isBlank

def readFlowPlain : List Char → List Char × List Char
  | [] => ([], [])
  | c :: rest =>
    let ends := match c, rest with
      | ':', [] => true
      | ':', d :: _ => isBlank d || ",[]\x7b\x7d".toList.contains d
      | c, _ => ",[]\x7b\x7d".toList.contains c
    if ends then ([], c :: rest)
    else
      let (text, rest) := readFlowPlain rest
      (c :: text, rest)

def readFlowScalar (s : List Char) : Option (Loose × List Char) :=
  match s with
  | '"' :: _ | '\x27' :: _ => (readQuoted s).map fun (t, rest) => (.text (String.ofList t), rest)
  | s =>
    let (text, rest) := readFlowPlain s
    let text := trimEnd text
    if text.head?.any isIndicator then none else some (resolve text, rest)

def keyName (key : Loose) : Option String :=
  match key with
  | .text name => some name
  | .integer _ | .boolean _ | .float _ => key.asText?
  | _ => none

mutual

/-- Reads a value in a flow collection. The fuel bounds the depth of the recursion. -/
def readFlow : Nat → List Char → Option (Loose × List Char)
  | 0, _ => none
  | fuel + 1, s =>
    match s with
    | '[' :: rest => (readFlowItems fuel rest).map fun (items, rest) => (.array items, rest)
    | '\x7b' :: rest => (readFlowPairs [] fuel rest).map fun (es, rest) => (.table es, rest)
    | s => readFlowScalar s

def readFlowItems : Nat → List Char → Option (List Loose × List Char)
  | 0, _ => none
  | fuel + 1, s =>
    match skipSpace s with
    | ']' :: rest => some ([], rest)
    | s => do
      let (item, rest) ← readFlow fuel s
      match skipSpace rest with
      | ',' :: rest =>
        let (items, rest) ← readFlowItems fuel rest
        return (item :: items, rest)
      | ']' :: rest => return ([item], rest)
      | _ => none

def readFlowPairs (read : List (String × Loose)) :
    Nat → List Char → Option (List (String × Loose) × List Char)
  | 0, _ => none
  | fuel + 1, s =>
    match skipSpace s with
    | '\x7d' :: rest => some (read, rest)
    | s => do
      let (key, rest) ← readFlowScalar s
      let name ← keyName key
      if (read.lookup name).isSome then none
      else
        let (value, rest) ← match skipSpace rest with
          | ':' :: rest => readFlow fuel (skipSpace rest)
          | rest => some (.nothing, rest)
        let read := read ++ [(name, value)]
        match skipSpace rest with
        | ',' :: rest => readFlowPairs read fuel rest
        | '\x7d' :: rest => return (read, rest)
        | _ => none

end

/-! ## Lines -/

/-- A line that is not blank: its indentation and what follows it. -/
structure Line where
  indent : Nat
  text : List Char

def isComment : List Char → Bool
  | [] | '#' :: _ => true
  | _ => false

/-- The lines of a text that are neither blank nor comments. -/
def linesOf (s : List Char) : List Line :=
  (s.splitOn '\n').filterMap fun line =>
    let text := line.dropWhile (· == ' ')
    if isComment (skipSpace text) then none
    else some { indent := line.length - text.length, text := trimEnd text }

def beforeComment : List Char → List Char
  | [] => []
  | c :: '#' :: rest =>
    if isBlank c then [] else c :: beforeComment ('#' :: rest)
  | c :: rest => c :: beforeComment rest

def hasColon : List Char → Bool
  | [] => false
  | [c] => c == ':'
  | c :: d :: rest => (c == ':' && isBlank d) || hasColon (d :: rest)

def isItem (text : List Char) : Bool :=
  match text with
  | ['-'] => true
  | '-' :: c :: _ => isBlank c
  | _ => false

def readPlainKey : List Char → Option (List Char × List Char)
  | [] => none
  | [':'] => some ([], [])
  | c :: rest =>
    if c == ':' && rest.head?.all isBlank then some ([], rest)
    else (readPlainKey rest).map fun (key, rest) => (c :: key, rest)

def readKey (text : List Char) : Option (String × List Char) :=
  match readQuoted text with
  | some (key, rest) =>
    match skipSpace rest with
    | ':' :: rest => if rest.head?.all isBlank then some (String.ofList key, rest) else none
    | _ => none
  | none => do
    let (key, rest) ← readPlainKey text
    let key := trimEnd key
    if key.head?.any isIndicator then none
    else return (← keyName (resolve key), rest)

/-- The lines that go on a scalar: those with a deeper indentation. -/
def spanDeeper (indent : Nat) (lines : List Line) : List Line × List Line :=
  lines.span fun line => indent < line.indent

/-- A text over several lines, with a space in the place of each line break. -/
def joined (text : List Char) (lines : List Line) : List Char :=
  lines.foldl (fun text line => text ++ ' ' :: line.text) text

/-- Reads a scalar or a flow collection that begins on a line and goes on over deeper lines. -/
def readInline (text : List Char) (more : List Line) : Option Loose :=
  let whole := joined text more
  match whole with
  | '[' :: _ | '\x7b' :: _ =>
    match readFlow (2 * whole.length + 2) whole with
    | some (value, rest) => if isComment (skipSpace rest) then some value else none
    | none => none
  | '"' :: _ | '\x27' :: _ =>
    match readQuoted whole with
    | some (t, rest) =>
      if isComment (skipSpace rest) then some (.text (String.ofList t)) else none
    | none => none
  | _ =>
    let plain := trimEnd (joined (beforeComment text)
      (more.map fun line => { line with text := beforeComment line.text }))
    if plain.head?.any isIndicator || hasColon plain then none else some (resolve plain)

mutual

/-- Reads the node that the next line begins, which is indented at least by `floor`. The fuel
bounds the depth of the recursion. -/
def readNode (floor : Nat) : Nat → List Line → Option (Loose × List Line)
  | 0, _ => none
  | _, [] => some (.nothing, [])
  | fuel + 1, line :: lines =>
    if line.indent < floor then some (.nothing, line :: lines)
    else if isItem line.text then
      (readItems line.indent fuel (line :: lines)).map fun (items, rest) => (.array items, rest)
    else if (readKey line.text).isSome then
      (readPairs line.indent [] fuel (line :: lines)).map fun (es, rest) => (.table es, rest)
    else do
      let (more, rest) := spanDeeper line.indent lines
      return (← readInline line.text more, rest)

def readItems (indent : Nat) : Nat → List Line → Option (List Loose × List Line)
  | 0, _ => none
  | _, [] => some ([], [])
  | fuel + 1, line :: lines =>
    if line.indent == indent && isItem line.text then do
      let rest := line.text.drop 1
      let text := skipSpace rest
      let inner := indent + 1 + (rest.length - text.length)
      let lines := if isComment text then lines else ⟨inner, text⟩ :: lines
      let (item, lines) ← readNode (indent + 1) fuel lines
      let (items, lines) ← readItems indent fuel lines
      return (item :: items, lines)
    else if indent < line.indent then none
    else some ([], line :: lines)

def readPairs (indent : Nat) (read : List (String × Loose)) :
    Nat → List Line → Option (List (String × Loose) × List Line)
  | 0, _ => none
  | _, [] => some (read, [])
  | fuel + 1, line :: lines =>
    if line.indent == indent then do
      let (key, rest) ← readKey line.text
      let text := skipSpace rest
      let (value, lines) ←
        if isComment text then
          match lines with
          | next :: _ =>
            if next.indent == indent && isItem next.text then
              (readItems indent fuel lines).map fun (items, rest) => (.array items, rest)
            else readNode (indent + 1) fuel lines
          | [] => some (.nothing, [])
        else
          let (more, lines) := spanDeeper indent lines
          (readInline text more).map fun value => (value, lines)
      if (read.lookup key).isSome then none
      else readPairs indent (read ++ [(key, value)]) fuel lines
    else if indent < line.indent then none
    else some (read, line :: lines)

end

/-! ## Documents -/

def isMark (mark : String) (line : Line) : Bool :=
  line.indent == 0 && line.text == mark.toList

/-- Reads a file of one document. An empty file is an empty table. -/
def ofChars? (s : List Char) : Option Loose :=
  let lines := linesOf s
  let lines := match lines with
    | first :: rest => if isMark "---" first then rest else first :: rest
    | [] => []
  let lines := lines.takeWhile fun line => !isMark "..." line
  if lines.isEmpty then some (.table [])
  else if lines.any (isMark "---") then none
  else
    match readNode 0 (2 * s.length + 2) lines with
    | some (value, []) => some value
    | _ => none

end Locator.Yaml
