import Locator.Toml.Quoted
import Locator.Toml.Scalar
import Locator.Toml.Section

/-!
# Reading TOML

A document is a sequence of lines: keys with values, and headers that open a table or add one to
an array of tables. A key is a word or a quoted text, or several of them with dots between.
-/

namespace Locator.Toml

/-! ## Blanks and comments -/

def skipComment : List Char → List Char
  | '#' :: rest => rest.dropWhile isPlain
  | s => s

def endLine (s : List Char) : Option (List Char) :=
  match skipComment (skipSpace s) with
  | [] => some []
  | s => lineBreak? s

def skipLines : Nat → List Char → List Char
  | 0, s => s
  | fuel + 1, s =>
    match skipBlank s with
    | '#' :: rest => skipLines fuel (rest.dropWhile isPlain)
    | s => s

/-! ## Keys -/

def isKeyChar (c : Char) : Bool :=
  c.isAlphanum || c == '_' || c == '-'

def readKeyPart (s : List Char) : Reading :=
  match s with
  | '"' :: _ | '\x27' :: _ => readLineString s
  | s =>
    let word := s.takeWhile isKeyChar
    if word.isEmpty then none else some (String.ofList word, s.dropWhile isKeyChar)

/-- Reads a key: the parts before the last, and the last. The fuel bounds the number of parts. -/
def readKey : Nat → List Char → Option ((List String × String) × List Char)
  | 0, _ => none
  | fuel + 1, s => do
    let (part, rest) ← readKeyPart (skipSpace s)
    match skipSpace rest with
    | '.' :: rest =>
      let ((path, key), rest) ← readKey fuel rest
      return ((part :: path, key), rest)
    | rest => return (([], part), rest)

/-! ## Values -/

mutual

/-- Reads a value at the front of a text. `room` is the number of arrays and inline tables that
may still be opened; the fuel bounds the depth of the recursion. -/
def readValue (room : Nat) : Nat → List Char → Option (Toml × List Char)
  | 0, _ => none
  | fuel + 1, s =>
    match s with
    | '"' :: _ | '\x27' :: _ => (readString s).map fun (text, rest) => (string text, rest)
    | 't' :: 'r' :: 'u' :: 'e' :: rest => some (boolean true, rest)
    | 'f' :: 'a' :: 'l' :: 's' :: 'e' :: rest => some (boolean false, rest)
    | '[' :: rest =>
      match room with
      | 0 => none
      | room + 1 => (readItems room fuel rest).map fun (items, rest) => (array items, rest)
    | '\x7b' :: rest =>
      match room with
      | 0 => none
      | room + 1 =>
        match skipSpace rest with
        | '\x7d' :: rest => some (table [], rest)
        | rest => (readPairs room {} fuel rest).map fun (s, rest) => (s.freeze, rest)
    | s => readNumberOrDate s

def readItems (room : Nat) : Nat → List Char → Option (List Toml × List Char)
  | 0, _ => none
  | fuel + 1, s =>
    match skipLines (s.length + 1) s with
    | ']' :: rest => some ([], rest)
    | s => do
      let (item, rest) ← readValue room fuel s
      match skipLines (rest.length + 1) rest with
      | ',' :: rest =>
        let (items, rest) ← readItems room fuel rest
        return (item :: items, rest)
      | ']' :: rest => return ([item], rest)
      | _ => none

def readPairs (room : Nat) (read : Section) : Nat → List Char → Option (Section × List Char)
  | 0, _ => none
  | fuel + 1, s => do
    let ((path, key), rest) ← readKey (s.length + 1) s
    match rest with
    | '=' :: rest =>
      let (value, rest) ← readValue room fuel (skipSpace rest)
      let read ← read.insert path key value
      match skipSpace rest with
      | ',' :: rest => readPairs room read fuel rest
      | '\x7d' :: rest => return (read, rest)
      | _ => none
    | _ => none

end

/-! ## Documents -/

/-- A document up to some line: the tables that are finished, and the one that the last header
opened, with its path. -/
structure Draft where
  root : Section := {}
  current : Section := {}
  /-- The path to the table that is open; nothing for the root. -/
  path : Option (List String × String) := none
  /-- The table that is open is one of an array. -/
  element : Bool := false

namespace Draft

def close (d : Draft) : Option Section :=
  match d.path with
  | none => some d.current
  | some (path, key) =>
    d.root.modify false (fun parent =>
      if d.element then
        match parent.get? key with
        | none => some (parent.set key (.tables [d.current.entries]))
        | some (.tables elements) =>
          some (parent.set key (.tables (elements ++ [d.current.entries])))
        | some _ => none
      else some (parent.set key d.current.entry)) path

def parentOf (root : Section) : List String → Option Section
  | [] => some root
  | key :: path =>
    match root.get? key with
    | none => some { implicit := true }
    | some (.value _) => none
    | some (.table implicit dotted entries) => parentOf { implicit, dotted, entries } path
    | some (.tables elements) =>
      match elements.getLast? with
      | none => none
      | some last => parentOf { entries := last } path

/-- Opens a table. One that was only named on the way to another may be opened, with what it has
already. -/
def openTable (d : Draft) (path : List String) (key : String) : Option Draft := do
  let root ← d.close
  let parent ← parentOf root path
  match parent.get? key with
  | none => return { root, path := some (path, key) }
  | some (.table true false entries) =>
    let root ← root.modify false (fun parent => some (parent.erase key)) path
    return { root, current := { entries }, path := some (path, key) }
  | some _ => none

def openElement (d : Draft) (path : List String) (key : String) : Option Draft := do
  let root ← d.close
  let parent ← parentOf root path
  match parent.get? key with
  | none | some (.tables _) => return { root, path := some (path, key), element := true }
  | some _ => none

end Draft

def endHeader (brackets : List Char) (s : List Char) : Option (List Char) := do
  endLine (← Text.stripPrefix? brackets s)

def readPair (d : Draft) (s : List Char) : Option (Draft × List Char) := do
  let ((path, key), rest) ← readKey (s.length + 1) s
  match rest with
  | '=' :: rest =>
    let (value, rest) ← readValue depthLimit (2 * rest.length + 2) (skipSpace rest)
    let current ← d.current.insert path key value
    return ({ d with current }, ← endLine rest)
  | _ => none

def readLine (d : Draft) (s : List Char) : Option (Draft × List Char) :=
  match s with
  | '[' :: '[' :: rest => do
    let ((path, key), rest) ← readKey (rest.length + 1) rest
    return (← d.openElement path key, ← endHeader [']', ']'] rest)
  | '[' :: rest => do
    let ((path, key), rest) ← readKey (rest.length + 1) rest
    return (← d.openTable path key, ← endHeader [']'] rest)
  | s => readPair d s

def readLines (d : Draft) : Nat → List Char → Option Draft
  | 0, _ => none
  | fuel + 1, s =>
    match skipSpace s with
    | [] => some d
    | '#' :: rest => do readLines d fuel (← endLine ('#' :: rest))
    | s =>
      match lineBreak? s with
      | some rest => readLines d fuel rest
      | none => do
        let (d, rest) ← readLine d s
        readLines d fuel rest

/-- Reads a document. A byte order mark in front of it does not count. -/
def ofChars? (s : List Char) : Option Toml := do
  let s := match s with
    | c :: rest => if c.toNat == 0xFEFF then rest else c :: rest
    | [] => []
  let d ← readLines {} (s.length + 1) s
  return (← d.close).freeze

end Locator.Toml
