import Locator.Settings.Loose

/-!
# Layers of settings

Sources are laid over each other. A table is merged into the table below it, key by key, and any
other value takes the place of what was there. Keys are in lowercase. At the top level of a source
a key may be a path: names with dots between them, and places in arrays in brackets.
-/

namespace Locator.Loose

open Text

/-! ## Merging -/

def entries : Loose → List (String × Loose)
  | table es => es
  | _ => []

mutual

def lay (key : String) : Loose → Loose → Loose
  | table incoming, base =>
    let key := lowercase key
    let below := (base.entries.lookup key).getD (table [])
    table (putEntry key (layAll incoming below) base.entries)
  | nothing, base => table (putEntry (lowercase key) nothing base.entries)
  | boolean b, base => table (putEntry (lowercase key) (boolean b) base.entries)
  | integer n, base => table (putEntry (lowercase key) (integer n) base.entries)
  | float x, base => table (putEntry (lowercase key) (float x) base.entries)
  | text s, base => table (putEntry (lowercase key) (text s) base.entries)
  | array items, base => table (putEntry (lowercase key) (array items) base.entries)

/-- Lays the values of several keys over a table, one after the other. -/
def layAll : List (String × Loose) → Loose → Loose
  | [], base => base
  | (key, value) :: rest, base => layAll rest (lay key value base)

end

/-! ## Paths -/

inductive Step
  | key (name : String)
  /-- A negative index counts from the end. -/
  | item (index : Int)
  deriving DecidableEq, Repr

def isNameChar (c : Char) : Bool :=
  c.isAlphanum || c == ' ' || c == '_' || c == '-'

def readName (s : List Char) : Option (String × List Char) :=
  let name := s.takeWhile isNameChar
  if name.isEmpty then none else some (String.ofList name, s.dropWhile isNameChar)

def readIndex (s : List Char) : Option (Int × List Char) := do
  let isSpace (c : Char) : Bool := c == ' ' || c == '\t'
  let (index, rest) := (s.dropWhile isSpace).span (· != ']')
  let digits := (index.reverse.dropWhile isSpace).reverse
  match digits, rest with
  | '+' :: _, _ | _, [] => none
  | digits, _ :: rest => return (← readInt64 digits, rest)

def readSteps : Nat → List Char → Option (List Step)
  | _, [] => some []
  | 0, _ => none
  | fuel + 1, '.' :: rest => do
    let (name, rest) ← readName rest
    return .key name :: (← readSteps fuel rest)
  | fuel + 1, '[' :: rest => do
    let (index, rest) ← readIndex rest
    return .item index :: (← readSteps fuel rest)
  | _, _ => none

/-- Reads a path: its first name and its other steps. A text that is no path is a single name. -/
def readPath (s : String) : String × List Step :=
  let read := do
    let (name, rest) ← readName s.toList
    return (name, ← readSteps rest.length rest)
  read.getD (s, [])

/-- The items of an array, with one at an index among them, and its place. What an array lacks is
made up for by nothings. -/
def itemsAt (index : Int) (value : Loose) : List Loose × Nat :=
  let items := match value with
    | array items => items
    | _ => []
  match index with
  | .ofNat n => (items ++ List.replicate (n + 1 - items.length) nothing, n)
  | .negSucc n =>
    (List.replicate (n + 1 - items.length) nothing ++ items, items.length - (n + 1))

/-- Changes the value at the end of steps. Tables and arrays take the place of what stands in the
way. -/
def changeAt (change : Loose → Loose) : List Step → Loose → Loose
  | [], value => change value
  | .key name :: steps, value =>
    let key := lowercase name
    let old := (value.entries.lookup key).getD nothing
    table (putEntry key (changeAt change steps old) value.entries)
  | .item index :: steps, value =>
    let (items, place) := itemsAt index value
    array (items.set place (changeAt change steps (items.getD place nothing)))

def layStep (step : Step) (value base : Loose) : Loose :=
  match step with
  | .key name => lay name value base
  | .item index =>
    let (items, place) := itemsAt index base
    array (items.set place value)

def layPath (path : String × List Step) (value base : Loose) : Loose :=
  let steps := .key path.1 :: path.2
  changeAt (layStep (steps.getLast?.getD (.key path.1)) value) steps.dropLast base

def laySource (source : List (String × Loose)) (base : Loose) : Loose :=
  source.foldl (fun base (key, value) => layPath (readPath key) value base) base

end Locator.Loose
