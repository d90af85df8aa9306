import Locator.Decimal.Shortest
import Locator.Json
import Locator.Settings.Json
import Locator.Text.Integer
import Locator.Text.Lower
import Locator.Toml

/-!
# Loose values

Values from several sources, which are converted to the type that is wanted where that makes
sense: a number from a text, a text from a number, a number from a truth value.
-/

namespace Locator

open Text

inductive Loose
  | nothing
  | boolean (value : Bool)
  | integer (value : Int)
  | float (value : Binary64)
  | text (value : String)
  | array (items : List Loose)
  | table (entries : List (String × Loose))
  deriving Repr, Inhabited

namespace Loose

def putEntry (key : String) (value : Loose) : List (String × Loose) → List (String × Loose)
  | [] => [(key, value)]
  | (k, old) :: rest => if k == key then (k, value) :: rest else (k, old) :: putEntry key value rest

def integer? (negative : Bool) (magnitude : Nat) : Option Loose :=
  let n : Int := if negative then -magnitude else magnitude
  if Text.fitsInt64 n then some (integer n) else none

/-! ## Sources -/

mutual

def ofToml : Toml → Loose
  | .string s | .dateTime s => text s
  | .integer n => integer n
  | .float x => float x
  | .boolean b => boolean b
  | .array items => array (ofTomlItems items)
  | .table entries => table (ofTomlEntries entries)

def ofTomlItems : List Toml → List Loose
  | [] => []
  | item :: items => ofToml item :: ofTomlItems items

def ofTomlEntries : List (String × Toml) → List (String × Loose)
  | [] => []
  | (key, value) :: entries => (key, ofToml value) :: ofTomlEntries entries

end

/-- A JSON number: an integer if it is spelled as one and fits a signed 64-bit word, and a float
otherwise. A number beyond all floats is refused. -/
def ofLexeme? (lexeme : String) : Option Loose :=
  match if lexeme == "-0" then none else readInt64 lexeme.toList with
  | some n => some (integer n)
  | none =>
    match Binary64.read? lexeme.toList with
    | some (.finite negative mantissa exponent) => some (float (.finite negative mantissa exponent))
    | _ => none

mutual

/-- A JSON value. `room` is the number of containers that may still be opened. -/
def ofJson? (room : Nat) : Json → Option Loose
  | .null => some nothing
  | .bool b => some (boolean b)
  | .number lexeme => ofLexeme? lexeme
  | .string s => s.map text
  | .array items =>
    match room with
    | 0 => none
    | room + 1 => (ofJsonItems? room items).map array
  | .object members =>
    match room with
    | 0 => none
    | room + 1 => (ofJsonMembers? room members).map table

def ofJsonItems? (room : Nat) : List Json → Option (List Loose)
  | [] => some []
  | item :: items => do
    return (← ofJson? room item) :: (← ofJsonItems? room items)

/-- The members of a JSON object; of members with the same key the last one stays. -/
def ofJsonMembers? (room : Nat) : List (Option String × Json) → Option (List (String × Loose))
  | [] => some []
  | (key, value) :: members => do
    let key ← key
    let value ← ofJson? room value
    let entries ← ofJsonMembers? room members
    return if (entries.lookup key).isSome then entries else (key, value) :: entries

end

/-- The value of an environment variable: a truth value, an integer or a float if it is spelled
as one, and a text otherwise. -/
def ofVariable (value : String) : Loose :=
  let lowered := lowercase value
  if lowered == "true" then boolean true
  else if lowered == "false" then boolean false
  else
    match readInt64 value.toList with
    | some n => integer n
    | none =>
      match Binary64.read? value.toList with
      | some x => float x
      | none => text value

/-! ## Conversion -/

def asUInt64? : Loose → Option Nat
  | boolean b => some b.toNat
  | integer (.ofNat n) => some n
  | integer (.negSucc _) => none
  | float x => some x.toWord
  | text s =>
    let lowered := lowercase s
    if ["true", "on", "yes"].contains lowered then some 1
    else if ["false", "off", "no"].contains lowered then some 0
    else readUInt64 s.toList
  | nothing | array _ | table _ => none

def asText? : Loose → Option String
  | boolean b => some (toString b)
  | integer n => some (toString n)
  | float x => some (String.ofList x.text)
  | text s => some s
  | nothing | array _ | table _ => none

def asTexts? : Loose → Option (List String)
  | array items => items.mapM asText?
  | _ => none

/-- The values of the fields of a record: those of a table, or the items of an array in their
order. -/
def fields? (names : List String) : Loose → Option (List (Option Loose))
  | table entries => some (names.map fun name => entries.lookup name)
  | array items => some ((List.range names.length).map (items[·]?))
  | _ => none

end Loose

def Settings.ofLoose? (value : Loose) : Option Settings := do
  ofFields? Loose.asUInt64? Loose.asTexts? (← value.fields? fieldNames)

end Locator
