/-!
# JSON values

A value keeps what its text says: the members of an object in their order, repeated keys
included, and a number as it is spelled. The escapes of a string may name half of a surrogate
pair. Such a string is well-formed and spells no text; it is kept as `none`.
-/

namespace Locator

inductive Json
  | null
  | bool (value : Bool)
  | number (lexeme : String)
  | string (text : Option String)
  | array (items : List Json)
  | object (members : List (Option String × Json))
  deriving Repr, Inhabited

namespace Json

/-- The string that spells a text. -/
def text (s : String) : Json :=
  string (some s)

def nat (n : Nat) : Json :=
  number (toString n)

def textOrNull : Option String → Json
  | none => null
  | some s => text s

def texts (items : List String) : Json :=
  array (items.map text)

def ofPairs (members : List (String × Json)) : Json :=
  object (members.map fun (key, value) => (some key, value))

/-- The value of the last member with a key. -/
def member? (json : Json) (key : String) : Option Json :=
  match json with
  | object members => (members.reverse.find? fun (k, _) => k == some key).map (·.2)
  | _ => none

end Json

end Locator
