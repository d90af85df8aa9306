import Locator.Json

/-!
# Records in JSON

A record with named fields is written as an object, or as an array of its fields in their order.
In an object each field may stand once and members of other names are passed over; in an array
the last fields may be missing. Reading bounds how deeply the containers that it decodes are
nested; what it passes over may be as deep as it likes.
-/

namespace Locator.Json

/-- The number of containers that may stand inside each other in a decoded value. -/
def depthLimit : Nat := 127

/-- The members of an object all of whose keys spell a text. -/
def spelledMembers? (members : List (Option String × Json)) : Option (List (String × Json)) :=
  members.mapM fun (key, value) => key.map fun key => (key, value)

/-- The only value of a key among members, or none at all; a repeated key is refused. -/
def only? (members : List (String × Json)) (name : String) : Option (Option Json) :=
  match members.filter fun (key, _) => key == name with
  | [] => some none
  | [(_, value)] => some (some value)
  | _ => none

def fields? (names : List String) : Json → Option (List (Option Json))
  | object members => do
    let members ← spelledMembers? members
    names.mapM (only? members)
  | array items =>
    if items.length ≤ names.length then
      some (items.map some ++ List.replicate (names.length - items.length) none)
    else none
  | _ => none

def asText? : Json → Option String
  | string s => s
  | _ => none

def asTextOrNull? : Json → Option (Option String)
  | null => some none
  | json => json.asText?.map some

def asBool? : Json → Option Bool
  | bool b => some b
  | _ => none

def asArray? : Json → Option (List Json)
  | array items => some items
  | _ => none

def asTexts? (json : Json) : Option (List String) := do
  (← json.asArray?).mapM asText?

def asTextMembers? : Json → Option (List (String × String))
  | object members => do
    (← spelledMembers? members).mapM fun (key, value) => value.asText?.map fun s => (key, s)
  | _ => none

/-- The value of a field, or the default if the field is missing. -/
def orDefault {α : Type} (decode : Json → Option α) (default : α) : Option Json → Option α
  | none => some default
  | some json => decode json

end Locator.Json
