import Locator.Json.Record
import Locator.Qualifier

/-!
# Qualifiers in JSON

A qualifier is a record of its kind, its value and whether it is bare, which may be missing. The
kind is its key, in its own spelling, or an object with that key and null.
-/

namespace Locator

namespace Qualifier

def fieldNames : List String :=
  ["kind", "value", "bare"]

def Kind.ofJson? : Json → Option Kind
  | .string (some word) => ofKeyword? word
  | .object [(some word, .null)] => ofKeyword? word
  | _ => none

def ofJson? (json : Json) : Option Qualifier := do
  match ← json.fields? fieldNames with
  | [some kind, some value, bare] =>
    return {
      kind := ← Kind.ofJson? kind
      value := ← value.asText?
      bare := ← Json.orDefault Json.asBool? false bare }
  | _ => none

/-- Writes a qualifier; only a bare one says so. -/
def toJson (q : Qualifier) : Json :=
  .ofPairs <|
    [("kind", .text q.kind.keyword), ("value", .text q.value)]
      ++ if q.bare then [("bare", .bool true)] else []

end Qualifier

end Locator
