import Locator.Json.Printer
import Locator.Json.Reader
import Locator.Json.Record
import Locator.Snapshot

/-!
# Snapshots in JSON

A snapshot is a record of its roots, and a node is a record of its attributes and its children.
Only the class name of a node must be given.
-/

namespace Locator

namespace Node

def fieldNames : List String :=
  ["class_name", "superclasses", "resolved_type", "id", "name", "text", "caption", "properties",
   "children"]

/-- A field that holds containers, the first of which must still be opened. -/
def opened {α : Type} (room : Nat) (field : Option Json) (decode : Json → Option α) (default : α) :
    Option α :=
  match field, room with
  | none, _ => some default
  | some _, 0 => none
  | some json, _ + 1 => decode json

/-- Reads a node from its fields. `room` is the number of containers that may still be opened, and
`ofChild?` reads a child. -/
def ofFields? (room : Nat) (ofChild? : Json → Option Node) : List (Option Json) → Option Node
  | [className, superclasses, resolvedType, ident, name, text, caption, properties, children] => do
    let className ← (← className).asText?
    let superclasses ← opened room superclasses Json.asTexts? []
    let resolvedType ← Json.orDefault Json.asTextOrNull? none resolvedType
    let ident ← Json.orDefault Json.asTextOrNull? none ident
    let name ← Json.orDefault Json.asTextOrNull? none name
    let text ← Json.orDefault Json.asText? "" text
    let caption ← Json.orDefault Json.asText? "" caption
    let properties ← opened room properties Json.asTextMembers? []
    let children ← opened room children (fun json => do (← json.asArray?).mapM ofChild?) []
    return {
      className, superclasses, resolvedType, ident, name, text, caption, children
      properties := Table.ofList properties }
  | _ => none

/-- Reads a node, with room for a number of containers: one for the node itself and one for the list
of its children. -/
def ofJson? : Nat → Json → Option Node
  | 0, _ => none
  | 1, json => (json.fields? fieldNames).bind (ofFields? 0 fun _ => none)
  | room + 2, json => (json.fields? fieldNames).bind (ofFields? (room + 1) (ofJson? room))

mutual

def toJson : Node → Json
  | ⟨className, superclasses, resolvedType, ident, name, text, caption, properties, children⟩ =>
    .ofPairs [
      ("class_name", .text className),
      ("superclasses", .texts superclasses),
      ("resolved_type", .textOrNull resolvedType),
      ("id", .textOrNull ident),
      ("name", .textOrNull name),
      ("text", .text text),
      ("caption", .text caption),
      ("properties", .ofPairs (properties.entries.map fun (key, value) => (key, .text value))),
      ("children", .array (toJsonList children))]

def toJsonList : List Node → List Json
  | [] => []
  | node :: nodes => toJson node :: toJsonList nodes

end

end Node

namespace Snapshot

def ofJson? (json : Json) : Option Snapshot := do
  match ← json.fields? ["roots"] with
  | [some roots] =>
    return { roots := ← (← roots.asArray?).mapM (Node.ofJson? (Json.depthLimit - 2)) }
  | _ => none

/-- Writes a snapshot. Whether it can be listed is not written. -/
def toJson (tree : Snapshot) : Json :=
  .ofPairs [("roots", .array (Node.toJsonList tree.roots))]

def ofText (text : String) : Except Error Snapshot :=
  match (Json.ofString? text).bind ofJson? with
  | some tree => .ok tree
  | none => .error (.serialization "Failed to parse tree snapshot")

def text (tree : Snapshot) : String :=
  tree.toJson.compact

end Snapshot

end Locator
