import Locator.Snapshot

/-!
# Nodes in the making

A draft has the attributes of a node that were given so far. A node can be made of it once the
class name is given; all other attributes have defaults.
-/

namespace Locator.Node

structure Draft where
  className : Option String := none
  superclasses : List String := []
  resolvedType : Option String := none
  ident : Option String := none
  name : Option String := none
  text : String := ""
  caption : String := ""
  properties : Table String := {}
  children : List Node := []

inductive DraftFault
  | missing (field : String)
  deriving DecidableEq, Repr

def DraftFault.message : DraftFault → String
  | missing field => s!"`{field}` must be initialized"

def Draft.build (draft : Draft) : Except DraftFault Node :=
  match draft.className with
  | none => .error (.missing "class_name")
  | some className =>
    .ok { draft with className }

end Locator.Node
