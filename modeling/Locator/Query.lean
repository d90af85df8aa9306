import Locator.Counters
import Locator.Text.Lower

/-!
# Questions about a tree

A search learns about the tree of elements only by asking questions. Of every element that it
visits it collects the facts by which the element is counted.
-/

namespace Locator

/-- A question about the tree of elements `E`. -/
inductive Query (E : Type)
  | roots
  | children (element : E)
  | className (element : E)
  /-- The names of the superclasses, the most specific first. -/
  | superclasses (element : E)
  /-- The platform's classification of the element. -/
  | resolvedType (element : E)
  | ident (element : E)
  | name (element : E)
  | text (element : E)
  | caption (element : E)
  | property (element : E) (name : String)
  deriving DecidableEq, Repr

def Query.Answer {E : Type} : Query E → Type
  | roots | children _ => List E
  | superclasses _ => List String
  | ident _ | name _ => Option String
  | className _ | resolvedType _ | text _ | caption _ | property .. => String

structure Facts where
  className : String
  lineage : List String
  resolvedType : String
  ident : Option String
  name : Option String
  deriving DecidableEq, Repr

namespace Facts

/-- The class name in front of the superclasses. Superclasses that begin with the class name do
not repeat it. -/
def lineageOf (className : String) : List String → List String
  | [] => [className]
  | first :: rest => className :: if first == className then rest else first :: rest

def typeKey (facts : Facts) : String :=
  lowercase facts.resolvedType

end Facts

namespace Counters

def bumpAny (counters : Counters) (family : Family) : Option String → Counters
  | none => counters
  | some key => counters.bump family key

def visit (counters : Counters) (facts : Facts) : Counters :=
  let classed := counters.bump .className facts.className
  let descended := facts.lineage.foldl (fun c ancestor => c.bump .subclass ancestor) classed
  let typed := descended.bump .type facts.typeKey
  ((typed.bumpAny .ident facts.ident).bumpAny .name facts.name).bumpObject

end Counters

end Locator
