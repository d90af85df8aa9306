import Locator.Marks
import Locator.Search
import Locator.Text.Integer

/-!
# Judging an element by a level

An element satisfies a level when it satisfies all of its qualifiers. They are judged in order
and the first that fails ends the judgement; what a later one would have to read from the element
is not read. Comparison is exact, but for these kinds:

* a type is compared without regard to ASCII case;
* the `Contains` kinds look for a part without regard to case;
* an id is compared as a number;
* an index is the decimal of a count, blanks around it set aside.

A subclass index counts the ancestor that the last `Subclass` qualifier before it named.
-/

namespace Locator

open Text

inductive Scope
  | root
  | descendant
  deriving DecidableEq, Repr

def Goal.scope {E : Type} (goal : Goal E) : Scope :=
  match goal.anchor with
  | none => .root
  | some _ => .descendant

/-- What a qualifier is judged by, apart from what is read from the element for it alone. -/
structure Situation where
  facts : Facts
  level : Level
  counters : Counters
  scope : Scope

/-- An attribute that is read from the element only when a qualifier asks for it. -/
inductive Reading
  | text
  | caption
  | property (name : String)
  deriving DecidableEq, Repr

def containsIgnoringCase (text part : String) : Bool :=
  contains (lower part.toList) (lower text.toList)

/-- Both texts, trimmed, are decimals of the same 64-bit number. -/
def sameNumber (ident value : String) : Bool :=
  match readInt64 (trim value.toList) with
  | none => false
  | some expected => readInt64 (trim ident.toList) == some expected

def isCount (value : String) (count : Nat) : Bool :=
  trim value.toList == decimal count

namespace Situation

def countAny (s : Situation) (family : Family) : Option String → Nat
  | none => 0
  | some key => s.counters.count family key

/-- The count that an `Index` qualifier means: of the id, of the name, of the type or of the
class, whichever of these qualifiers comes first in this order in the level. -/
def indexCount (s : Situation) : Nat :=
  if s.level.has .ident then s.countAny .ident s.facts.ident
  else if s.level.has .name then s.countAny .name s.facts.name
  else if s.level.has .type then s.counters.count .type s.facts.typeKey
  else s.counters.count .className s.facts.className

/-- The count that an `AbsIndex` qualifier means: of the type, if the level has a `Type`
qualifier, and of the class otherwise. -/
def absIndexCount (s : Situation) : Nat :=
  if s.level.has .type then s.counters.absoluteCount .type s.facts.typeKey
  else s.counters.absoluteCount .className s.facts.className

end Situation

namespace Qualifier

def reading? (q : Qualifier) : Option Reading :=
  match q.kind with
  | .text | .textContains => some .text
  | .caption => some .caption
  | .property | .propertyContains => q.propertyParts?.map fun (name, _) => .property name
  | _ => none

/-- The element satisfies a qualifier. `ancestor` is what the last `Subclass` qualifier before it
named, and `read` is what was read for it. -/
def holds (q : Qualifier) (s : Situation) (ancestor : Option String) (read : String) : Bool :=
  match q.kind with
  | .className => s.facts.className == q.value
  | .subclass => s.facts.lineage.contains q.value
  | .type => sameIgnoringCase s.facts.resolvedType.toList q.value.toList
  | .caption | .text => read == q.value
  | .textContains => containsIgnoringCase read q.value
  | .name => s.facts.name == some q.value
  | .nameContains => s.facts.name.any fun name => containsIgnoringCase name q.value
  | .property => q.propertyParts?.any fun (_, expected) => read == expected
  | .propertyContains =>
    q.propertyParts?.any fun (_, expected) => containsIgnoringCase read expected
  | .ident => s.facts.ident.any fun ident => sameNumber ident q.value
  | .index => isCount q.value s.indexCount
  | .absIndex => isCount q.value s.absIndexCount
  | .classIndex => isCount q.value (s.counters.count .className s.facts.className)
  | .absClassIndex => isCount q.value (s.counters.absoluteCount .className s.facts.className)
  | .objectIndex => isCount q.value s.counters.object
  | .absObjectIndex => isCount q.value s.counters.absoluteObject
  | .subclassIndex => ancestor.any fun key => isCount q.value (s.counters.count .subclass key)
  | .absSubclassIndex =>
    ancestor.any fun key => isCount q.value (s.counters.absoluteCount .subclass key)
  | .path => false
  | .current =>
    match s.scope with
    | .root => s.counters.object == 1
    | .descendant => false

/-- The ancestor that the qualifiers after a satisfied one count. -/
def ancestorAfter (q : Qualifier) (ancestor : Option String) : Option String :=
  match q.kind with
  | .subclass => some q.value
  | _ => ancestor

end Qualifier

namespace Search

variable {E : Type}

def read (element : E) : Option Reading → Search E String
  | none => pure ""
  | some .text => question (.text element)
  | some .caption => question (.caption element)
  | some (.property name) => question (.property element name)

def satisfies (element : E) (s : Situation) (ancestor : Option String) :
    List Qualifier → Search E Bool
  | [] => pure true
  | q :: rest => do
    let text ← read element q.reading?
    if q.holds s ancestor text then satisfies element s (q.ancestorAfter ancestor) rest
    else pure false

def facts (element : E) : Search E Facts := do
  let className ← question (.className element)
  let superclasses ← question (.superclasses element)
  let resolvedType ← question (.resolvedType element)
  let ident ← question (.ident element)
  let name ← question (.name element)
  return {
    className, resolvedType, ident, name, lineage := Facts.lineageOf className superclasses }

/-- Visits an element: collects its facts, counts it, and judges it by the level of a goal. A level
that it satisfies is marked with the counters. -/
def judge (goal : Goal E) (element : E) (progress : Progress) : Search E (Bool × Progress) := do
  let facts ← facts element
  let counted := progress.visit facts
  visit { element, facts, goal, counters := counted.counters } <| do
    let satisfied ← satisfies element
      { facts, level := goal.level, counters := counted.counters, scope := goal.scope } none
      goal.level.qualifiers
    return (satisfied, if satisfied then counted.record goal.position else counted)

end Search

end Locator
