import Locator.Engine
import Locator.Json
import Locator.Qualifier.Json
import Locator.Snapshot

/-!
# Reports

What is shown of a recognition string, of a located element and of the counters of a match, as
JSON.
-/

namespace Locator

def Tally.toJson (tally : Tally) : Json :=
  .ofPairs (tally.entries.map fun (key, count) => (key, .nat count))

def Family.label : Family → String
  | className => "class"
  | subclass => "subclass"
  | type => "type"
  | ident => "id"
  | name => "name"

def Census.toJson (census : Census) : Json :=
  .ofPairs (Family.all.map fun family => (family.label, (census.of family).toJson))

def Counters.toJson (counters : Counters) : Json :=
  .ofPairs [
    ("relative", counters.relative.toJson),
    ("absolute", counters.absolute.toJson),
    ("object", .nat counters.object),
    ("absolute_object", .nat counters.absoluteObject)]

def LevelMatch.toJson (levelMatch : LevelMatch) : Json :=
  .ofPairs [("level", .text levelMatch.level), ("result", levelMatch.counters.toJson)]

def Level.toJson (level : Level) : Json :=
  .ofPairs <|
    [("raw", .text level.raw),
     ("canonical", .text level.canonical),
     ("fpsm", .bool level.fpsm),
     ("qualifiers", .array (level.qualifiers.map Qualifier.toJson))]
      ++ if level.dropped.isEmpty then []
         else [("warnings", .texts (level.dropped.map TokenFault.message))]

def Chain.toJson (chain : Chain) : Json :=
  .array (chain.levels.map Level.toJson)

structure ElementReport where
  place : Place
  className : String
  resolvedType : String
  ident : Option String
  name : Option String
  caption : String
  text : String
  deriving DecidableEq, Repr

namespace ElementReport

def describe (tree : Snapshot) (place : Place) : Except Error ElementReport := do
  let node ← tree.node place
  return {
    place
    className := node.className
    resolvedType := node.typeOrClass
    ident := node.ident
    name := node.name
    caption := node.caption
    text := node.text }

def optional (name : String) : Option String → List (String × Json)
  | none => []
  | some value => [(name, .text value)]

def toJson (report : ElementReport) : Json :=
  .ofPairs <|
    [("path", .text report.place.text),
     ("class_name", .text report.className),
     ("resolved_type", .text report.resolvedType)]
      ++ optional "id" report.ident
      ++ optional "name" report.name
      ++ [("caption", .text report.caption), ("text", .text report.text)]

end ElementReport

structure LocateReport where
  element : ElementReport
  passes : Nat
  levels : List LevelMatch
  deriving DecidableEq

namespace LocateReport

def ofLocated (tree : Snapshot) (located : Located Place) : Except Error LocateReport := do
  return {
    element := ← ElementReport.describe tree located.element
    passes := located.passes
    levels := located.levels }

def toJson (report : LocateReport) : Json :=
  .ofPairs [
    ("element", report.element.toJson),
    ("passes", .nat report.passes),
    ("levels", .array (report.levels.map LevelMatch.toJson))]

end LocateReport

end Locator
