import Locator.Text.Ascii
import Locator.Text.Blank
import Locator.Text.Cut

/-!
# Qualifiers

A qualifier constrains one attribute or one occurrence count of an element. It is written
`KEY=VALUE`, where blanks around the key do not matter and the value is kept as it stands, or as a
bare keyword. A bare word that begins with `current` is a `Current` qualifier with itself as the
value.
-/

namespace Locator

open Text

inductive Qualifier.Kind
  | className
  | subclass
  | type
  | current
  | index
  | caption
  | ident
  | name
  | nameContains
  | property
  | propertyContains
  | text
  | textContains
  | path
  | classIndex
  | objectIndex
  | absClassIndex
  | absIndex
  | absObjectIndex
  | subclassIndex
  | absSubclassIndex
  deriving DecidableEq, Repr

namespace Qualifier.Kind

def all : List Kind :=
  [className, subclass, type, current, index, caption, ident, name, nameContains, property,
   propertyContains, text, textContains, path, classIndex, objectIndex, absClassIndex, absIndex,
   absObjectIndex, subclassIndex, absSubclassIndex]

def keyword : Kind → String
  | className => "Class"
  | subclass => "Subclass"
  | type => "Type"
  | current => "Current"
  | index => "Index"
  | caption => "Caption"
  | ident => "Id"
  | name => "Name"
  | nameContains => "NameContains"
  | property => "Property"
  | propertyContains => "PropertyContains"
  | text => "Text"
  | textContains => "TextContains"
  | path => "Path"
  | classIndex => "ClassIndex"
  | objectIndex => "ObjectIndex"
  | absClassIndex => "AbsClassIndex"
  | absIndex => "AbsIndex"
  | absObjectIndex => "AbsObjectIndex"
  | subclassIndex => "SubclassIndex"
  | absSubclassIndex => "AbsSubclassIndex"

def isIndex : Kind → Bool
  | index | classIndex | objectIndex | absClassIndex | absIndex | absObjectIndex
  | subclassIndex | absSubclassIndex => true
  | _ => false

def ofKeyword? (word : String) : Option Kind :=
  all.find? fun kind => kind.keyword == word

def read? (word : List Char) : Option Kind :=
  all.find? fun kind => sameIgnoringCase kind.keyword.toList word

def position (kind : Kind) : Nat :=
  all.idxOf kind

theorem mem_all (kind : Kind) : kind ∈ all := by
  cases kind <;> decide

theorem read?_keyword (kind : Kind) : read? kind.keyword.toList = some kind := by
  cases kind <;> decide

end Qualifier.Kind

structure Qualifier where
  kind : Qualifier.Kind
  /-- The value as written, blanks included. -/
  value : String
  /-- Written without an equals sign. -/
  bare : Bool := false
  deriving DecidableEq, Repr

inductive TokenFault
  | unknownKey (key : String)
  | unknownKeyword (word : String)
  deriving DecidableEq, Repr

def TokenFault.message : TokenFault → String
  | unknownKey key => s!"unrecognized qualifier key '{key}'"
  | unknownKeyword word => s!"unrecognized keyword '{word}'"

namespace Qualifier

def assignment : Char := '='

def propertySeparator : Char := ':'

def ofWord (word : List Char) : Except TokenFault Qualifier :=
  if "current".toList.isPrefixOf (word.map Char.toLower) then
    .ok { kind := .current, value := String.ofList word, bare := true }
  else
    match Kind.read? word with
    | none => .error (.unknownKeyword (String.ofList word))
    | some kind => .ok { kind, value := "", bare := true }

def ofToken (token : List Char) : Except TokenFault Qualifier :=
  match cutAt assignment token with
  | none => ofWord (trim token)
  | some (key, value) =>
    match Kind.read? (trim key) with
    | none => .error (.unknownKey (String.ofList (trim key)))
    | some kind => .ok { kind, value := String.ofList value }

/-- What is written with a keyword and an equals sign is read as it stands. -/
theorem ofToken_keyword (kind : Kind) (value : String) :
    ofToken (kind.keyword.toList ++ assignment :: value.toList) = .ok { kind, value } := by
  have hcut : assignment ∉ kind.keyword.toList := by cases kind <;> decide
  have htrim : trim kind.keyword.toList = kind.keyword.toList := by cases kind <;> decide
  simp only [ofToken, cutAt_append hcut, htrim, Kind.read?_keyword, String.ofList_toList]

def render (q : Qualifier) : List Char :=
  if q.bare then
    if q.value.isEmpty then q.kind.keyword.toList else q.value.toList
  else q.kind.keyword.toList ++ assignment :: q.value.toList

def canonical (q : Qualifier) : String :=
  String.ofList q.render

def propertyParts? (q : Qualifier) : Option (String × String) :=
  (cutAt propertySeparator q.value.toList).map fun (name, expected) =>
    (String.ofList name, String.ofList expected)

end Qualifier

end Locator
