import Locator.Json
import Locator.Text.Hex

/-!
# Printing JSON

A value is printed without spaces, or with each item and each member on a line of its own. In
strings only quotes, backslashes and control characters are escaped.
-/

namespace Locator.Json

open Text

def escape (c : Char) : List Char :=
  match c with
  | '"' => ['\\', '"']
  | '\\' => ['\\', '\\']
  | '\x08' => ['\\', 'b']
  | '\x0c' => ['\\', 'f']
  | '\n' => ['\\', 'n']
  | '\r' => ['\\', 'r']
  | '\t' => ['\\', 't']
  | c => if c.toNat < 0x20 then '\\' :: 'u' :: hex 4 c.toNat else [c]

def quote (s : String) : List Char :=
  '"' :: s.toList.flatMap escape ++ ['"']

/-- A string that spells no text is printed as an empty one. -/
def quoteAny (s : Option String) : List Char :=
  quote (s.getD "")

mutual

def render : Json → List Char
  | null => "null".toList
  | bool true => "true".toList
  | bool false => "false".toList
  | number lexeme => lexeme.toList
  | string s => quoteAny s
  | array items => '[' :: renderItems items
  | object members => '\x7b' :: renderMembers members

/-- The items of an array, with its closing bracket. -/
def renderItems : List Json → List Char
  | [] => [']']
  | [item] => render item ++ [']']
  | item :: items => render item ++ ',' :: renderItems items

/-- The members of an object, with its closing brace. -/
def renderMembers : List (Option String × Json) → List Char
  | [] => ['\x7d']
  | [(key, value)] => quoteAny key ++ ':' :: render value ++ ['\x7d']
  | (key, value) :: members =>
    quoteAny key ++ ':' :: render value ++ ',' :: renderMembers members

end

def compact (json : Json) : String :=
  String.ofList json.render

def lineBreak (indent : Nat) : List Char :=
  '\n' :: List.replicate (2 * indent) ' '

mutual

/-- A value over several lines. `indent` is the indentation of the line it begins on. -/
def layOut (indent : Nat) : Json → List Char
  | array [] => ['[', ']']
  | object [] => ['\x7b', '\x7d']
  | array items => '[' :: layOutItems (indent + 1) items ++ lineBreak indent ++ [']']
  | object members => '\x7b' :: layOutMembers (indent + 1) members ++ lineBreak indent ++ ['\x7d']
  | null => "null".toList
  | bool true => "true".toList
  | bool false => "false".toList
  | number lexeme => lexeme.toList
  | string s => quoteAny s

def layOutItems (indent : Nat) : List Json → List Char
  | [] => []
  | [item] => lineBreak indent ++ layOut indent item
  | item :: items => lineBreak indent ++ layOut indent item ++ ',' :: layOutItems indent items

def layOutMembers (indent : Nat) : List (Option String × Json) → List Char
  | [] => []
  | [(key, value)] => lineBreak indent ++ quoteAny key ++ ':' :: ' ' :: layOut indent value
  | (key, value) :: members =>
    lineBreak indent ++ quoteAny key ++ ':' :: ' ' :: layOut indent value
      ++ ',' :: layOutMembers indent members

end

def pretty (json : Json) : String :=
  String.ofList (json.layOut 0)

end Locator.Json
