import Locator.Error

/-!
# Failures of commands

A command fails with an error, and sometimes with what it was about to do. Only the outermost text
is the message; what lies underneath is listed below it.
-/

namespace Locator

structure Failure where
  context : Option String := none
  error : Error
  deriving DecidableEq, Repr

namespace Failure

def ofError (error : Error) : Failure :=
  { error }

def texts (failure : Failure) : List String :=
  failure.context.toList ++ failure.error.message :: failure.error.sources

/-- A text below the message: its first line after `first`, and its other lines after `other`. -/
def indented (first other text : String) : String :=
  first ++ String.intercalate ("\n" ++ other) (text.splitOn "\n")

def label (n : Nat) : String :=
  String.ofList (List.replicate (5 - (toString n).length) ' ') ++ toString n ++ ": "

/-- The causes below the message. Several causes are numbered. -/
def causes : List String → List String
  | [] => []
  | [cause] => [indented "    " "    " cause]
  | several => several.mapIdx fun n cause => indented (label n) "       " cause

def text (failure : Failure) : String :=
  match failure.texts with
  | [] => "Error: \n"
  | [message] => s!"Error: {message}\n"
  | message :: below =>
    let list := String.intercalate "\n" (causes below)
    s!"Error: {message}\n\nCaused by:\n{list}\n"

end Failure

end Locator
