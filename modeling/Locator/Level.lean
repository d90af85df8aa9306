import Locator.Qualifier

/-!
# Path levels

A level is a list of qualifiers joined by `;`, in front of which the sentinel `:FPSM:` may stand
(full path, single match: only the direct children of the element above are looked at). Reading a
level never fails. A token that is no qualifier is dropped and its fault is kept.
-/

namespace Locator

open Text

structure Level where
  raw : String
  /-- Only direct children are looked at. -/
  fpsm : Bool
  qualifiers : List Qualifier
  dropped : List TokenFault
  deriving DecidableEq, Repr

namespace Level

def separator : Char := ';'

def fpsmSentinel : String := ":FPSM:"

/-- Takes the sentinel off a level, in any ASCII case and with the blanks before it. A level
without one is left as it is. -/
def stripFpsm (level : List Char) : Bool × List Char :=
  let size := fpsmSentinel.length
  let trimmed := trimStart level
  if sameIgnoringCase (trimmed.take size) fpsmSentinel.toList then (true, trimmed.drop size)
  else (false, level)

def tokens (body : List Char) : List (List Char) :=
  (body.splitOn separator).filter fun token => !allBlank token

def accepted (readings : List (Except TokenFault Qualifier)) : List Qualifier :=
  readings.filterMap fun
    | .ok q => some q
    | .error _ => none

def refused (readings : List (Except TokenFault Qualifier)) : List TokenFault :=
  readings.filterMap fun
    | .ok _ => none
    | .error fault => some fault

def ofChars (raw : List Char) : Level :=
  let (fpsm, body) := stripFpsm raw
  let readings := (tokens body).map Qualifier.ofToken
  { raw := String.ofList raw, fpsm, qualifiers := accepted readings, dropped := refused readings }

def ofText (raw : String) : Level :=
  ofChars raw.toList

/-- A level that constrains nothing cannot be searched for. -/
def usable (level : Level) : Bool :=
  !level.qualifiers.isEmpty

def has (level : Level) (kind : Qualifier.Kind) : Bool :=
  level.qualifiers.any fun q => q.kind == kind

def render (level : Level) : List Char :=
  (if level.fpsm then fpsmSentinel.toList else [])
    ++ [separator].intercalate (level.qualifiers.map Qualifier.render)

def canonical (level : Level) : String :=
  String.ofList level.render

end Level

end Locator
