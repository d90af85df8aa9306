import Locator.Level

/-!
# Chains of levels

A recognition string is a sequence of levels joined by the child separator `;\;`, the outermost
level first. Reading one gives a chain in which every level has a qualifier, or says which level
has none.
-/

namespace Locator

open Text

/-- Divides a recognition string at every child separator `;\;`, from left to right and without
overlap, into a first piece and the pieces after it. -/
def splitLevels : List Char → List Char × List (List Char)
  | [] => ([], [])
  | ';' :: '\\' :: ';' :: rest =>
    let (piece, pieces) := splitLevels rest
    ([], piece :: pieces)
  | c :: rest =>
    let (piece, pieces) := splitLevels rest
    (c :: piece, pieces)

def childSeparator : String := ";\\;"

def joinLevels (levels : List (List Char)) : List Char :=
  childSeparator.toList.intercalate levels

/-- Why a recognition string is no chain. Levels are numbered from one. -/
inductive PathFault
  | blank
  | emptyLevel (number : Nat)
  | unusableLevel (number : Nat) (raw : String)
  deriving DecidableEq, Repr

def PathFault.message : PathFault → String
  | blank => "recognition string is empty"
  | emptyLevel number => s!"level {number} is empty"
  | unusableLevel number raw => s!"level {number} ('{raw}') has no recognized qualifier"

/-- The levels of a recognition string, of which there is at least one. -/
structure Chain where
  path : String
  first : Level
  rest : List Level
  deriving DecidableEq, Repr

namespace Chain

def levels (chain : Chain) : List Level :=
  chain.first :: chain.rest

def levelFault (number : Nat) (raw : List Char) : PathFault :=
  if allBlank (Level.stripFpsm raw).2 then .emptyLevel number
  else .unusableLevel number (String.ofList raw)

def readLevel (number : Nat) (raw : List Char) : Except PathFault Level :=
  let level := Level.ofChars raw
  if level.usable then .ok level else .error (levelFault number raw)

/-- Reads levels in order, numbered from `number`, up to the first fault. -/
def readLevels (number : Nat) : List (List Char) → Except PathFault (List Level)
  | [] => .ok []
  | raw :: raws => do
    let level ← readLevel number raw
    let levels ← readLevels (number + 1) raws
    return level :: levels

def ofText (path : String) : Except PathFault Chain :=
  if allBlank path.toList then .error .blank
  else do
    let (piece, pieces) := splitLevels path.toList
    let first ← readLevel 1 piece
    let rest ← readLevels 2 pieces
    return { path, first, rest }

def canonical (chain : Chain) : String :=
  String.ofList (joinLevels (chain.levels.map Level.render))

def size (chain : Chain) : Nat :=
  chain.levels.length

def childOf? (chain : Chain) (position : Nat) : Option Nat :=
  if position + 1 < chain.size then some (position + 1) else none

end Chain

end Locator
