import Locator.Chain
import Locator.Query

/-!
# Marks on a chain

The counters noted against the levels of a chain, level by level. Marking a chain does not change
the chain. A search carries the marks along with its counters: a level is marked whenever an
element satisfies it, also in a branch that is given up later.
-/

namespace Locator

/-- For every level of a chain the counters noted against it, if any. -/
structure Marks where
  byLevel : List (Option Counters)
  deriving DecidableEq

namespace Marks

def blank (chain : Chain) : Marks :=
  ⟨chain.levels.map fun _ => none⟩

/-- Sets the mark of a level. If there is no such level there is nothing to set. -/
def set (marks : Marks) (position : Nat) (mark : Option Counters) : Marks :=
  ⟨marks.byLevel.set position mark⟩

def set? (marks : Marks) (position : Nat) (mark : Option Counters) : Option Marks :=
  if position < marks.byLevel.length then some (marks.set position mark) else none

def record? (marks : Marks) (position : Nat) (counters : Counters) : Option Marks :=
  marks.set? position (some counters)

def clear? (marks : Marks) (position : Nat) : Option Marks :=
  marks.set? position none

def clear (marks : Marks) : Marks :=
  ⟨marks.byLevel.map fun _ => none⟩

end Marks

/-- What a search changes as it goes on: the counters, and the marks on the levels of its
chain. -/
structure Progress where
  counters : Counters
  marks : Marks
  deriving DecidableEq

namespace Progress

def start (chain : Chain) : Progress :=
  { counters := {}, marks := .blank chain }

def visit (progress : Progress) (facts : Facts) : Progress :=
  { progress with counters := progress.counters.visit facts }

def record (progress : Progress) (position : Nat) : Progress :=
  { progress with marks := progress.marks.set position (some progress.counters) }

def newScope (progress : Progress) : Progress :=
  { progress with counters := progress.counters.newScope }

/-- Takes back the relative counts of class names and of lineages. -/
def rollBack (progress : Progress) (saved : Counters) : Progress :=
  { progress with counters := progress.counters.rollBack saved }

def unmarked (progress : Progress) : Progress :=
  { progress with marks := progress.marks.clear }

end Progress

end Locator
