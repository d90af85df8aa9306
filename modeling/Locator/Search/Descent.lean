import Locator.Search.Judgement

/-!
# One pass over the tree

A pass goes through the elements of a scope in document order and looks for the first that
satisfies the level in hand.

* An element that satisfies it ends the scan: the next level is looked for below that element, in
  a new scope, and what comes of that is what comes of the scan.
* Below an element that does not, the same level is looked for, unless only the siblings are to be
  looked at. When that excursion fails the relative counts of classes and lineages are rolled back,
  all other counts stay, and the scan goes on with the next sibling.

Every level that is satisfied is marked with the counters of that moment. Marks that an abandoned
branch left behind stay until the level is satisfied again.
-/

namespace Locator

/-- What a pass, or a part of it, comes to: the element that satisfied the last level, if there is
one, and the progress. -/
abbrev Finding (E : Type) := Option E × Progress

namespace Search

variable {E : Type}

/-- Goes on below an element that satisfied the level of `goal`. `descend` looks for a goal below
an element. -/
def commit (descend : E → Goal E → Progress → Search E (Finding E)) (goal : Goal E) (element : E)
    (progress : Progress) : Search E (Finding E) :=
  match goal.next? element with
  | none => pure (some element, progress)
  | some next => descend element next progress.newScope

/-- Looks for a goal among siblings and, unless only they are to be looked at, below them. -/
def scan (descend : E → Goal E → Progress → Search E (Finding E)) (goal : Goal E) :
    List E → Progress → Search E (Finding E)
  | [], progress => pure (none, progress)
  | element :: siblings, before => do
    let (satisfied, progress) ← judge goal element before
    if satisfied then commit descend goal element progress
    else if goal.shallow then scan descend goal siblings progress
    else
      let (found, after) ← descend element goal progress
      match found with
      | some found => pure (some found, after)
      | none => scan descend goal siblings (after.rollBack progress.counters)

/-- Looks for a goal below an element, at most `reach` generations down. -/
def searchBelow (reach : Nat) (element : E) (goal : Goal E) (progress : Progress) :
    Search E (Finding E) := do
  let children ← question (.children element)
  match reach with
  | 0 => pure (none, progress)
  | reach + 1 => scan (searchBelow reach) goal children progress

def rootPass (reach : Nat) (goal : Goal E) (progress : Progress) : Search E (Finding E) := do
  let roots ← question .roots
  scan (searchBelow reach) goal roots progress.newScope

/-- One pass below an element. The relative counts begin again, those of classes and lineages as
they were when the search began. -/
def descendantPass (reach : Nat) (element : E) (goal : Goal E) (progress : Progress) :
    Search E (Finding E) :=
  searchBelow reach element goal (progress.newScope.rollBack {})

end Search

end Locator
