import Locator.Table

/-!
# Counters of a search

A search counts every element it visits: once under its class name, once under each class of its
lineage, once under its type, under its id and under its name when it has them, and once as an
object. The absolute counts only grow. The relative counts belong to the scope that is being
scanned and start again with each scope. Counters are values, so the counters at a match are
simply kept.
-/

namespace Locator

inductive Family
  | className
  | subclass
  | type
  | ident
  | name
  deriving DecidableEq, Repr

def Family.all : List Family :=
  [className, subclass, type, ident, name]

structure Census where
  className : Tally := {}
  subclass : Tally := {}
  type : Tally := {}
  ident : Tally := {}
  name : Tally := {}
  deriving DecidableEq

namespace Census

def of (census : Census) : Family → Tally
  | .className => census.className
  | .subclass => census.subclass
  | .type => census.type
  | .ident => census.ident
  | .name => census.name

def count (census : Census) (family : Family) (key : String) : Nat :=
  (census.of family).count key

def bump (census : Census) (family : Family) (key : String) : Census :=
  match family with
  | .className => { census with className := census.className.bump key }
  | .subclass => { census with subclass := census.subclass.bump key }
  | .type => { census with type := census.type.bump key }
  | .ident => { census with ident := census.ident.bump key }
  | .name => { census with name := census.name.bump key }

@[simp] theorem count_empty (family : Family) (key : String) :
    ({} : Census).count family key = 0 := by
  cases family <;> rfl

theorem of_bump (census : Census) (family : Family) (key : String) (other : Family) :
    (census.bump family key).of other
      = if family = other then (census.of other).bump key else census.of other := by
  cases family <;> cases other <;> rfl

theorem count_bump (census : Census) (family : Family) (key : String) (other : Family)
    (k : String) :
    (census.bump family key).count other k
      = census.count other k + if family = other ∧ key = k then 1 else 0 := by
  unfold count
  rw [of_bump]
  by_cases h : family = other <;> simp [h, Tally.count_bump]

end Census

/-- The relative and the absolute counts of a search. -/
structure Counters where
  relative : Census := {}
  absolute : Census := {}
  /-- The ordinal of the last object in the scope. -/
  object : Nat := 0
  /-- The ordinal of the last object in the search. -/
  absoluteObject : Nat := 0
  deriving DecidableEq

namespace Counters

def count (counters : Counters) (family : Family) (key : String) : Nat :=
  counters.relative.count family key

def absoluteCount (counters : Counters) (family : Family) (key : String) : Nat :=
  counters.absolute.count family key

def bump (counters : Counters) (family : Family) (key : String) : Counters :=
  { counters with
    relative := counters.relative.bump family key
    absolute := counters.absolute.bump family key }

def bumpTimes (counters : Counters) (family : Family) (key : String) : Nat → Counters
  | 0 => counters
  | times + 1 => (counters.bump family key).bumpTimes family key times

def bumpObject (counters : Counters) : Counters :=
  { counters with
    object := counters.object + 1
    absoluteObject := counters.absoluteObject + 1 }

/-- Starts a new scope: the relative counts begin again and the absolute ones go on. -/
def newScope (counters : Counters) : Counters :=
  { counters with relative := {}, object := 0 }

/-- Takes back the relative counts of class names and of lineages to what they were in `saved`.
All other counts stay. -/
def rollBack (counters saved : Counters) : Counters :=
  { counters with
    relative :=
      { counters.relative with
        className := saved.relative.className
        subclass := saved.relative.subclass } }

end Counters

end Locator
