import Locator.Proofs.Counting
import Mathlib.Data.Set.Basic

/-!
# Absolute and relative counts

Whatever is counted is counted both ways, so the absolute counts are not behind the relative ones.
Going back to counters that were saved keeps that, and so does a roll-back, as long as the absolute
counts have not been taken back behind those that were saved (`Tracker.absolute_dominates`). When
they have, a roll-back brings relative counts with no absolute ones to match
(`Tracker.ahead_of_absolute`). The counts of types, ids and names and the ordinals are not rolled
back, and so are never ahead.
-/

namespace Locator

namespace Counters

variable {among : Set Family} {c saved : Counters}

/-- The absolute counts of some families are not behind the relative ones, nor is the absolute
ordinal. -/
structure Dominated (among : Set Family) (c : Counters) : Prop where
  counts : ∀ family ∈ among, ∀ key, c.count family key ≤ c.absoluteCount family key
  object : c.object ≤ c.absoluteObject

/-- The absolute counts are not ahead of those of other counters. -/
def Within (c later : Counters) : Prop :=
  ∀ family key, c.absoluteCount family key ≤ later.absoluteCount family key

theorem dominated_empty : ({} : Counters).Dominated among :=
  ⟨fun family _ key => (Census.count_empty family key).le.trans (Nat.zero_le _), le_rfl⟩

theorem count_bump (c : Counters) (family : Family) (key : String) (other : Family) (k : String) :
    (c.bump family key).count other k
      = c.count other k + if family = other ∧ key = k then 1 else 0 :=
  Census.count_bump c.relative family key other k

theorem absoluteCount_bump (c : Counters) (family : Family) (key : String) (other : Family)
    (k : String) :
    (c.bump family key).absoluteCount other k
      = c.absoluteCount other k + if family = other ∧ key = k then 1 else 0 :=
  Census.count_bump c.absolute family key other k

theorem within_bump (c : Counters) (family : Family) (key : String) :
    c.Within (c.bump family key) := by
  intro other k
  rw [absoluteCount_bump]
  exact Nat.le_add_right _ _

namespace Dominated

theorem bump (h : c.Dominated among) (family : Family) (key : String) :
    (c.bump family key).Dominated among := by
  refine ⟨fun other hother k => ?_, h.object⟩
  rw [count_bump, absoluteCount_bump]
  exact Nat.add_le_add_right (h.counts other hother k) _

theorem bumpObject (h : c.Dominated among) : c.bumpObject.Dominated among :=
  ⟨h.counts, Nat.succ_le_succ h.object⟩

theorem newScope : c.newScope.Dominated among := by
  refine ⟨fun family _ key => ?_, Nat.zero_le _⟩
  rw [count_newScope]
  exact Nat.zero_le _

theorem rollBack (h : c.Dominated among)
    (hsaved : ∀ family ∈ among, family.rolledBack = true →
      ∀ key, saved.count family key ≤ c.absoluteCount family key) :
    (c.rollBack saved).Dominated among := by
  refine ⟨fun family hfamily key => ?_, h.object⟩
  change _ ≤ c.absoluteCount family key
  cases hrolledBack : family.rolledBack with
  | true =>
    rw [count_rollBack_of_rolledBack c saved hrolledBack]
    exact hsaved family hfamily hrolledBack key
  | false =>
    rw [count_rollBack_of_kept c saved hrolledBack]
    exact h.counts family hfamily key

/-- A roll-back keeps the absolute counts from falling behind just when they cover the relative ones
that come back. -/
theorem rollBack_iff (h : c.Dominated Set.univ) :
    (c.rollBack saved).Dominated Set.univ
      ↔ ∀ family, family.rolledBack = true →
        ∀ key, saved.count family key ≤ c.absoluteCount family key := by
  refine ⟨fun hafter family hrolledBack key => ?_, fun hsaved => h.rollBack fun family _ =>
    hsaved family⟩
  rw [← count_rollBack_of_rolledBack c saved hrolledBack]
  exact hafter.counts family (Set.mem_univ family) key

end Dominated

end Counters

/-! ## Counters that are taken back -/

/-- What can be done with counters and with what was saved of them. Snapshots are numbered in the
order in which they were saved. -/
inductive Counting
  | bump (family : Family) (key : String)
  | bumpObject
  | newScope
  | save
  /-- Back to all counts of a snapshot. -/
  | restore (number : Nat)
  /-- Back to the relative counts of class names and of lineages of a snapshot. -/
  | rollBack (number : Nat)
  deriving DecidableEq

def Counting.isRestore : Counting → Bool
  | restore _ => true
  | bump .. | bumpObject | newScope | save | rollBack _ => false

structure Tracker where
  counters : Counters := {}
  saved : List Counters := []
  deriving DecidableEq

namespace Tracker

def step (tracker : Tracker) : Counting → Tracker
  | .bump family key => { tracker with counters := tracker.counters.bump family key }
  | .bumpObject => { tracker with counters := tracker.counters.bumpObject }
  | .newScope => { tracker with counters := tracker.counters.newScope }
  | .save => { tracker with saved := tracker.saved ++ [tracker.counters] }
  | .restore number =>
    match tracker.saved[number]? with
    | some saved => { tracker with counters := saved }
    | none => tracker
  | .rollBack number =>
    match tracker.saved[number]? with
    | some saved => { tracker with counters := tracker.counters.rollBack saved }
    | none => tracker

def run (tracker : Tracker) (steps : List Counting) : Tracker :=
  steps.foldl step tracker

/-- The absolute counts of some families are behind the relative ones neither now nor in a
snapshot. -/
def Dominated (among : Set Family) (tracker : Tracker) : Prop :=
  ∀ c ∈ tracker.counters :: tracker.saved, c.Dominated among

/-- No step rolls back to a snapshot that the absolute counts are behind. -/
def StaysAhead : Tracker → List Counting → Prop
  | _, [] => True
  | tracker, step :: steps =>
    (∀ number, step = .rollBack number → ∀ saved ∈ tracker.saved[number]?,
      saved.Within tracker.counters) ∧ (tracker.step step).StaysAhead steps

variable {tracker : Tracker} {among : Set Family}

theorem Dominated.step (h : tracker.Dominated among) {step : Counting}
    (hrollBack : ∀ number, step = .rollBack number → ∀ saved ∈ tracker.saved[number]?,
      (tracker.counters.rollBack saved).Dominated among) :
    (tracker.step step).Dominated among := by
  obtain ⟨hcounters, hsaved⟩ := List.forall_mem_cons.1 h
  refine List.forall_mem_cons.2 ?_
  cases step with
  | bump family key => exact ⟨hcounters.bump family key, hsaved⟩
  | bumpObject => exact ⟨hcounters.bumpObject, hsaved⟩
  | newScope => exact ⟨.newScope, hsaved⟩
  | save =>
    exact ⟨hcounters, List.forall_mem_append.2 ⟨hsaved, List.forall_mem_singleton.2 hcounters⟩⟩
  | restore number =>
    rcases hnumber : tracker.saved[number]? with _ | saved <;> simp only [Tracker.step, hnumber]
    · exact ⟨hcounters, hsaved⟩
    · exact ⟨hsaved saved (List.mem_of_getElem? hnumber), hsaved⟩
  | rollBack number =>
    rcases hnumber : tracker.saved[number]? with _ | saved <;> simp only [Tracker.step, hnumber]
    · exact ⟨hcounters, hsaved⟩
    · exact ⟨hrollBack number rfl saved hnumber, hsaved⟩

/-- What is not rolled back is never ahead of the absolute counts, and nothing is as long as they
are not behind a snapshot that is rolled back to. -/
theorem Dominated.run (h : tracker.Dominated among) (steps : List Counting)
    (hsteps : (∀ family ∈ among, family.rolledBack = false) ∨ tracker.StaysAhead steps) :
    (tracker.run steps).Dominated among := by
  induction steps generalizing tracker with
  | nil => exact h
  | cons step steps ih =>
    refine ih (h.step fun number hnumber saved hsaved => ?_) (hsteps.imp_right And.right)
    obtain ⟨hcounters, hall⟩ := List.forall_mem_cons.1 h
    refine hcounters.rollBack fun family hfamily hrolledBack key => ?_
    rcases hsteps with hkept | ⟨hahead, -⟩
    · rw [hkept family hfamily] at hrolledBack
      cases hrolledBack
    · calc saved.count family key
        _ ≤ saved.absoluteCount family key :=
          (hall saved (List.mem_of_getElem? hsaved)).counts family hfamily key
        _ ≤ tracker.counters.absoluteCount family key :=
          hahead number hnumber saved hsaved family key

/-- The absolute counts only grow, unless they are restored. -/
theorem staysAhead_of_no_restore (steps : List Counting)
    (hsteps : ∀ step ∈ steps, step.isRestore = false)
    (h : ∀ saved ∈ tracker.saved, saved.Within tracker.counters) : tracker.StaysAhead steps := by
  induction steps generalizing tracker with
  | nil => trivial
  | cons step steps ih =>
    obtain ⟨hstep, hrest⟩ := List.forall_mem_cons.1 hsteps
    refine ⟨fun number _ saved hsaved => h saved (List.mem_of_getElem? hsaved), ih hrest ?_⟩
    cases step with
    | bump family key =>
      exact fun saved hsaved other k =>
        (h saved hsaved other k).trans (Counters.within_bump tracker.counters family key other k)
    | bumpObject => exact h
    | newScope => exact h
    | save => exact List.forall_mem_append.2 ⟨h, List.forall_mem_singleton.2 fun _ _ => le_rfl⟩
    | restore number => cases hstep
    | rollBack number =>
      rcases hnumber : tracker.saved[number]? with _ | saved <;> simp only [Tracker.step, hnumber]
      · exact h
      · exact h

/-- The absolute counts of types, ids and names and the absolute ordinal are never behind the
relative ones, now or in a snapshot, whatever was done. No absolute count is, if no step rolled back
to a snapshot that the absolute counts were behind, and they are behind none if all counts are never
restored. A roll-back brings a relative count ahead just when the snapshot has a relative count of a
class name or of a lineage that is ahead of the absolute one. -/
theorem absolute_dominates (steps : List Counting) :
    let tracker := ({} : Tracker).run steps
    tracker.Dominated {family | family.rolledBack = false}
      ∧ (({} : Tracker).StaysAhead steps → tracker.Dominated Set.univ)
      ∧ ((∀ step ∈ steps, step.isRestore = false) → ({} : Tracker).StaysAhead steps)
      ∧ ∀ saved ∈ tracker.saved, tracker.Dominated Set.univ →
        ((tracker.counters.rollBack saved).Dominated Set.univ
          ↔ ∀ family, family.rolledBack = true →
            ∀ key, saved.count family key ≤ tracker.counters.absoluteCount family key) := by
  intro tracker
  have hstart (among : Set Family) : ({} : Tracker).Dominated among :=
    List.forall_mem_singleton.2 Counters.dominated_empty
  refine ⟨(hstart _).run steps (.inl fun _ => id), fun hahead => (hstart _).run steps (.inr hahead),
    fun hsteps => staysAhead_of_no_restore steps hsteps nofun, fun saved _ h => ?_⟩
  exact (List.forall_mem_cons.1 h).1.rollBack_iff

/-- Counters that are restored from a snapshot and then rolled back to an older one. -/
theorem absolute_dominates_older :
    let steps : List Counting :=
      [.save, .bump .className "A", .bumpObject, .save, .bump .className "A", .restore 1,
        .rollBack 0]
    let tracker := ({} : Tracker).run steps
    tracker.Dominated Set.univ
      ∧ tracker.counters.count .className "A" = 0
      ∧ tracker.counters.absoluteCount .className "A" = 1 := by
  intro steps tracker
  have hahead : ({} : Tracker).StaysAhead steps := by
    refine ⟨nofun, nofun, nofun, nofun, nofun, nofun, fun number hnumber saved hsaved => ?_,
      trivial⟩
    cases hnumber
    cases hsaved
    exact fun family key => (Census.count_empty family key).le.trans (Nat.zero_le _)
  exact ⟨(absolute_dominates steps).2.1 hahead, by decide +kernel, by decide +kernel⟩

/-- Counters that are restored from a snapshot and then rolled back to a later one: the class is
counted once in the scope and not at all in the search. -/
theorem ahead_of_absolute :
    let tracker := ({} : Tracker).run
      [.save, .bump .className "A", .save, .restore 0, .rollBack 1]
    tracker.counters.count .className "A" = 1
      ∧ tracker.counters.absoluteCount .className "A" = 0 := by
  decide +kernel

end Tracker

end Locator
