import Locator.Proofs.Counting
import Locator.Proofs.Requests
import Mathlib.Algebra.GroupWithZero.Nat

/-!
# What a failed excursion leaves of the counts

A visit adds to the relative counts, and an element that satisfies its level begins them anew. So
after a scan that fails they are what the visits since the last such element come to
(`Scan.recount`). When a failed excursion is over, the counts of classes and lineages are taken
back. The others are kept just when nothing satisfied its level in the excursion
(`failed_excursion`): else the scan goes on with counts that the excursion began anew, as if what
was counted before had never been there.
-/

namespace Locator

/-! ## Counts that begin anew -/

/-- A count after some visits that add to it, and of which those that are met begin it anew. -/
def Snapshot.recount (tree : Snapshot) (adds : Facts → Nat) : Nat → List (Visit Place) → Nat
  | n, [] => n
  | n, v :: vs => tree.recount adds (if tree.met v then 0 else n + adds v.facts) vs

section Recount

variable {tree : Snapshot} {adds : Facts → Nat}

theorem recount_append : ∀ (n : Nat) (vs ws : List (Visit Place)),
    tree.recount adds n (vs ++ ws) = tree.recount adds (tree.recount adds n vs) ws
  | _, [], _ => rfl
  | _, _ :: vs, ws => recount_append _ vs ws

theorem recount_of_unmet : ∀ (n : Nat) (vs : List (Visit Place)), (∀ v ∈ vs, tree.met v = false) →
    tree.recount adds n vs = n + (vs.map fun v => adds v.facts).sum
  | n, [], _ => rfl
  | n, v :: vs, h => by
    rw [Snapshot.recount, h v List.mem_cons_self,
      recount_of_unmet _ vs fun w hw => h w (List.mem_cons_of_mem v hw), List.map_cons,
      List.sum_cons]
    simp only [Bool.false_eq_true, if_false]
    omega

theorem recount_le : ∀ (n : Nat) (vs : List (Visit Place)),
    tree.recount adds n vs ≤ n + (vs.map fun v => adds v.facts).sum
  | _, [] => Nat.le_refl _
  | n, v :: vs => by
    have hrest := recount_le (if tree.met v then 0 else n + adds v.facts) vs
    have hfirst : (if tree.met v then 0 else n + adds v.facts) ≤ n + adds v.facts := by
      split <;> omega
    rw [Snapshot.recount, List.map_cons, List.sum_cons]
    omega

/-- When something is met, a count that every visit adds to falls behind. -/
theorem recount_lt_of_met (hadds : ∀ facts, 0 < adds facts) : ∀ (n : Nat) (vs : List (Visit Place)),
    (∃ v ∈ vs, tree.met v = true) →
      tree.recount adds n vs < n + (vs.map fun v => adds v.facts).sum
  | n, v :: vs, h => by
    rw [Snapshot.recount, List.map_cons, List.sum_cons]
    cases hv : tree.met v with
    | true =>
      have hrest : tree.recount adds 0 vs ≤ 0 + _ := recount_le 0 vs
      have := hadds v.facts
      simp only [if_true]
      omega
    | false =>
      have hrest : ∃ w ∈ vs, tree.met w = true := by
        obtain ⟨w, hw, hmet⟩ := h
        rcases List.mem_cons.1 hw with rfl | hw
        · rw [hv] at hmet
          cases hmet
        · exact ⟨w, hw, hmet⟩
      have := recount_lt_of_met hadds (n + adds v.facts) vs hrest
      simp only [Bool.false_eq_true, if_false]
      omega

end Recount

/-! ## A scan that fails -/

section Scan

variable {tree : Snapshot} {goal : Goal Place} {siblings : List Place} {before after : Progress}
  {vs : List (Visit Place)}

/-- Whatever begins anew in a scope, grows with visits and is not taken back is counted since the
last visit that was met. -/
theorem Scan.recount {result : Option Place} {r : Counters → Nat} {adds : Facts → Nat}
    (hvisit : ∀ c facts, r (Counters.visit c facts) = r c + adds facts)
    (hscope : ∀ c, r (Counters.newScope c) = 0)
    (hback : ∀ c saved, r (Counters.rollBack c saved) = r c)
    (h : Scan tree goal siblings before result after vs) :
    result = none → r after.counters = tree.recount adds (r before.counters) vs := by
  induction h with
  | nil => exact fun _ => rfl
  | last => exact nofun
  | commit he hm _ _ ih =>
    intro hnone
    rw [ih hnone, Snapshot.recount, met_visit he, hm, if_pos rfl]
    exact congrArg (tree.recount adds · _) (hscope _)
  | skip he hm _ _ ih =>
    intro hnone
    rw [ih hnone, Snapshot.recount, met_visit he, if_neg hm]
    exact congrArg (tree.recount adds · _) (hvisit _ _)
  | found => exact nofun
  | failed he hm _ _ _ ihbelow ihrest =>
    intro hnone
    rw [ihrest hnone, Snapshot.recount, met_visit he, if_neg hm, recount_append]
    refine congrArg (tree.recount adds · _) ((hback _ _).trans ((ihbelow rfl).trans ?_))
    exact congrArg (tree.recount adds · _) (hvisit _ _)

theorem Scan.recount_object (h : Scan tree goal siblings before none after vs) :
    after.counters.object = tree.recount (fun _ => 1) before.counters.object vs :=
  h.recount Counters.object_visit Counters.object_newScope Counters.object_rollBack rfl

theorem Scan.recount_count (h : Scan tree goal siblings before none after vs) {family : Family}
    (hkept : family.rolledBack = false) (key : String) :
    after.counters.count family key
      = tree.recount (·.share family key) (before.counters.count family key) vs :=
  h.recount (r := (·.count family key)) (fun c facts => Counters.count_visit c facts family key)
    (fun c => Counters.count_newScope c family key)
    (fun c saved => Counters.count_rollBack_of_kept c saved hkept key) rfl

end Scan

/-! ## When an excursion fails -/

/-- Counts that are what they were before some visits and what the visits add, except that the
relative counts of classes and lineages are what they were before. -/
structure KeepsCounts (before after : Counters) (vs : List (Visit Place)) : Prop where
  kept : ∀ family, family.rolledBack = false → ∀ key,
    after.count family key = before.count family key + (vs.map (·.facts.share family key)).sum
  object : after.object = before.object + vs.length
  takenBack : ∀ family, family.rolledBack = true → ∀ key,
    after.count family key = before.count family key

section Excursion

variable {tree : Snapshot} {time : Clock} {reach : Nat} {goal : Goal Place} {c : Place}
  {node : Node} {before between : Progress} {vs : List (Visit Place)}

theorem scan_of_returns (hc : tree.node? c = some node) (hh : node.height ≤ reach)
    {result : Option Place}
    (h : Search.Returns tree.world time (Search.searchBelow reach c goal before)
      (result, between) vs) : Scan tree goal (tree.children c) before result between vs := by
  cases hlisted : tree.unlisted with
  | false =>
    obtain ⟨result', between', vs', h', hscan⟩ :=
      Search.searchBelow_goesBy hlisted reach goal c node before hc hh
    obtain ⟨rfl, rfl⟩ := Prod.mk.inj (h'.eq_of_run (congrArg Ending.result (h.run {})))
    obtain rfl := h.visits.symm.trans h'.visits
    exact hscan
  | true =>
    have hrefused : Search.Refused tree.world time (Search.searchBelow reach c goal before) := by
      unfold Search.searchBelow
      exact .bind _ (Search.refuses (Snapshot.answer_children_of_unlisted hlisted c))
    exact absurd (congrArg Ending.result (h.run {})) hrefused.not_ok

theorem Search.GoesBy.returns_none {program : Search Place (Finding Place)}
    {siblings : List Place} (time : Clock) (h : GoesBy tree time program goal siblings before)
    (hnone : (program.run tree.world {} time).result.toOption.map (·.1) = some none) :
    ∃ between, Returns tree.world time program (none, between)
      (program.visits tree.world time) := by
  obtain ⟨result, between, vs, hrun, -⟩ := h
  rw [hrun.run] at hnone
  obtain rfl : result = none := Option.some.inj hnone
  exact ⟨between, hrun.visits.symm ▸ hrun⟩

theorem sum_map_one (vs : List (Visit Place)) : (vs.map fun _ => 1).sum = vs.length := by
  rw [List.map_const', List.sum_replicate_nat, Nat.mul_one]

/-- A scan that fails and is rolled back keeps the counts just when nothing was met in it. -/
theorem keepsCounts_iff {siblings : List Place}
    (h : Scan tree goal siblings before none between vs) :
    KeepsCounts before.counters (between.rollBack before.counters).counters vs
      ↔ ∀ v ∈ vs, tree.met v = false := by
  constructor
  · intro hkeeps v hv
    by_contra hmet
    -- every visit adds to the ordinal, so it alone shows that a count began anew
    have hlt : tree.recount (fun _ => 1) before.counters.object vs < _ :=
      recount_lt_of_met (fun _ => Nat.one_pos) _ vs ⟨v, hv, Bool.of_not_eq_false hmet⟩
    have hobject : between.counters.object = before.counters.object + vs.length := hkeeps.object
    rw [← h.recount_object, hobject, sum_map_one] at hlt
    omega
  · intro hunmet
    refine ⟨fun family hkept key => ?_, ?_, fun family hback key => ?_⟩
    · calc (between.rollBack before.counters).counters.count family key
          = between.counters.count family key := Counters.count_rollBack_of_kept _ _ hkept key
        _ = tree.recount (·.share family key) (before.counters.count family key) vs :=
          h.recount_count hkept key
        _ = _ := recount_of_unmet _ vs hunmet
    · calc between.counters.object
          = tree.recount (fun _ => 1) before.counters.object vs := h.recount_object
        _ = before.counters.object + (vs.map fun _ => 1).sum := recount_of_unmet _ vs hunmet
        _ = before.counters.object + vs.length := by rw [sum_map_one]
    · exact Counters.count_rollBack_of_rolledBack _ _ hback key

/-- When the excursion below an element fails, the scan goes on with the next sibling. The relative
counts of classes and lineages are then what they were before the excursion. The other relative
counts and the ordinal are what the visits since the last one that was met come to, so they are what
they were before and what the excursion added just when nothing was met in the excursion. -/
theorem failed_excursion (hc : tree.node? c = some node) (hh : node.height ≤ reach)
    (hm : ¬ node.meets goal (before.visit node.facts).counters) (hs : goal.shallow = false)
    (hfails : Search.Returns tree.world time
      (Search.searchBelow reach c goal (before.visit node.facts)) (none, between) vs) :
    (∀ siblings memory,
      (Search.scan (Search.searchBelow reach) goal (c :: siblings) before).run tree.world memory
          time
        = (Search.scan (Search.searchBelow reach) goal siblings
            (between.rollBack (before.visit node.facts).counters)).run tree.world memory time)
    ∧ (∀ family key, (between.rollBack (before.visit node.facts).counters).counters.count family key
        = if family.rolledBack then (before.visit node.facts).counters.count family key
          else tree.recount (·.share family key)
            ((before.visit node.facts).counters.count family key) vs)
    ∧ (between.rollBack (before.visit node.facts).counters).counters.object
        = tree.recount (fun _ => 1) (before.visit node.facts).counters.object vs
    ∧ (KeepsCounts (before.visit node.facts).counters
        (between.rollBack (before.visit node.facts).counters).counters vs
      ↔ ∀ v ∈ vs, tree.met v = false) := by
  have hscan := scan_of_returns hc hh hfails
  refine ⟨fun siblings memory => ?_, fun family key => ?_, hscan.recount_object,
    keepsCounts_iff hscan⟩
  · have hjudge : Search.Returns tree.world time (Search.judge goal c before) _ _ :=
      Search.judge_returns hc goal before
    simp only [hm, if_false, Bool.false_eq_true] at hjudge
    conv_lhs => unfold Search.scan
    rw [hjudge.run_bind]
    simp only [Bool.false_eq_true, if_false, hs]
    rw [hfails.run_bind]
  · cases hback : family.rolledBack with
    | true => exact Counters.count_rollBack_of_rolledBack _ _ hback key
    | false =>
      exact (Counters.count_rollBack_of_kept _ _ hback key).trans (hscan.recount_count hback key)

end Excursion

/-- In the panel of a window there is no label, and the button there stays counted. -/
theorem failed_excursion_panel :
    ∃ between vs,
      Search.Returns windowTree.world {}
        (Search.searchBelow 3 ⟨[0, 0]⟩ ⟨some ⟨[0]⟩, 0, Level.ofText "Class=Label", []⟩
          (Progress.visit ⟨{}, ⟨[none]⟩⟩ ⟨"Panel", ["Panel"], "Panel", none, none⟩))
        (none, between) vs
      ∧ vs.length = 1
      ∧ KeepsCounts (Counters.visit {} ⟨"Panel", ["Panel"], "Panel", none, none⟩)
          (between.counters.rollBack
            (Counters.visit {} ⟨"Panel", ["Panel"], "Panel", none, none⟩)) vs := by
  have hc : windowTree.node? ⟨[0, 0]⟩
      = some { className := "Panel", children := [{ className := "Button" }] } := rfl
  obtain ⟨between, hfails⟩ := (Search.searchBelow_goesBy rfl 3
    ⟨some ⟨[0]⟩, 0, Level.ofText "Class=Label", []⟩ ⟨[0, 0]⟩ _
    (Progress.visit ⟨{}, ⟨[none]⟩⟩ ⟨"Panel", ["Panel"], "Panel", none, none⟩) hc
    (by decide)).returns_none {} (by decide +kernel)
  refine ⟨between, _, hfails, by decide +kernel, ?_⟩
  exact (failed_excursion hc (by decide) (by decide +kernel) rfl hfails).2.2.2.2 (by decide +kernel)

/-- A root with two elements of one class, in the first of which, inside another element, the next
level is not found. -/
def strandedTree : Snapshot where
  roots :=
    [{ className := "R"
       children :=
        [{ className := "A", children := [{ className := "M" }] },
          { className := "M", children := [{ className := "T" }] }] }]

/-- An excursion in which an element satisfies its level loses the counts made before it: the second
element of its class is the third object of its scope, and is counted as the first. -/
theorem excursion_loses_counts :
    ((strandedTree.engine {}).visits strandedTree.world
        (.descendant "Class=R" "Class=M;\\;Class=T" 0 true) {}).map
          (fun v => (v.element, v.counters.object))
      = [(⟨[0]⟩, 1), (⟨[0, 0]⟩, 1), (⟨[0, 0, 0]⟩, 2), (⟨[0, 1]⟩, 1), (⟨[0, 1, 0]⟩, 1)]
    ∧ ∃ between vs,
      Search.Returns strandedTree.world {}
        (Search.searchBelow 3 ⟨[0, 0]⟩
          ⟨some ⟨[0]⟩, 0, Level.ofText "Class=M", [Level.ofText "Class=T"]⟩
          (Progress.visit ⟨{}, ⟨[none, none]⟩⟩ ⟨"A", ["A"], "A", none, none⟩))
        (none, between) vs
      ∧ ¬ KeepsCounts (Counters.visit {} ⟨"A", ["A"], "A", none, none⟩)
          (between.counters.rollBack (Counters.visit {} ⟨"A", ["A"], "A", none, none⟩)) vs := by
  refine ⟨by decide +kernel, ?_⟩
  have hc : strandedTree.node? ⟨[0, 0]⟩
      = some { className := "A", children := [{ className := "M" }] } := rfl
  obtain ⟨between, hfails⟩ := (Search.searchBelow_goesBy rfl 3
    ⟨some ⟨[0]⟩, 0, Level.ofText "Class=M", [Level.ofText "Class=T"]⟩ ⟨[0, 0]⟩ _
    (Progress.visit ⟨{}, ⟨[none, none]⟩⟩ ⟨"A", ["A"], "A", none, none⟩) hc
    (by decide)).returns_none {} (by decide +kernel)
  refine ⟨between, _, hfails, fun hkeeps => ?_⟩
  have hunmet := (keepsCounts_iff (scan_of_returns hc (by decide) hfails)).1 hkeeps
  revert hunmet
  decide +kernel

end Locator
