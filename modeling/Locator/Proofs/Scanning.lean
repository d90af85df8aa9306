import Locator.Proofs.Judging
import Locator.Proofs.Places
import Locator.Search.Descent

/-!
# How a scan goes

A scan of siblings in a snapshot goes by six rules (`Scan`), one for each way to deal with the first
of them. Every pass over a snapshot whose elements can be listed goes by these rules
(`rootPass_returns`, `descendantPass_returns`), because the reach of a search is as large as the
snapshot is high and so never ends a descent. Otherwise the pass is refused before its first visit.
-/

namespace Locator

/-- A scan for a goal among siblings: from a progress it comes to a result, if any, and a progress,
and it makes some visits. -/
inductive Scan (tree : Snapshot) : Goal Place → List Place → Progress →
    Option Place → Progress → List (Visit Place) → Prop
  | nil (goal : Goal Place) (progress : Progress) : Scan tree goal [] progress none progress []
  /-- The element satisfies the last level. -/
  | last {goal : Goal Place} {e : Place} {node : Node} {siblings : List Place} {before : Progress}
      (he : tree.node? e = some node) (hm : node.meets goal (before.visit node.facts).counters)
      (hn : goal.next? e = none) :
      Scan tree goal (e :: siblings) before
        (some e) ((before.visit node.facts).record goal.position)
        [goal.visit e node.facts before]
  /-- The element satisfies the level, and the next is looked for below it in a new scope. -/
  | commit {goal next : Goal Place} {e : Place} {node : Node} {siblings : List Place}
      {before after : Progress} {result : Option Place} {vs : List (Visit Place)}
      (he : tree.node? e = some node) (hm : node.meets goal (before.visit node.facts).counters)
      (hn : goal.next? e = some next)
      (hbelow : Scan tree next (tree.children e)
        ((before.visit node.facts).record goal.position).newScope result after vs) :
      Scan tree goal (e :: siblings) before result after (goal.visit e node.facts before :: vs)
  /-- The element does not satisfy the level, and nothing below it is looked at. -/
  | skip {goal : Goal Place} {e : Place} {node : Node} {siblings : List Place}
      {before after : Progress} {result : Option Place} {vs : List (Visit Place)}
      (he : tree.node? e = some node) (hm : ¬ node.meets goal (before.visit node.facts).counters)
      (hs : goal.shallow = true)
      (hrest : Scan tree goal siblings (before.visit node.facts) result after vs) :
      Scan tree goal (e :: siblings) before result after (goal.visit e node.facts before :: vs)
  /-- The element does not satisfy the level, and the excursion below it succeeds. -/
  | found {goal : Goal Place} {e x : Place} {node : Node} {siblings : List Place}
      {before after : Progress} {vs : List (Visit Place)}
      (he : tree.node? e = some node) (hm : ¬ node.meets goal (before.visit node.facts).counters)
      (hs : goal.shallow = false)
      (hbelow : Scan tree goal (tree.children e) (before.visit node.facts)
        (some x) after vs) :
      Scan tree goal (e :: siblings) before (some x) after (goal.visit e node.facts before :: vs)
  /-- The element does not satisfy the level, the excursion below it fails, and the scan goes on
  with some counts rolled back. -/
  | failed {goal : Goal Place} {e : Place} {node : Node} {siblings : List Place}
      {before between after : Progress} {result : Option Place} {vs ws : List (Visit Place)}
      (he : tree.node? e = some node) (hm : ¬ node.meets goal (before.visit node.facts).counters)
      (hs : goal.shallow = false)
      (hbelow : Scan tree goal (tree.children e) (before.visit node.facts)
        none between vs)
      (hrest : Scan tree goal siblings (between.rollBack (before.visit node.facts).counters)
        result after ws) :
      Scan tree goal (e :: siblings) before result after
        (goal.visit e node.facts before :: (vs ++ ws))

/-! ## Visits -/

/-- The element of a visit satisfies the level that it was judged by. -/
def Snapshot.met (tree : Snapshot) (v : Visit Place) : Bool :=
  (tree.node? v.element).any (·.meets v.goal v.counters)

section Visits

variable {tree : Snapshot} {goal : Goal Place} {siblings : List Place} {before after : Progress}
  {result : Option Place} {vs : List (Visit Place)}

theorem met_visit {e : Place} {node : Node} (he : tree.node? e = some node) :
    tree.met (goal.visit e node.facts before)
      = node.meets goal (before.visit node.facts).counters := by
  simp only [Snapshot.met, Goal.visit, he, Option.any_some]

theorem Scan.isSome_of_mem (h : Scan tree goal siblings before result after vs) :
    ∀ v ∈ vs, (tree.node? v.element).isSome := by
  have hvisit {e : Place} {node : Node} {vs : List (Visit Place)} {v w : Visit Place}
      (he : tree.node? e = some node) (hw : w.element = e)
      (hvs : ∀ v ∈ vs, (tree.node? v.element).isSome) (hv : v ∈ w :: vs) :
      (tree.node? v.element).isSome := by
    rcases List.mem_cons.1 hv with rfl | hv
    · rw [hw, he, Option.isSome_some]
    · exact hvs v hv
  induction h with
  | nil => exact fun v hv => absurd hv List.not_mem_nil
  | last he => exact fun v => hvisit he rfl fun v hv => absurd hv List.not_mem_nil
  | commit he _ _ _ ih => exact fun v => hvisit he rfl ih
  | skip he _ _ _ ih => exact fun v => hvisit he rfl ih
  | found he _ _ _ ih => exact fun v => hvisit he rfl ih
  | failed he _ _ _ _ ihbelow ihrest =>
    exact fun v => hvisit he rfl fun v hv => (List.mem_append.1 hv).elim (ihbelow v) (ihrest v)

theorem Scan.isSome_of_found (h : Scan tree goal siblings before result after vs) :
    ∀ e, result = some e → (tree.node? e).isSome := by
  induction h with
  | nil => exact nofun
  | last he =>
    rintro _ ⟨⟩
    rw [he, Option.isSome_some]
  | commit _ _ _ _ ih | skip _ _ _ _ ih | found _ _ _ _ ih => exact ih
  | failed _ _ _ _ _ _ ihrest => exact ihrest

/-- A visit of a scan is for the goal of the scan, or for what was left to find after an earlier
visit of the scan that was met. -/
theorem Scan.goal_of_mem (h : Scan tree goal siblings before result after vs) :
    ∀ v ∈ vs, v.goal = goal
      ∨ ∃ u, [u, v].Sublist vs ∧ tree.met u ∧ u.goal.next? u.element = some v.goal := by
  induction h with
  | nil => exact fun v hv => absurd hv List.not_mem_nil
  | last =>
    intro v hv
    rw [List.mem_singleton.1 hv]
    exact .inl rfl
  | @commit goal next e node _ before _ _ vs he hm hn _ ih =>
    intro v hv
    rcases List.mem_cons.1 hv with rfl | hv
    · exact .inl rfl
    rcases ih v hv with hgoal | ⟨u, hsub, hu⟩
    · refine .inr ⟨_, (List.singleton_sublist.2 hv).cons_cons _, ?_, ?_⟩
      · rw [met_visit he, hm]
      · rw [hgoal]
        exact hn
    · exact .inr ⟨u, hsub.cons _, hu⟩
  | skip _ _ _ _ ih | found _ _ _ _ ih =>
    intro v hv
    rcases List.mem_cons.1 hv with rfl | hv
    · exact .inl rfl
    · exact (ih v hv).imp_right fun ⟨u, hsub, hu⟩ => ⟨u, hsub.cons _, hu⟩
  | failed _ _ _ _ _ ihbelow ihrest =>
    intro v hv
    rcases List.mem_cons.1 hv with rfl | hv
    · exact .inl rfl
    rcases List.mem_append.1 hv with hv | hv
    · exact (ihbelow v hv).imp_right fun ⟨u, hsub, hu⟩ =>
        ⟨u, (hsub.trans (List.sublist_append_left _ _)).cons _, hu⟩
    · exact (ihrest v hv).imp_right fun ⟨u, hsub, hu⟩ =>
        ⟨u, (hsub.trans (List.sublist_append_right _ _)).cons _, hu⟩

end Visits

/-! ## Marks -/

section Marks

variable {tree : Snapshot} {goal : Goal Place} {siblings : List Place} {before after : Progress}
  {result : Option Place} {vs : List (Visit Place)}

theorem Scan.length_marks (h : Scan tree goal siblings before result after vs) :
    after.marks.byLevel.length = before.marks.byLevel.length := by
  induction h with
  | nil => rfl
  | last => exact List.length_set
  | commit _ _ _ _ ih => exact ih.trans List.length_set
  | skip _ _ _ _ ih => exact ih
  | found _ _ _ _ ih => exact ih
  | failed _ _ _ _ _ ihbelow ihrest => exact ihrest.trans ihbelow

theorem Scan.take_marks (h : Scan tree goal siblings before result after vs) :
    after.marks.byLevel.take goal.position = before.marks.byLevel.take goal.position := by
  induction h with
  | nil => rfl
  | last => exact List.take_set_of_le (Nat.le_refl _)
  | @commit goal next _ _ _ _ _ _ _ _ _ hn _ ih =>
    have hposition : next.position = goal.position + 1 := (Goal.ofLevels?_eq_some.1 hn).2.1
    have := congrArg (List.take goal.position) ih
    rw [hposition, List.take_take, List.take_take, Nat.min_eq_left (Nat.le_succ _)] at this
    exact this.trans (List.take_set_of_le (Nat.le_refl _))
  | skip _ _ _ _ ih => exact ih
  | found _ _ _ _ ih => exact ih
  | failed _ _ _ _ _ ihbelow ihrest => exact ihrest.trans ihbelow

end Marks

namespace Search

variable {tree : Snapshot} {clock : Clock}

/-- A program that finds what a scan finds, by the same visits. -/
def GoesBy (tree : Snapshot) (clock : Clock) (program : Search Place (Finding Place))
    (goal : Goal Place) (siblings : List Place) (before : Progress) : Prop :=
  ∃ result after vs, Returns tree.world clock program (result, after) vs
    ∧ Scan tree goal siblings before result after vs

/-! ## One element after the other -/

section Scan

variable {reach : Nat}
  (hbelow : ∀ (goal : Goal Place) (e : Place) (node : Node) (progress : Progress),
    tree.node? e = some node → node.height ≤ reach →
      GoesBy tree clock (searchBelow reach e goal progress) goal (tree.children e)
        progress)
include hbelow

theorem commit_goesBy {goal : Goal Place} {e : Place} {node : Node} {before : Progress}
    (he : tree.node? e = some node) (hh : node.height ≤ reach)
    (hm : node.meets goal (before.visit node.facts).counters) (siblings : List Place) :
    ∃ result after vs,
      Returns tree.world clock
        (commit (searchBelow reach) goal e ((before.visit node.facts).record goal.position))
        (result, after) vs
      ∧ Scan tree goal (e :: siblings) before result after
          (goal.visit e node.facts before :: vs) := by
  unfold commit
  rcases hn : goal.next? e with _ | next
  · exact ⟨_, _, _, .pure _, .last he hm hn⟩
  · obtain ⟨result, after, vs, hrun, hscan⟩ := hbelow next e node _ he hh
    exact ⟨result, after, vs, hrun, .commit he hm hn hscan⟩

theorem scan_goesBy (goal : Goal Place) : ∀ (siblings : List Place) (before : Progress),
    (∀ e ∈ siblings, ∃ node, tree.node? e = some node ∧ node.height ≤ reach) →
      GoesBy tree clock (scan (searchBelow reach) goal siblings before) goal siblings before
  | [], before, _ => ⟨none, before, [], .pure _, .nil goal before⟩
  | e :: siblings, before, hs => by
    obtain ⟨node, he, hh⟩ := hs e List.mem_cons_self
    have hrest := fun progress =>
      scan_goesBy goal siblings progress fun x hx => hs x (List.mem_cons_of_mem e hx)
    have hjudge : Returns tree.world clock (judge goal e before) _ _ :=
      judge_returns he goal before
    unfold scan
    by_cases hm : node.meets goal (before.visit node.facts).counters
    · obtain ⟨result, after, vs, hrun, hscan⟩ := commit_goesBy hbelow he hh hm siblings
      simp only [hm, if_true] at hjudge
      exact ⟨result, after, _, hjudge.bind hrun, hscan⟩
    simp only [hm, if_false, Bool.false_eq_true] at hjudge
    cases hshallow : goal.shallow with
    | true =>
      obtain ⟨result, after, vs, hrun, hscan⟩ := hrest (before.visit node.facts)
      exact ⟨result, after, _, hjudge.bind hrun, .skip he hm hshallow hscan⟩
    | false =>
      obtain ⟨found, between, vs, hrun, hscan⟩ := hbelow goal e node (before.visit node.facts) he hh
      cases found with
      | some x =>
        exact ⟨some x, between, _, hjudge.bind (hrun.bind (.pure _)),
          by simpa using Scan.found he hm hshallow hscan⟩
      | none =>
        obtain ⟨result, after, ws, hrun', hscan'⟩ :=
          hrest (between.rollBack (before.visit node.facts).counters)
        have hfailed := Scan.failed he hm hshallow hscan hscan'
        exact ⟨result, after, _, hjudge.bind (hrun.bind hrun'), hfailed⟩

end Scan

/-! ## Passes -/

section Listed

variable (hlisted : tree.unlisted = false)
include hlisted

theorem searchBelow_goesBy : ∀ (reach : Nat) (goal : Goal Place) (e : Place) (node : Node)
    (progress : Progress), tree.node? e = some node → node.height ≤ reach →
      GoesBy tree clock (searchBelow reach e goal progress) goal (tree.children e)
        progress
  | 0, _, _, node, _, _, hh => absurd hh (by rw [node.height_eq]; omega)
  | reach + 1, goal, e, node, progress, he, hh => by
    have hchildren : Returns tree.world clock (question (.children e)) (tree.children e) [] :=
      answers he fun hn => by
        simp only [Snapshot.answer, Snapshot.checkListed, hlisted, hn, Snapshot.children_eq he]
        rfl
    obtain ⟨result, after, vs, hrun, hscan⟩ :=
      scan_goesBy (searchBelow_goesBy reach) goal (tree.children e) progress fun x hx => by
        obtain ⟨child, hx, hlt⟩ := Snapshot.exists_node_of_mem_children he hx
        exact ⟨child, hx, by omega⟩
    unfold searchBelow
    exact ⟨result, after, vs, hchildren.bind hrun, hscan⟩

theorem rootPass_goesBy {reach : Nat} (hreach : tree.height ≤ reach) (goal : Goal Place)
    (progress : Progress) :
    GoesBy tree clock (rootPass reach goal progress) goal tree.rootPlaces progress.newScope := by
  have hroots : Returns tree.world clock (question .roots) tree.rootPlaces [] :=
    .question (by
      simp only [Snapshot.world, Snapshot.answer, Snapshot.checkListed, hlisted]
      rfl)
  obtain ⟨result, after, vs, hrun, hscan⟩ :=
    scan_goesBy (searchBelow_goesBy hlisted reach) goal tree.rootPlaces progress.newScope
      fun x hx => by
        obtain ⟨root, hx, hle⟩ := Snapshot.exists_node_of_mem_rootPlaces hx
        exact ⟨root, hx, hle.trans hreach⟩
  exact ⟨result, after, vs, hroots.bind hrun, hscan⟩

theorem descendantPass_goesBy {reach : Nat} (hreach : tree.height ≤ reach) {root : Place}
    {node : Node} (hroot : tree.node? root = some node) (goal : Goal Place)
    (progress : Progress) :
    GoesBy tree clock (descendantPass reach root goal progress) goal
      (tree.children root) progress.newScope :=
  searchBelow_goesBy hlisted reach goal root node _ hroot
    ((Snapshot.height_le hroot).trans hreach)

end Listed

end Search

end Locator
