import Locator.Proofs.FirstMatch
import Locator.Proofs.Pacing
import Locator.Proofs.Reaching
import Mathlib.Data.List.Sort

/-!
# A pass goes once through the tree

A pass over a snapshot visits elements in document order, so none of them twice, and asks no
question twice but for the readings of qualifiers (`linear_pass`). The search goes into the part
below an element in two ways, for the same level and for the next, but never in both: an element
that satisfies its level ends the scan that it was visited in (`Scan.sublist`). So a scan for the
last level that finds nothing has gone through all that it could look at (`Scan.lookedAt`).
-/

namespace Locator

/-! ## The order of visits -/

section Scan

variable {tree : Snapshot} {goal : Goal Place} {siblings : List Place} {before after : Progress}
  {result : Option Place} {vs : List (Visit Place)}

/-- A scan visits some of its siblings and of what lies below them, in document order. -/
theorem Scan.sublist (h : Scan tree goal siblings before result after vs) :
    (vs.map (·.element)).Sublist (siblings.flatMap fun e => e :: tree.below e) := by
  induction h with
  | nil => exact List.nil_sublist _
  | last => exact (List.nil_sublist _).cons_cons _
  | commit _ _ _ _ ih | found _ _ _ _ ih =>
    rw [← tree.below_eq] at ih
    rw [List.flatMap_cons, List.cons_append, List.map_cons]
    exact (ih.trans (List.sublist_append_left _ _)).cons_cons _
  | skip _ _ _ _ ih =>
    rw [List.flatMap_cons, List.cons_append, List.map_cons]
    exact (ih.trans (List.sublist_append_right _ _)).cons_cons _
  | failed _ _ _ _ _ ihbelow ihrest =>
    rw [← tree.below_eq] at ihbelow
    rw [List.flatMap_cons, List.cons_append, List.map_cons, List.map_append]
    exact (ihbelow.append ihrest).cons_cons _

/-- A scan for the last level looks at elements one after the other until one satisfies it. -/
theorem Scan.prefix_lookedAt (h : Scan tree goal siblings before result after vs) :
    goal.rest = [] → vs.map (·.element) <+: tree.lookedAt goal siblings
      ∧ (result = none → vs.map (·.element) = tree.lookedAt goal siblings) := by
  induction h with
  | nil goal _ =>
    intro _
    rw [tree.lookedAt_nil goal]
    exact ⟨List.prefix_refl _, fun _ => rfl⟩
  | @last goal e node siblings before he hm hn =>
    intro _
    refine ⟨?_, nofun⟩
    cases hs : goal.shallow <;> simp [Snapshot.lookedAt, hs, Goal.visit]
  | commit _ _ hn =>
    intro hrest
    rw [(Goal.ofLevels?_eq_some.1 hn).2.2] at hrest
    cases hrest
  | @skip goal e node siblings before after result vs he hm hs _ ih =>
    intro hrest
    obtain ⟨hstart, hall⟩ := ih hrest
    rw [Snapshot.lookedAt_cons_of_shallow hs, List.map_cons]
    exact ⟨List.cons_prefix_cons.2 ⟨rfl, hstart⟩, fun hnone => congrArg (e :: ·) (hall hnone)⟩
  | @found goal e x node siblings before after vs he hm hs _ ih =>
    intro hrest
    obtain ⟨hstart, -⟩ := ih hrest
    rw [Snapshot.lookedAt_cons_of_deep hs, List.map_cons]
    exact ⟨List.cons_prefix_cons.2 ⟨rfl, hstart.trans (List.prefix_append _ _)⟩, nofun⟩
  | @failed goal e node siblings before between after result vs ws he hm hs _ _ ihbelow ih =>
    intro hrest
    -- the excursion has looked at all that lies below the element
    have hbelow := (ihbelow hrest).2 rfl
    obtain ⟨hstart, hall⟩ := ih hrest
    rw [Snapshot.lookedAt_cons_of_deep hs, List.map_cons, List.map_append, hbelow]
    refine ⟨List.cons_prefix_cons.2 ⟨rfl, (List.prefix_append_right_inj _).2 hstart⟩,
      fun hnone => ?_⟩
    rw [hall hnone]
    rfl

theorem Scan.absoluteObject (h : Scan tree goal siblings before result after vs) :
    after.counters.absoluteObject = before.counters.absoluteObject + vs.length := by
  have hvisit {before : Progress} {facts : Facts} :
      (before.visit facts).counters.absoluteObject = before.counters.absoluteObject + 1 :=
    Counters.absoluteObject_visit before.counters facts
  induction h with
  | nil => rfl
  | last => exact hvisit
  | @commit goal next e node siblings before after result vs _ _ _ _ ih =>
    have hscope : ((before.visit node.facts).record goal.position).newScope.counters.absoluteObject
        = (before.visit node.facts).counters.absoluteObject := rfl
    rw [ih, hscope, hvisit, List.length_cons]
    omega
  | skip _ _ _ _ ih | found _ _ _ _ ih =>
    rw [ih, hvisit, List.length_cons]
    omega
  | @failed goal e node siblings before between _ _ _ _ _ _ _ _ _ ihbelow ihrest =>
    have hback : (between.rollBack (before.visit node.facts).counters).counters.absoluteObject
        = between.counters.absoluteObject := rfl
    rw [ihrest, hback, ihbelow, hvisit, List.length_cons, List.length_append]
    omega

end Scan

/-! ## All elements -/

namespace Snapshot

variable {tree : Snapshot}

instance : Std.Antisymm fun a b : Place => a.indices < b.indices :=
  ⟨fun _ _ h h' => absurd (List.lt_trans h h') (List.lt_irrefl _)⟩

theorem nodup_of_ordered {ps : List Place} (h : ps.Pairwise (·.indices < ·.indices)) :
    ps.Nodup := by
  refine List.nodup_iff_pairwise_ne.2 (h.imp fun hlt => ?_)
  rintro rfl
  exact List.lt_irrefl _ hlt

/-- Places that are there, in document order, are among all of them. -/
theorem sublist_places {ps : List Place} (hordered : ps.Pairwise (·.indices < ·.indices))
    (hthere : ∀ p ∈ ps, (tree.node? p).isSome) : ps.Sublist tree.places := by
  have hnodup : ps.Nodup := nodup_of_ordered hordered
  refine List.sublist_of_subperm_of_pairwise (List.subperm_of_subset hnodup fun p hp => ?_)
    hordered tree.pairwise_places
  exact mem_places.2 (hthere p hp)

/-- What lies under an anchor, in document order. -/
theorem pairwise_under (tree : Snapshot) (anchor : Option Place) :
    ((tree.under anchor).flatMap fun e => e :: tree.below e).Pairwise
      (·.indices < ·.indices) := by
  cases anchor with
  | none =>
    rw [under, ← tree.places_eq]
    exact tree.pairwise_places
  | some p =>
    rw [under, ← tree.below_eq]
    exact tree.pairwise_below p

theorem notMem_below_self (tree : Snapshot) (p : Place) : p ∉ tree.below p := by
  rcases h : tree.node? p with _ | node
  · simp [below, h]
  · intro hmem
    exact ((mem_below h).1 hmem).1.2 rfl

end Snapshot

/-! ## A pass -/

namespace Search

variable {tree : Snapshot} {engine : Engine Place} {goal : Goal Place}
  {pass : Progress → Search Place (Finding Place)}

/-- A pass goes by a scan in a new scope, or its first question is refused. -/
theorem PassOf.goes (h : PassOf engine goal pass) (hreach : tree.height ≤ engine.reach)
    (p : Progress) (time : Clock) :
    GoesBy tree time (pass p) goal (tree.under goal.anchor) p.newScope
    ∨ ∃ query error, (∀ memory,
        (pass p).run tree.world memory time = ⟨.error error, memory, time⟩)
      ∧ (pass p).visits tree.world time = []
      ∧ (pass p).history tree.world time = [.asked query, .failed error] := by
  have hrefused {query : Query Place} {error : Error} (hanswer : tree.answer query = .error error)
      (next : query.Answer → Search Place (Finding Place)) :
      (∀ memory, (question query >>= next).run tree.world memory time
          = ⟨.error error, memory, time⟩)
        ∧ (question query >>= next).visits tree.world time = []
        ∧ (question query >>= next).history tree.world time = [.asked query, .failed error] := by
    have hworld : tree.world.answer query time = (.error error, time) := by
      simp only [Snapshot.world, hanswer]
    change (∀ memory, (ask query next).run tree.world memory time = _)
      ∧ (ask query next).visits tree.world time = [] ∧ (ask query next).history tree.world time = _
    simp only [Search.run, visits, history, hworld, implies_true, and_self]
  cases h with
  | root chain =>
    cases hlisted : tree.unlisted with
    | false => exact .inl (rootPass_goesBy hlisted hreach chain.rootGoal p)
    | true =>
      exact .inr ⟨_, _, hrefused (Snapshot.answer_roots_of_unlisted hlisted) _⟩
  | @descendant chain root _ hgoal =>
    rw [(Goal.ofLevels?_eq_some.1 hgoal).1]
    cases hlisted : tree.unlisted with
    | true =>
      unfold descendantPass searchBelow
      exact .inr ⟨_, _, hrefused (Snapshot.answer_children_of_unlisted hlisted root) _⟩
    | false =>
      rcases hroot : tree.node? root with _ | node
      · unfold descendantPass searchBelow
        exact .inr ⟨_, _, hrefused (Snapshot.answer_children_of_stale hlisted hroot) _⟩
      · exact .inl (descendantPass_goesBy hlisted hreach hroot goal p)

/-- The question that a pass begins with is asked for no element under its anchor. -/
theorem PassOf.paced (h : PassOf engine goal pass) (tree : Snapshot) (p : Progress) :
    ∃ first, Paced tree.world [first] (pass p) ∧ ∀ vs : List (Visit Place),
      (∀ v ∈ vs, v.element ∈ (tree.under goal.anchor).flatMap fun e => e :: tree.below e) →
        first ∉ askedFor vs := by
  cases h with
  | root chain =>
    refine ⟨.roots, rootPass_paced engine.reach _ p, fun vs _ hfirst => ?_⟩
    obtain ⟨v, -, hv⟩ := mem_askedFor hfirst
    simp [Query.factsOf] at hv
  | @descendant chain root _ hgoal =>
    refine ⟨.children root, descendantPass_paced engine.reach root goal p,
      fun vs hvs hfirst => ?_⟩
    rw [(Goal.ofLevels?_eq_some.1 hgoal).1, Snapshot.under, ← tree.below_eq] at hvs
    obtain ⟨v, hmem, hv⟩ := mem_askedFor hfirst
    have hroot : v.element = root := by
      simp only [Query.factsOf, List.mem_append, List.mem_cons, reduceCtorEq, false_or,
        List.not_mem_nil, Query.children.injEq, or_false] at hv
      exact hv.symm
    exact tree.notMem_below_self root (hroot ▸ hvs v hmem)

/-- A pass that goes once through a snapshot. -/
structure Linear (tree : Snapshot) (time : Clock) (p : Progress)
    (program : Search Place (Finding Place)) : Prop where
  ends : ∃ answer, ∀ memory, program.run tree.world memory time = ⟨answer, memory, time⟩
  sublist : ((program.visits tree.world time).map (·.element)).Sublist tree.places
  ordered : ((program.visits tree.world time).map (·.element)).Pairwise (·.indices < ·.indices)
  once : ∀ query, query.isReading = false →
    (questions (program.history tree.world time)).count query ≤ 1
  ordinal : ∀ memory result after,
    (program.run tree.world memory time).result = .ok (result, after) →
      after.counters.absoluteObject
          = p.counters.absoluteObject + (program.visits tree.world time).length
        ∧ after.counters.absoluteObject ≤ p.counters.absoluteObject + tree.places.length

theorem PassOf.linear (h : PassOf engine goal pass) (hreach : tree.height ≤ engine.reach)
    (p : Progress) (time : Clock) : Linear tree time p (pass p) := by
  rcases h.goes hreach p time with
    ⟨result, after, vs, hreturns, hscan⟩ | ⟨query, error, hrun, hvisits, hhistory⟩
  · have hordered : (vs.map (·.element)).Pairwise (·.indices < ·.indices) :=
      (tree.pairwise_under goal.anchor).sublist hscan.sublist
    have hsublist : (vs.map (·.element)).Sublist tree.places := by
      refine Snapshot.sublist_places hordered fun e he => ?_
      obtain ⟨v, hv, rfl⟩ := List.mem_map.1 he
      exact hscan.isSome_of_mem v hv
    have honce : (lasting ((pass p).history tree.world time)).Nodup := by
      obtain ⟨first, hpaced, hfirst⟩ := h.paced tree p
      have hanswered := answered_of_ok (pass p) {} time _ (congrArg Ending.result (hreturns.run {}))
      have := hpaced time hanswered
      rw [hreturns.visits] at this
      refine this.nodup (List.nodup_cons.2 ⟨hfirst vs fun v hv => ?_, ?_⟩)
      · exact hscan.sublist.mem (List.mem_map_of_mem hv)
      · exact nodup_askedFor (Snapshot.nodup_of_ordered hordered)
    refine ⟨⟨_, hreturns.run⟩, ?_, ?_, fun query hquery => ?_, fun memory result' after' hend => ?_⟩
    · rwa [hreturns.visits]
    · rwa [hreturns.visits]
    · have hcount := List.nodup_iff_count_le_one.1 honce query
      rwa [lasting, List.count_filter (by simpa using hquery)] at hcount
    · obtain ⟨rfl, rfl⟩ := Prod.mk.inj (hreturns.eq_of_run hend)
      have hlength : vs.length ≤ tree.places.length := by
        simpa using hsublist.length_le
      have hgrown : after'.counters.absoluteObject = p.counters.absoluteObject + vs.length :=
        hscan.absoluteObject
      rw [hreturns.visits]
      omega
  · refine ⟨⟨_, hrun⟩, ?_, ?_, fun other _ => ?_, fun memory result after hend => ?_⟩
    · rw [hvisits]
      exact List.nil_sublist _
    · rw [hvisits]
      exact List.Pairwise.nil
    · rw [hhistory]
      exact List.count_le_length
    · rw [hrun] at hend
      cases hend

/-- A search for the last level that finds nothing below an element has visited each proper
descendant of it once. -/
theorem searchBelow_exhausts {reach : Nat} {s : Place} {node : Node} {last : Goal Place}
    {p after : Progress} {time : Clock} {memory : Memory Place} (hs : tree.node? s = some node)
    (hheight : node.height ≤ reach) (hrest : last.rest = []) (hdeep : last.shallow = false)
    (hfailed : ((searchBelow reach s last p).run tree.world memory time).result
      = .ok (none, after)) :
    ((searchBelow reach s last p).visits tree.world time).map (·.element) = tree.below s := by
  cases hlisted : tree.unlisted with
  | false =>
    obtain ⟨result, after', vs, hreturns, hscan⟩ :=
      searchBelow_goesBy hlisted reach last s node p hs hheight
    obtain ⟨rfl, -⟩ := Prod.mk.inj (hreturns.eq_of_run hfailed)
    have hall := (hscan.prefix_lookedAt hrest).2 rfl
    rw [hreturns.visits, hall, tree.below_eq]
    simp [Snapshot.lookedAt, hdeep]
  | true =>
    have hrefused : Refused tree.world time (searchBelow reach s last p) := by
      unfold searchBelow
      exact .bind _ (refuses (Snapshot.answer_children_of_unlisted hlisted s))
    exact absurd hfailed hrefused.not_ok

/-- A pass visits elements in document order, each at most once, and asks no question twice but for
readings; so the absolute ordinal grows by at most the number of elements. No reach that is large
enough makes a difference. A search for the last level, at whatever depth, that finds nothing below
an element has visited all that lies below it. -/
theorem linear_pass (hpass : PassOf engine goal pass) (hreach : tree.height ≤ engine.reach)
    (p : Progress) (time : Clock) :
    Linear tree time p (pass p)
    ∧ (∀ reach' pass', engine.reach ≤ reach' →
      PassOf { engine with reach := reach' } goal pass' → Same tree.world (pass p) (pass' p))
    ∧ ∀ (reach : Nat) (s : Place) (node : Node) (last : Goal Place) (q after : Progress)
      (memory : Memory Place), tree.node? s = some node → node.height ≤ reach →
      last.rest = [] → last.shallow = false →
      ((searchBelow reach s last q).run tree.world memory time).result = .ok (none, after) →
        ((searchBelow reach s last q).visits tree.world time).map (·.element) = tree.below s :=
  ⟨hpass.linear hreach p time,
    fun _ _ hle hpass' => hpass.same hpass' (Snapshot.ranked hreach) hle p,
    fun _ _ _ _ _ _ _ hs hheight hrest hdeep hfailed =>
      searchBelow_exhausts hs hheight hrest hdeep hfailed⟩

/-- The search for a label below a window goes through the window once. -/
theorem linear_pass_window :
    let engine := windowTree.engine {}
    let label : Goal Place := ⟨some ⟨[0]⟩, 0, Level.ofText "Class=Label", []⟩
    let start : Progress := ⟨{}, ⟨[none]⟩⟩
    Linear windowTree {} start (descendantPass engine.reach ⟨[0]⟩ label start)
      ∧ Same windowTree.world (descendantPass engine.reach ⟨[0]⟩ label start)
        (descendantPass 9 ⟨[0]⟩ label start)
      ∧ ((searchBelow 3 ⟨[0]⟩ label start).visits windowTree.world {}).map (·.element)
        = [⟨[0, 0]⟩, ⟨[0, 0, 0]⟩, ⟨[0, 1]⟩] := by
  intro engine label start
  have hgoal : Engine.goalBelow? engine.settings
      ⟨"Class=Label", Level.ofText "Class=Label", []⟩ (⟨[0]⟩ : Place) = some label := by
    decide +kernel
  obtain ⟨hlinear, hsame, hexhausts⟩ := linear_pass (.descendant hgoal)
    (Nat.le_refl windowTree.height) start {}
  refine ⟨hlinear, hsame 9 _ (by decide +kernel) (.descendant hgoal), ?_⟩
  have hmissed : ((searchBelow 3 ⟨[0]⟩ label start).run windowTree.world {} {}).result.toOption.map
      (·.1) = some none := by decide +kernel
  rcases hend : ((searchBelow 3 ⟨[0]⟩ label start).run windowTree.world {} {}).result with
    error | ⟨found, after⟩ <;> rw [hend] at hmissed
  · cases hmissed
  · obtain rfl : found = none := Option.some.inj hmissed
    rw [hexhausts 3 ⟨[0]⟩ _ label start after {} rfl (by decide +kernel) rfl rfl hend]
    decide +kernel

end Search

end Locator
