import Locator.Proofs.Requests

/-!
# What is found

An element that a request finds lies at the end of a trail: one visit for each level that was
searched for, each at an element below the one before it, and each at an element that satisfies its
level with the counters of that visit. Levels are marked also by branches that are given up later,
but a scan that succeeds marks all of its levels anew along the trail (`Scan.trail`), so the
counters that come with the levels are those of the trail (`trail_of_found`).
-/

namespace Locator

/-- An element is where a level is looked for: among the roots, or properly below an element, of
which it is a child if the level asks for that. -/
def Snapshot.Reaches (tree : Snapshot) (level : Level) : Option Place → Place → Prop
  | none, e => e ∈ tree.rootPlaces
  | some a, e => a.Above e ∧ (level.fpsm → ∃ i, e = a.child i)

/-- Visits of elements, each of which is reached from the one before it and fulfils its level with
the counters of the visit. -/
inductive Trail (tree : Snapshot) : Option Place → List Level → List (Visit Place) → Prop
  | nil (anchor : Option Place) : Trail tree anchor [] []
  | cons {levels : List Level} {v : Visit Place} {node : Node} {trail : List (Visit Place)}
      (hreach : tree.Reaches v.goal.level v.goal.anchor v.element)
      (hnode : tree.node? v.element = some node)
      (hfulfils : node.Fulfils v.goal.level v.goal.scope v.counters)
      (hrest : Trail tree (some v.element) levels trail) :
      Trail tree v.goal.anchor (v.goal.level :: levels) (v :: trail)

namespace Trail

variable {tree : Snapshot} {anchor : Option Place} {levels : List Level}
  {trail : List (Visit Place)}

theorem levels_eq (h : Trail tree anchor levels trail) : trail.map (·.goal.level) = levels := by
  induction h with
  | nil => rfl
  | cons _ _ _ _ ih => rw [List.map_cons, ih]

end Trail

/-! ## A scan that succeeds -/

section Scan

variable {tree : Snapshot} {goal : Goal Place} {e : Place} {node : Node}

theorem reaches_children (he : tree.node? e = some node) (level : Level) :
    ∀ x ∈ tree.children e, tree.Reaches level (some e) x := by
  intro x hx
  obtain ⟨i, -, rfl⟩ := (Snapshot.mem_children he).1 hx
  exact ⟨Place.above_of_atOrAbove (.refl e) i, fun _ => ⟨i, rfl⟩⟩

theorem reaches_excursion (he : tree.node? e = some node) (hs : goal.shallow = false)
    (h : tree.Reaches goal.level goal.anchor e) :
    ∀ x ∈ tree.children e, tree.Reaches goal.level goal.anchor x := by
  intro x hx
  obtain ⟨hroot, hfpsm⟩ := Bool.or_eq_false_iff.1 hs
  rcases hanchor : goal.anchor with _ | a
  · rw [hanchor] at hroot
    cases hroot
  · rw [hanchor] at h
    exact ⟨h.1.trans (reaches_children he goal.level x hx).1, by rw [hfpsm]; exact nofun⟩

theorem Trail.visit {before : Progress} {levels : List Level} {trail : List (Visit Place)}
    (hreach : tree.Reaches goal.level goal.anchor e) (he : tree.node? e = some node)
    (hm : node.meets goal (before.visit node.facts).counters)
    (hrest : Trail tree (some e) levels trail) :
    Trail tree goal.anchor (goal.level :: levels) (goal.visit e node.facts before :: trail) :=
  @Trail.cons tree levels (goal.visit e node.facts before) node trail hreach he
    ((node.meets_iff goal _).1 hm) hrest

/-- A level that is marked stands after the levels above it. -/
theorem Progress.take_record (progress : Progress) {position : Nat}
    (h : position < progress.marks.byLevel.length) :
    (progress.record position).marks.byLevel.take (position + 1)
      = progress.marks.byLevel.take position ++ [some progress.counters] := by
  rw [List.take_succ_eq_append_getElem (by simpa [record, Marks.set] using h)]
  simp only [record, Marks.set, List.getElem_set_self, List.take_set_of_le (Nat.le_refl position)]

/-- A scan that succeeds leaves the marks of a trail, whatever marks there were. -/
theorem Scan.trail {siblings : List Place} {before after : Progress} {result : Option Place}
    {vs : List (Visit Place)} (h : Scan tree goal siblings before result after vs) :
    (∀ e ∈ siblings, tree.Reaches goal.level goal.anchor e) →
    before.marks.byLevel.length = goal.position + (goal.rest.length + 1) →
    ∀ x, result = some x →
      ∃ trail, Trail tree goal.anchor (goal.level :: goal.rest) trail ∧ trail.Sublist vs
        ∧ trail.getLast?.map (·.element) = some x
        ∧ after.marks.byLevel = before.marks.byLevel.take goal.position
            ++ trail.map fun v => some v.counters := by
  have hlt {position left : Nat} (marks : Marks)
      (h : marks.byLevel.length = position + (left + 1)) : position < marks.byLevel.length := by
    omega
  induction h with
  | nil => exact fun _ _ _ h => absurd h nofun
  | @last goal e node siblings before he hm hn =>
    rintro hs hlen x ⟨⟩
    have hrest : goal.rest = [] := Goal.ofLevels?_eq_none.1 hn
    refine ⟨[goal.visit e node.facts before], ?_, .refl _, rfl, ?_⟩
    · rw [hrest]
      exact .visit (hs e List.mem_cons_self) he hm (.nil _)
    · rw [hrest, List.length_nil] at hlen
      have hmark := (before.visit node.facts).take_record (hlt before.marks hlen)
      have hall : ((before.visit node.facts).record goal.position).marks.byLevel.length
          ≤ goal.position + 1 := (List.length_set.trans hlen).le
      rwa [List.take_of_length_le hall] at hmark
  | @commit goal next e node siblings before after result vs he hm hn hbelow ih =>
    intro hs hlen x hx
    obtain ⟨hanchor, hposition, hrest⟩ := Goal.ofLevels?_eq_some.1 hn
    obtain ⟨trail, htrail, hsub, hlast, hmarks⟩ := ih
      (by rw [hanchor]; exact reaches_children he _)
      (by
        rw [hrest, List.length_cons] at hlen
        rw [hposition]
        exact List.length_set.trans (hlen.trans (by omega))) x hx
    rw [hanchor] at htrail
    refine ⟨_, hrest ▸ .visit (hs e List.mem_cons_self) he hm htrail, hsub.cons_cons _, ?_, ?_⟩
    · rcases trail with _ | ⟨v, trail⟩
      · cases hlast
      · rwa [List.getLast?_cons_cons]
    · -- what is searched for below leaves the mark that was just set
      have hmark := (before.visit node.facts).take_record (hlt before.marks hlen)
      rw [hmarks, hposition]
      exact (congrArg (· ++ _) hmark).trans (List.append_assoc _ _ _)
  | @skip goal e node siblings before after result vs he hm hshallow hrest ih =>
    intro hs hlen x hx
    obtain ⟨trail, htrail, hsub, h⟩ := ih (fun y hy => hs y (List.mem_cons_of_mem e hy)) hlen x hx
    exact ⟨trail, htrail, hsub.cons _, h⟩
  | @found goal e y node siblings before after vs he hm hshallow hbelow ih =>
    intro hs hlen x hx
    obtain ⟨trail, htrail, hsub, h⟩ :=
      ih (reaches_excursion he hshallow (hs e List.mem_cons_self)) hlen x hx
    exact ⟨trail, htrail, hsub.cons _, h⟩
  | @failed goal e node siblings before between after result vs ws he hm hshallow hbelow hrest
      ihbelow ih =>
    intro hs hlen x hx
    obtain ⟨trail, htrail, hsub, hlast, hmarks⟩ :=
      ih (fun y hy => hs y (List.mem_cons_of_mem e hy)) (hbelow.length_marks.trans hlen) x hx
    refine ⟨trail, htrail, (hsub.trans (List.sublist_append_right vs ws)).cons _, hlast, ?_⟩
    -- the excursion may have left marks from the level on, which the trail sets anew
    rw [hmarks]
    exact congrArg (· ++ _) hbelow.take_marks

end Scan

/-! ## What a request finds -/

def Visit.levelMatch (v : Visit Place) : LevelMatch :=
  { level := v.goal.level.raw, counters := v.counters }

/-- How an element was found: along a trail for the levels that the request searches for, which the
last round made. -/
structure FoundAlong (engine : Engine Place) (tree : Snapshot) (request : Request) (time : Clock)
    (located : Located Place) (chain : Chain) (anchor : Option Place) (start : Nat)
    (trail : List (Visit Place)) : Prop where
  searches : engine.Searches tree time request chain anchor start
  reached : Trail tree anchor (chain.levels.drop start) trail
  /-- The element is the last of the trail, or the root in use when nothing was searched for. -/
  element : (trail.getLast?.map (·.element)).or anchor = some located.element
  levels : located.levels = trail.map Visit.levelMatch
  texts : located.levels.map (·.level) = (chain.levels.drop start).map (·.raw)
  lastRound : trail = [] ∨ ∃ goal after round,
    Goal.ofLevels? anchor start (chain.levels.drop start) = some goal
      ∧ Round tree chain goal (some located.element) after round
      ∧ round <:+ engine.visits tree.world request time ∧ trail.Sublist round

theorem reaches_under {tree : Snapshot} {goal : Goal Place} :
    ∀ e ∈ tree.under goal.anchor, tree.Reaches goal.level goal.anchor e := by
  intro e he
  rcases hanchor : goal.anchor with _ | a
  · rwa [hanchor] at he
  · rw [hanchor] at he
    rcases ha : tree.node? a with _ | node
    · simp only [Snapshot.under, Snapshot.children, ha] at he
      exact absurd he List.not_mem_nil
    · exact reaches_children ha goal.level e he

theorem Trail.matchesFrom {tree : Snapshot} {chain : Chain} {start : Nat} {marks : Marks}
    {before : List (Option Counters)} {anchor : Option Place} {trail : List (Visit Place)}
    (h : Trail tree anchor (chain.levels.drop start) trail) (hbefore : before.length = start)
    (hmarks : marks.byLevel = before ++ trail.map fun v => some v.counters) :
    chain.matchesFrom start marks = trail.map Visit.levelMatch := by
  have hdrop : (chain.levels.zip marks.byLevel).drop start
      = trail.map fun v => (v.goal.level, some v.counters) := by
    rw [List.zip, List.drop_zipWith, hmarks, List.drop_left' hbefore, ← h.levels_eq]
    exact List.zip_map'
  rw [Chain.matchesFrom, hdrop, List.filterMap_map]
  exact congrFun List.filterMap_eq_map' trail

/-- An element that is found is found along a trail, and comes with its counters. -/
theorem trail_of_found {engine : Engine Place} {tree : Snapshot} {request : Request} {time : Clock}
    {located : Located Place} (hreach : tree.height ≤ engine.reach)
    (hfound : (engine.handle tree.world request time).1 = .ok (.found located)) :
    ∃ chain anchor start trail,
      FoundAlong engine tree request time located chain anchor start trail := by
  obtain ⟨chain, anchor, start, hsearches, ⟨hanchor, hnone, hlevels⟩
    | ⟨goal, earlier, round, after, hgoal, hvisits, hround, hlevels⟩⟩ :=
    Engine.found_request hreach hfound
  · refine ⟨chain, anchor, start, [], hsearches, hnone ▸ .nil anchor, hanchor, hlevels, ?_,
      .inl rfl⟩
    rw [hlevels, hnone]
    rfl
  · obtain ⟨rfl, rfl, hdrop⟩ := Goal.ofLevels?_eq_some.1 hgoal
    have ⟨counters, hscan⟩ := hround
    have hsize : chain.levels.length = goal.position + (goal.rest.length + 1) := by
      have := congrArg List.length hdrop
      rw [List.length_drop, List.length_cons] at this
      omega
    have hblank : (Marks.blank chain).byLevel.length = goal.position + (goal.rest.length + 1) :=
      (List.length_map _).trans hsize
    obtain ⟨trail, htrail, hsub, hlast, hmarks⟩ :=
      hscan.trail reaches_under hblank located.element rfl
    rw [← hdrop] at htrail
    have hmatches : located.levels = trail.map Visit.levelMatch := by
      rw [hlevels]
      refine htrail.matchesFrom ?_ hmarks
      exact List.length_take_of_le (by rw [hblank]; omega)
    refine ⟨chain, goal.anchor, goal.position, trail, hsearches, htrail, ?_, hmatches, ?_,
      .inr ⟨goal, after, round, hgoal, hround, ⟨earlier, hvisits.symm⟩, hsub⟩⟩
    · rw [hlast, Option.some_or]
    · rw [hmatches, ← htrail.levels_eq, List.map_map, List.map_map]
      rfl

/-- The second button of a window, past a panel with the first. -/
theorem trail_of_found_window :
    ∃ located, ((windowTree.engine {}).handle windowTree.world
        (.root "Class=Window;\\;Class=Button;AbsClassIndex=2" 0 true) {}).1 = .ok (.found located)
      ∧ located.element = ⟨[0, 1]⟩
      ∧ ∃ chain anchor start trail, FoundAlong (windowTree.engine {}) windowTree
          (.root "Class=Window;\\;Class=Button;AbsClassIndex=2" 0 true) {} located chain anchor
          start trail := by
  have h : Engine.elementOf ((windowTree.engine {}).handle windowTree.world
      (.root "Class=Window;\\;Class=Button;AbsClassIndex=2" 0 true) {}).1 = some ⟨[0, 1]⟩ := by
    decide +kernel
  obtain ⟨located, hfound, helement⟩ := Engine.elementOf_eq_some.1 h
  exact ⟨located, hfound, helement, trail_of_found (Nat.le_refl _) hfound⟩

end Locator
