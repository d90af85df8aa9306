import Locator.Proofs.Counting
import Locator.Proofs.DocumentOrder
import Locator.Proofs.Requests
import Mathlib.Algebra.BigOperators.Group.Finset.Piecewise

/-!
# What relative counts of classes and lineages count

Whenever an element is visited in a scope, the relative counts of class names and of lineages are
those of the elements passed on the way down to it: itself, its ancestors below the anchor of the
scope, and the earlier siblings of these (`relative_counts`). A scan keeps this up (`Scan.tallied`)
because it takes the counts back after each excursion that fails, whatever scopes the excursion
began anew.
-/

namespace Locator

/-- An element is passed on the way down from `s` to `e`. -/
def Passed (s e x : Place) : Prop :=
  ∃ a, s.Above a ∧ a.AtOrAbove e ∧ (x = a ∨ x.EarlierSibling a)

namespace Snapshot

open scoped Classical in
noncomputable def passed (tree : Snapshot) (s e : Place) : Finset Place :=
  tree.places.toFinset.filter (Passed s e)

def className? (tree : Snapshot) (e : Place) : Option String :=
  (tree.node? e).map (·.className)

def lineage (tree : Snapshot) (e : Place) : List String :=
  (tree.node? e).elim [] (·.facts.lineage)

def share (tree : Snapshot) (family : Family) (key : String) (e : Place) : Nat :=
  (tree.node? e).elim 0 (·.facts.share family key)

variable {tree : Snapshot} {key : String}

theorem share_className (e : Place) :
    tree.share .className key e = if tree.className? e = some key then 1 else 0 := by
  rcases h : tree.node? e with _ | node
  · simp [share, className?, h]
  · by_cases hkey : node.className = key <;>
      simp [share, className?, Facts.share, Node.facts, h, hkey]

theorem share_subclass (e : Place) :
    tree.share .subclass key e = (tree.lineage e).count key := by
  rcases h : tree.node? e with _ | node <;> simp [share, lineage, Facts.share, h]

end Snapshot

/-! ## The way down -/

section Way

variable {tree : Snapshot} {s p e x : Place}

/-- On the way to a child, what was passed on the way to its parent and the children up to it. -/
theorem passed_child (h : s.AtOrAbove p) (i : Nat) :
    Passed s (p.child i) x ↔ Passed s p x ∨ ∃ j ≤ i, x = p.child j := by
  constructor
  · rintro ⟨a, hsa, ha, hx⟩
    rcases Place.atOrAbove_child_iff.1 ha with rfl | ha
    · rcases hx with rfl | hx
      · exact .inr ⟨i, Nat.le_refl i, rfl⟩
      · obtain ⟨j, hj, rfl⟩ := Place.earlierSibling_child.1 hx
        exact .inr ⟨j, hj.le, rfl⟩
    · exact .inl ⟨a, hsa, ha, hx⟩
  · rintro (⟨a, hsa, ha, hx⟩ | ⟨j, hj, rfl⟩)
    · exact ⟨a, hsa, ha.trans (Place.atOrAbove_child p i), hx⟩
    · refine ⟨p.child i, Place.above_of_atOrAbove h i, .refl _, ?_⟩
      rcases Nat.eq_or_lt_of_le hj with rfl | hj
      · exact .inl rfl
      · exact .inr (Place.earlierSibling_child.2 ⟨j, hj, rfl⟩)

theorem not_passed_self : ¬ Passed s s x :=
  fun ⟨_, hsa, ha, _⟩ => Place.not_above_of_atOrAbove ha hsa

theorem length_le_of_passed (h : Passed s e x) : x.indices.length ≤ e.indices.length := by
  obtain ⟨a, -, ha, rfl | ⟨parent, i, j, rfl, rfl, -⟩⟩ := h
  · exact ha.length_le
  · simpa using ha.length_le

theorem not_passed_child (i : Nat) : ¬ Passed s p (p.child i) := by
  intro h
  have := length_le_of_passed h
  simp only [Place.child, List.length_append, List.length_singleton] at this
  omega

theorem earlier_children {earlier siblings : List Place}
    (h : tree.children p = earlier ++ e :: siblings) :
    e = p.child earlier.length ∧ ∀ x, x ∈ earlier ↔ ∃ j < earlier.length, x = p.child j := by
  obtain ⟨n, hn⟩ : ∃ n, tree.children p = (List.range n).map p.child := by
    unfold Snapshot.children
    split
    · exact ⟨0, rfl⟩
    · exact ⟨_, rfl⟩
  rw [hn] at h
  have hlength := congrArg List.length h
  simp only [List.length_map, List.length_range, List.length_append, List.length_cons] at hlength
  constructor
  · have := congrArg (·[earlier.length]?) h
    simp only [List.getElem?_map, List.getElem?_append_right (Nat.le_refl _), Nat.sub_self,
      List.getElem?_cons_zero, List.getElem?_range (show earlier.length < n by omega)] at this
    exact (Option.some.inj this).symm
  · have := congrArg (List.take earlier.length) h
    rw [List.take_left' rfl, ← List.map_take, List.take_range, Nat.min_eq_left (by omega)] at this
    intro x
    conv_lhs => rw [← this]
    simp only [List.mem_map, List.mem_range, eq_comm]

end Way

/-! ## A scan -/

/-- The relative counts of classes and lineages are those of the elements that are passed on the
way from `s` to `p`, and of some children of `p`. -/
def Tallied (tree : Snapshot) (s p : Place) (earlier : List Place) (counters : Counters) : Prop :=
  ∃ S : Finset Place, (∀ x, x ∈ S ↔ Passed s p x ∨ x ∈ earlier)
    ∧ ∀ family, family.rolledBack = true → ∀ key,
      counters.count family key = ∑ x ∈ S, tree.share family key x

/-- Where a scan for a goal stands: the siblings before those in hand are children of one parent,
and have been counted with all that was passed on the way to it. -/
def Stands (tree : Snapshot) (goal : Goal Place) (siblings : List Place) (counters : Counters) :
    Prop :=
  ∀ s, goal.anchor = some s → ∃ p earlier, s.AtOrAbove p
    ∧ tree.children p = earlier ++ siblings ∧ Tallied tree s p earlier counters

section Scan

variable {tree : Snapshot} {goal : Goal Place} {s p e : Place} {node : Node}
  {earlier siblings : List Place} {counters : Counters}

theorem stands_newScope (hanchor : goal.anchor = some s) (counters : Counters) :
    Stands tree goal (tree.children s) counters.newScope := by
  rintro _ h
  obtain rfl : s = _ := Option.some.inj (hanchor.symm.trans h)
  refine ⟨s, [], .refl s, rfl, ∅, fun x => ?_, fun family _ key => ?_⟩
  · simp [not_passed_self]
  · rw [Counters.count_newScope, Finset.sum_empty]

theorem Tallied.visit (h : Tallied tree s p earlier counters) (hs : s.AtOrAbove p)
    (hchildren : tree.children p = earlier ++ e :: siblings) (he : tree.node? e = some node) :
    Tallied tree s e [] (counters.visit node.facts)
      ∧ Tallied tree s p (earlier ++ [e]) (counters.visit node.facts) := by
  obtain ⟨S, hmem, hcount⟩ := h
  obtain ⟨hchild, hearlier⟩ := earlier_children hchildren
  -- the sum over `insert e S` takes that the element was not counted before
  have hnew : e ∉ S := by
    rw [hmem, hchild]
    rintro (hpassed | hbefore)
    · exact not_passed_child _ hpassed
    · obtain ⟨j, hj, heq⟩ := (hearlier _).1 hbefore
      have := (Place.child_inj.1 heq).2
      omega
  have hsum : ∀ family, family.rolledBack = true → ∀ key,
      (counters.visit node.facts).count family key
        = ∑ x ∈ insert e S, tree.share family key x := by
    intro family hfamily key
    rw [Counters.count_visit, hcount family hfamily key, Finset.sum_insert hnew, Snapshot.share, he,
      Option.elim_some, Nat.add_comm]
  refine ⟨⟨insert e S, fun x => ?_, hsum⟩, ⟨insert e S, fun x => ?_, hsum⟩⟩
  · rw [Finset.mem_insert, hmem, hearlier, hchild, passed_child hs]
    simp only [List.not_mem_nil, or_false]
    constructor
    · rintro (rfl | h | ⟨j, hj, rfl⟩)
      · exact .inr ⟨_, Nat.le_refl _, rfl⟩
      · exact .inl h
      · exact .inr ⟨j, hj.le, rfl⟩
    · rintro (h | ⟨j, hj, rfl⟩)
      · exact .inr (.inl h)
      · rcases Nat.eq_or_lt_of_le hj with rfl | hj
        · exact .inl rfl
        · exact .inr (.inr ⟨j, hj, rfl⟩)
  · rw [Finset.mem_insert, hmem, List.mem_append, List.mem_singleton]
    tauto

theorem Tallied.congr {other : Counters} (h : Tallied tree s p earlier counters)
    (heq : ∀ family, family.rolledBack = true → ∀ key,
      other.count family key = counters.count family key) : Tallied tree s p earlier other := by
  obtain ⟨S, hmem, hcount⟩ := h
  exact ⟨S, hmem, fun family hfamily key => (heq family hfamily key).trans
    (hcount family hfamily key)⟩

/-- What a visit leads to: the visit itself counts what was passed on the way to the element, and
the scan stands before the next sibling, and before the first child. -/
theorem Stands.visit {before : Progress}
    (h : Stands tree goal (e :: siblings) before.counters) (he : tree.node? e = some node) :
    (∀ s, goal.anchor = some s → Tallied tree s e [] (before.visit node.facts).counters)
      ∧ Stands tree goal siblings (before.visit node.facts).counters
      ∧ Stands tree goal (tree.children e) (before.visit node.facts).counters := by
  refine ⟨fun s hs => ?_, fun s hs => ?_, fun s hs => ?_⟩
  · obtain ⟨p, earlier, hp, hchildren, htallied⟩ := h s hs
    exact (htallied.visit hp hchildren he).1
  · obtain ⟨p, earlier, hp, hchildren, htallied⟩ := h s hs
    exact ⟨p, earlier ++ [e], hp, by rw [hchildren, List.append_assoc]; rfl,
      (htallied.visit hp hchildren he).2⟩
  · obtain ⟨p, earlier, hp, hchildren, htallied⟩ := h s hs
    obtain ⟨hchild, -⟩ := earlier_children hchildren
    refine ⟨e, [], hp.trans ?_, rfl, (htallied.visit hp hchildren he).1⟩
    rw [hchild]
    exact Place.atOrAbove_child p _

/-- At every visit of a scan the relative counts of classes and lineages are those of what was
passed on the way to the element. -/
theorem Scan.tallied {before after : Progress} {result : Option Place} {vs : List (Visit Place)}
    (h : Scan tree goal siblings before result after vs) :
    Stands tree goal siblings before.counters →
      ∀ v ∈ vs, ∀ s, v.goal.anchor = some s → Tallied tree s v.element [] v.counters := by
  induction h with
  | nil => exact fun _ v hv => absurd hv List.not_mem_nil
  | @last goal e node siblings before he hm hn =>
    intro hstands v hv
    obtain rfl := List.mem_singleton.1 hv
    exact (hstands.visit he).1
  | @commit goal next e node siblings before after result vs he hm hn hbelow ih =>
    intro hstands v hv
    rcases List.mem_cons.1 hv with rfl | hv
    · exact (hstands.visit he).1
    · exact ih (stands_newScope (Goal.ofLevels?_eq_some.1 hn).1 _) v hv
  | @skip goal e node siblings before after result vs he hm hs hrest ih =>
    intro hstands v hv
    rcases List.mem_cons.1 hv with rfl | hv
    · exact (hstands.visit he).1
    · exact ih (hstands.visit he).2.1 v hv
  | @found goal e x node siblings before after vs he hm hs hbelow ih =>
    intro hstands v hv
    rcases List.mem_cons.1 hv with rfl | hv
    · exact (hstands.visit he).1
    · exact ih (hstands.visit he).2.2 v hv
  | @failed goal e node siblings before between after result vs ws he hm hs hbelow hrest ihbelow
      ihrest =>
    intro hstands v hv
    obtain ⟨hvisit, hsiblings, hchildren⟩ := hstands.visit he
    rcases List.mem_cons.1 hv with rfl | hv
    · exact hvisit
    rcases List.mem_append.1 hv with hv | hv
    · exact ihbelow hchildren v hv
    · refine ihrest (fun s hs => ?_) v hv
      -- the excursion may have begun new scopes, but the counts are taken back
      obtain ⟨p, earlier, hp, hsplit, htallied⟩ := hsiblings s hs
      exact ⟨p, earlier, hp, hsplit, htallied.congr fun family hfamily key =>
        Counters.count_rollBack_of_rolledBack _ _ hfamily key⟩

end Scan

/-! ## A request -/

theorem mem_passed {tree : Snapshot} {s e x : Place} (he : (tree.node? e).isSome) :
    x ∈ tree.passed s e ↔ Passed s e x := by
  simp only [Snapshot.passed, Finset.mem_filter, List.mem_toFinset, Snapshot.mem_places,
    and_iff_right_iff_imp]
  rintro ⟨a, hsa, ha, hx⟩
  have hne : a.indices ≠ [] := fun hnil => hsa.2 (hsa.1.antisymm (by
    unfold Place.AtOrAbove
    rw [hnil]
    exact List.nil_prefix))
  have ha := Snapshot.isSome_of_atOrAbove ha hne he
  rcases hx with rfl | hx
  · exact ha
  · exact Snapshot.isSome_of_earlierSibling hx ha

/-- The anchor of the scope that a visit was made in: the root in use, or the element that satisfied
the level above in the same round. -/
def ScopeParent (engine : Engine Place) (tree : Snapshot) (request : Request) (time : Clock)
    (v : Visit Place) (s : Place) : Prop :=
  (∃ chain start, engine.Searches tree time request chain (some s) start
    ∧ Goal.ofLevels? (some s) start (chain.levels.drop start) = some v.goal)
  ∨ ∃ chain goal result after round u, Round tree chain goal result after round
    ∧ round <:+: engine.visits tree.world request time ∧ [u, v].Sublist round
    ∧ tree.met u ∧ u.element = s ∧ u.goal.next? s = some v.goal

/-- The relative counts at a visit in a scope: of a class, the elements of that class that are
passed on the way down from the anchor of the scope, and of a lineage key, its occurrences in the
lineages of these elements. -/
theorem relative_counts {tree : Snapshot} {engine : Engine Place} {request : Request} {time : Clock}
    (hreach : tree.height ≤ engine.reach) {v : Visit Place}
    (hv : v ∈ engine.visits tree.world request time) {s : Place} (hs : v.goal.anchor = some s) :
    ScopeParent engine tree request time v s
    ∧ (∀ key, v.counters.count .className key
        = ((tree.passed s v.element).filter fun x => tree.className? x = some key).card)
    ∧ ∀ key, v.counters.count .subclass key
        = ∑ x ∈ tree.passed s v.element, (tree.lineage x).count key := by
  obtain ⟨chain, goal, result, after, round, hround, hmem, hinfix, hstart⟩ :=
    Engine.visits_request hreach hv
  have ⟨counters, hscan⟩ := hround
  have hstands : Stands tree goal (tree.under goal.anchor) counters.newScope := by
    intro a ha
    rw [ha]
    exact stands_newScope ha counters a ha
  obtain ⟨S, hS, hcount⟩ := hscan.tallied hstands v hmem s hs
  obtain rfl : S = tree.passed s v.element := by
    ext x
    rw [hS, mem_passed (hscan.isSome_of_mem v hmem)]
    exact or_iff_left List.not_mem_nil
  refine ⟨?_, fun key => ?_, fun key => ?_⟩
  · rcases hscan.goal_of_mem v hmem with rfl | ⟨u, hsub, hmet, hnext⟩
    · rcases hstart with hroot | ⟨anchor, start, hsearches, hgoal⟩
      · rw [hroot] at hs
        cases hs
      · obtain rfl : some s = anchor := hs.symm.trans (Goal.ofLevels?_eq_some.1 hgoal).1
        exact .inl ⟨chain, start, hsearches, hgoal⟩
    · obtain rfl : u.element = s :=
        Option.some.inj ((Goal.ofLevels?_eq_some.1 hnext).1.symm.trans hs)
      exact .inr ⟨chain, goal, result, after, round, u, hround, hinfix, hsub, hmet, rfl, hnext⟩
  · rw [hcount .className rfl, Finset.card_filter]
    exact Finset.sum_congr rfl fun x _ => Snapshot.share_className x
  · rw [hcount .subclass rfl]
    exact Finset.sum_congr rfl fun x _ => Snapshot.share_subclass x

/-- At the second button of a window one button is counted: the one in the panel was taken back. -/
theorem relative_counts_window :
    ∃ v ∈ (windowTree.engine {}).visits windowTree.world
        (.descendant "Class=Window" "Class=Label" 0 true) {},
      v.element = ⟨[0, 1]⟩ ∧ v.goal.anchor = some ⟨[0]⟩
        ∧ ((windowTree.passed ⟨[0]⟩ ⟨[0, 1]⟩).filter
            fun x => windowTree.className? x = some "Button").card = 1 := by
  have h : (((windowTree.engine {}).visits windowTree.world
      (.descendant "Class=Window" "Class=Label" 0 true) {}).find? (·.element = ⟨[0, 1]⟩)).map
        (fun v => (v.goal.anchor, v.counters.count .className "Button"))
      = some (some ⟨[0]⟩, 1) := by decide +kernel
  obtain ⟨v, hfind, hv⟩ := Option.map_eq_some_iff.1 h
  obtain ⟨hanchor, hcount⟩ := Prod.mk.inj hv
  have helement : v.element = ⟨[0, 1]⟩ := by simpa using List.find?_some hfind
  have hmem := List.mem_of_find?_eq_some hfind
  obtain ⟨-, hclass, -⟩ := relative_counts (Nat.le_refl _) hmem hanchor
  refine ⟨v, hmem, helement, hanchor, ?_⟩
  rw [← helement, ← hclass, hcount]

end Locator
