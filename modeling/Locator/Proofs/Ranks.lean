import Locator.Proofs.LinearPasses
import Locator.Proofs.Siblings
import Mathlib.Algebra.GroupWithZero.Nat

/-!
# Ranks at the last level

The relative counts of types, ids and names, and the relative ordinal, are not rolled back. A scan
for the last level begins no new scope, and it looks at elements one after the other. So they grow
with each visit of the scan alone (`Scan.running`): at an element they say how many elements of the
scope, up to this one and in document order, have the type, the id or the name (`ranks`).
-/

namespace Locator

namespace Snapshot

/-- The key under which an element is counted in a family whose counts are not rolled back. -/
def key? (tree : Snapshot) (family : Family) (e : Place) : Option String :=
  (tree.node? e).bind fun node =>
    match family with
    | .type => some node.facts.typeKey
    | .ident => node.ident
    | .name => node.name
    | .className | .subclass => none

theorem share_of_kept (tree : Snapshot) {family : Family} (h : family.rolledBack = false)
    (key : String) (e : Place) :
    tree.share family key e = if tree.key? family e = some key then 1 else 0 := by
  rcases he : tree.node? e with _ | node
  · simp [share, key?, he]
  · cases family with
    | className | subclass => cases h
    | type => by_cases hkey : node.facts.typeKey = key <;> simp [share, key?, Facts.share, he, hkey]
    | ident =>
      by_cases hkey : node.ident = some key <;>
        simp [share, key?, Facts.share, Node.facts, he, hkey]
    | name =>
      by_cases hkey : node.name = some key <;>
        simp [share, key?, Facts.share, Node.facts, he, hkey]

theorem sum_share_of_kept (tree : Snapshot) {family : Family} (h : family.rolledBack = false)
    (key : String) (ps : List Place) :
    (ps.map (tree.share family key)).sum
      = ps.countP fun e => decide (tree.key? family e = some key) := by
  induction ps with
  | nil => rfl
  | cons e ps ih =>
    rw [List.map_cons, List.sum_cons, List.countP_cons, ih, tree.share_of_kept h]
    simp only [decide_eq_true_eq]
    omega

end Snapshot

/-! ## A count that only grows -/

/-- What a count is at some visits: each of them adds to it, and nothing else changes it. -/
def Grows (r : Counters → Nat) (adds : Facts → Nat) : Nat → List (Visit Place) → Prop
  | _, [] => True
  | n, v :: vs => r v.counters = n + adds v.facts ∧ Grows r adds (n + adds v.facts) vs

section Grows

variable {r : Counters → Nat} {adds : Facts → Nat}

theorem grows_append : ∀ {n : Nat} {vs ws : List (Visit Place)}, Grows r adds n (vs ++ ws)
    ↔ Grows r adds n vs ∧ Grows r adds (n + (vs.map (adds ·.facts)).sum) ws
  | _, [], _ => by simp [Grows]
  | n, v :: vs, ws => by
    rw [List.cons_append, Grows, Grows, grows_append, and_assoc, List.map_cons, List.sum_cons,
      Nat.add_assoc]

theorem Grows.at_visit {n : Nat} {pre post : List (Visit Place)} {v : Visit Place}
    (h : Grows r adds n (pre ++ v :: post)) :
    r v.counters = n + ((pre ++ [v]).map (adds ·.facts)).sum := by
  have hv := (grows_append.1 h).2.1
  rw [hv, List.map_append, List.sum_append, List.map_singleton, List.sum_singleton]
  omega

end Grows

/-! ## A scan for the last level -/

section Scan

variable {tree : Snapshot} {goal : Goal Place} {siblings : List Place} {before after : Progress}
  {result : Option Place} {vs : List (Visit Place)}

theorem Scan.facts_of_mem (h : Scan tree goal siblings before result after vs) :
    ∀ v ∈ vs, ∃ node, tree.node? v.element = some node ∧ v.facts = node.facts := by
  induction h with
  | nil => exact fun v hv => absurd hv List.not_mem_nil
  | last he =>
    intro v hv
    obtain rfl := List.mem_singleton.1 hv
    exact ⟨_, he, rfl⟩
  | commit he _ _ _ ih | skip he _ _ _ ih | found he _ _ _ ih =>
    exact List.forall_mem_cons.2 ⟨⟨_, he, rfl⟩, ih⟩
  | failed he _ _ _ _ ihbelow ihrest =>
    exact List.forall_mem_cons.2
      ⟨⟨_, he, rfl⟩, fun v hv => (List.mem_append.1 hv).elim (ihbelow v) (ihrest v)⟩

theorem Scan.goal_eq (h : Scan tree goal siblings before result after vs) :
    goal.rest = [] → ∀ v ∈ vs, v.goal = goal := by
  induction h with
  | nil => exact fun _ v hv => absurd hv List.not_mem_nil
  | last =>
    intro _ v hv
    obtain rfl := List.mem_singleton.1 hv
    rfl
  | commit _ _ hn =>
    intro hrest
    rw [(Goal.ofLevels?_eq_some.1 hn).2.2] at hrest
    cases hrest
  | skip _ _ _ _ ih | found _ _ _ _ ih =>
    exact fun hrest => List.forall_mem_cons.2 ⟨rfl, ih hrest⟩
  | failed _ _ _ _ _ ihbelow ihrest =>
    exact fun hrest => List.forall_mem_cons.2 ⟨rfl, fun v hv =>
      (List.mem_append.1 hv).elim (ihbelow hrest v) (ihrest hrest v)⟩

/-- Whatever grows with visits and is not taken back grows with the visits of a scan for the last
level alone. -/
theorem Scan.running {r : Counters → Nat} {adds : Facts → Nat}
    (hvisit : ∀ c facts, r (Counters.visit c facts) = r c + adds facts)
    (hback : ∀ c saved, r (Counters.rollBack c saved) = r c)
    (h : Scan tree goal siblings before result after vs) : goal.rest = [] →
      Grows r adds (r before.counters) vs
      ∧ (result = none → r after.counters = r before.counters + (vs.map (adds ·.facts)).sum) := by
  have hfirst (before : Progress) (facts : Facts) :
      r (before.visit facts).counters = r before.counters + adds facts :=
    hvisit before.counters facts
  induction h with
  | nil => exact fun _ => ⟨trivial, fun _ => rfl⟩
  | @last _ _ node _ before => exact fun _ => ⟨⟨hfirst before node.facts, trivial⟩, nofun⟩
  | commit _ _ hn =>
    intro hrest
    rw [(Goal.ofLevels?_eq_some.1 hn).2.2] at hrest
    cases hrest
  | @skip goal e node siblings before after result vs he hm hs _ ih =>
    intro hrest
    obtain ⟨hgrows, hend⟩ := ih hrest
    rw [hfirst] at hgrows hend
    refine ⟨⟨hfirst before node.facts, hgrows⟩, fun hnone => ?_⟩
    rw [hend hnone, List.map_cons, List.sum_cons]
    exact Nat.add_assoc _ _ _
  | @found goal e x node siblings before after vs he hm hs _ ih =>
    intro hrest
    obtain ⟨hgrows, -⟩ := ih hrest
    rw [hfirst] at hgrows
    exact ⟨⟨hfirst before node.facts, hgrows⟩, nofun⟩
  | @failed goal e node siblings before between after result vs ws he hm hs _ _ ihbelow ih =>
    intro hrest
    obtain ⟨hbelow, hbetween⟩ := ihbelow hrest
    obtain ⟨hgrows, hend⟩ := ih hrest
    -- what the excursion has counted stays when it fails
    have hstays : r (between.rollBack (before.visit node.facts).counters).counters
        = r before.counters + adds node.facts + (vs.map (adds ·.facts)).sum := by
      rw [← hfirst, ← hbetween rfl]
      exact hback between.counters _
    rw [hstays] at hgrows hend
    rw [hfirst] at hbelow
    refine ⟨⟨hfirst before node.facts, grows_append.2 ⟨hbelow, hgrows⟩⟩, fun hnone => ?_⟩
    rw [hend hnone, List.map_cons, List.sum_cons, List.map_append, List.sum_append]
    change r before.counters + adds node.facts + _ + _ = r before.counters + (adds node.facts + _)
    omega

/-- Where a visit stands among elements in order: its ordinal is the position of its element, and a
count that is not rolled back is the number of elements up to it that are counted under the key. -/
def Snapshot.RankedIn (tree : Snapshot) (order : List Place) (v : Visit Place) : Prop :=
  ∃ before after, order = before ++ v.element :: after
    ∧ v.counters.object = before.length + 1
    ∧ ∀ family, family.rolledBack = false → ∀ key,
      v.counters.count family key
        = (before ++ [v.element]).countP fun e => decide (tree.key? family e = some key)

/-- At a visit of a scan for the last level, begun in a new scope, everything has been counted that
was visited in the scan, and nothing else. -/
theorem Scan.counted {p : Progress} {pre post : List (Visit Place)} {v : Visit Place}
    (h : Scan tree goal siblings p.newScope result after (pre ++ v :: post))
    (hrest : goal.rest = []) :
    v.counters.object = pre.length + 1
    ∧ ∀ family, family.rolledBack = false → ∀ key,
      v.counters.count family key = ((pre ++ [v]).map (·.element)).countP
        fun e => decide (tree.key? family e = some key) := by
  constructor
  · have hgrows := (h.running (r := Counters.object) Counters.object_visit
      Counters.object_rollBack hrest).1.at_visit
    have hstart : p.newScope.counters.object = 0 := p.counters.object_newScope
    rw [hgrows, hstart]
    simp
  · intro family hfamily key
    have hgrows := (h.running (r := (Counters.count · family key))
      (fun c facts => c.count_visit facts family key)
      (fun c saved => c.count_rollBack_of_kept saved hfamily key) hrest).1.at_visit
    have hstart : p.newScope.counters.count family key = 0 := p.counters.count_newScope family key
    have hshares : (pre ++ [v]).map (fun w => w.facts.share family key)
        = (pre ++ [v]).map fun w => tree.share family key w.element := by
      refine List.map_congr_left fun w hw => ?_
      have hmem : w ∈ pre ++ v :: post := by
        rw [List.append_cons]
        exact List.mem_append_left post hw
      obtain ⟨node, hnode, hfacts⟩ := h.facts_of_mem w hmem
      rw [hfacts, Snapshot.share, hnode, Option.elim_some]
    rw [hgrows, hstart, hshares, Nat.zero_add, ← tree.sum_share_of_kept hfamily, List.map_map]
    rfl

/-- A scan for the last level, begun in a new scope, ranks what it looks at. -/
theorem Scan.ranked {p : Progress}
    (h : Scan tree goal siblings p.newScope result after vs) (hrest : goal.rest = []) :
    ∀ v ∈ vs, tree.RankedIn (tree.lookedAt goal siblings) v := by
  intro v hv
  obtain ⟨pre, post, rfl⟩ := List.mem_iff_append.1 hv
  obtain ⟨⟨rest, hrest'⟩, -⟩ := h.prefix_lookedAt hrest
  obtain ⟨hobject, hcounts⟩ := h.counted hrest
  rw [List.map_append] at hcounts
  refine ⟨pre.map (·.element), post.map (·.element) ++ rest, ?_, ?_, hcounts⟩
  · rw [← hrest', List.map_append, List.map_cons, List.append_assoc, List.cons_append]
  · rw [hobject, List.length_map]

end Scan

/-! ## The scopes of a scan -/

/-- A scan in the scope that a visit opened: the visit was met, and what was left to find was looked
for below its element. What the scan comes to, if anything, all comes to. -/
structure ScopeOf (tree : Snapshot) (vs : List (Visit Place)) (result : Option Place)
    (u : Visit Place) (next : Goal Place) (inner : Option Place) (ws : List (Visit Place)) :
    Prop where
  opened : u ∈ vs ∧ tree.met u ∧ u.goal.next? u.element = some next
  within : ws <:+: vs
  scan : ∃ p after, Scan tree next (tree.children u.element) (Progress.newScope p) inner after ws
  decides : inner.isSome → inner = result

namespace ScopeOf

variable {tree : Snapshot} {vs vs' ws : List (Visit Place)} {result result' inner : Option Place}
  {u : Visit Place} {next : Goal Place}

theorem mono (h : ScopeOf tree vs result u next inner ws) (hvs : vs <:+: vs')
    (hresult : result.isSome → result = result') : ScopeOf tree vs' result' u next inner ws where
  opened := h.opened.imp_left fun hmem => hvs.subset hmem
  within := h.within.trans hvs
  scan := h.scan
  decides hsome := by
    have hinner := h.decides hsome
    rw [hinner] at hsome ⊢
    exact hresult hsome

theorem cons (h : ScopeOf tree vs result u next inner ws) (v : Visit Place) :
    ScopeOf tree (v :: vs) result u next inner ws :=
  h.mono (List.suffix_cons v vs).isInfix fun _ => rfl

/-- The scope that is opened by an element that satisfies its level. -/
theorem of_commit {goal : Goal Place} {e : Place} {node : Node} {before after : Progress}
    (he : tree.node? e = some node) (hm : node.meets goal (before.visit node.facts).counters)
    (hn : goal.next? e = some next)
    (hbelow : Scan tree next (tree.children e)
      ((before.visit node.facts).record goal.position).newScope result after vs) :
    ScopeOf tree (goal.visit e node.facts before :: vs) result (goal.visit e node.facts before) next
      result vs where
  opened := ⟨List.mem_cons_self, (met_visit he).trans hm, hn⟩
  within := (List.suffix_cons _ vs).isInfix
  scan := ⟨_, after, hbelow⟩
  decides _ := rfl

theorem anchor (h : ScopeOf tree vs result u next inner ws) : next.anchor = some u.element :=
  (Goal.ofLevels?_eq_some.1 h.opened.2.2).1

end ScopeOf

section Scan

variable {tree : Snapshot} {goal : Goal Place} {siblings : List Place} {before after : Progress}
  {result : Option Place} {vs : List (Visit Place)}

/-- Each visit that was met before the last level opens a scope. -/
theorem Scan.scope_of_met (h : Scan tree goal siblings before result after vs) :
    ∀ u ∈ vs, tree.met u → ∀ next, u.goal.next? u.element = some next →
      ∃ inner ws, ScopeOf tree vs result u next inner ws := by
  induction h with
  | nil => exact fun u hu => absurd hu List.not_mem_nil
  | last he hm hn =>
    intro u hu _ next hnext
    obtain rfl := List.mem_singleton.1 hu
    cases hn.symm.trans hnext
  | commit he hm hn hbelow ih =>
    intro u hu hmet next hnext
    rcases List.mem_cons.1 hu with rfl | hu
    · obtain rfl := Option.some.inj (hn.symm.trans hnext)
      exact ⟨_, _, .of_commit he hm hn hbelow⟩
    · obtain ⟨inner, ws, hscope⟩ := ih u hu hmet next hnext
      exact ⟨inner, ws, hscope.cons _⟩
  | skip he hm _ _ ih | found he hm _ _ ih =>
    intro u hu hmet next hnext
    rcases List.mem_cons.1 hu with rfl | hu
    · exact absurd ((met_visit he).symm.trans hmet) hm
    · obtain ⟨inner, ws, hscope⟩ := ih u hu hmet next hnext
      exact ⟨inner, ws, hscope.cons _⟩
  | failed he hm _ _ _ ihbelow ihrest =>
    intro u hu hmet next hnext
    rcases List.mem_cons.1 hu with rfl | hu
    · exact absurd ((met_visit he).symm.trans hmet) hm
    rcases List.mem_append.1 hu with hu | hu
    · obtain ⟨inner, ws, hscope⟩ := ihbelow u hu hmet next hnext
      exact ⟨inner, ws, (hscope.mono (List.prefix_append _ _).isInfix nofun).cons _⟩
    · obtain ⟨inner, ws, hscope⟩ := ihrest u hu hmet next hnext
      exact ⟨inner, ws, (hscope.mono (List.suffix_append _ _).isInfix fun _ => rfl).cons _⟩

/-- Each visit is made for the goal of the scan or in a scope that another visit opened. -/
theorem Scan.scope_of_mem (h : Scan tree goal siblings before result after vs) :
    ∀ v ∈ vs, v.goal = goal
      ∨ ∃ u inner ws, ScopeOf tree vs result u v.goal inner ws ∧ v ∈ ws := by
  induction h with
  | nil => exact fun v hv => absurd hv List.not_mem_nil
  | last he hm hn =>
    intro v hv
    obtain rfl := List.mem_singleton.1 hv
    exact .inl rfl
  | commit he hm hn hbelow ih =>
    intro v hv
    rcases List.mem_cons.1 hv with rfl | hv
    · exact .inl rfl
    rcases ih v hv with hgoal | ⟨u, inner, ws, hscope, hmem⟩
    · have hscope := ScopeOf.of_commit he hm hn hbelow
      rw [← hgoal] at hscope
      exact .inr ⟨_, _, _, hscope, hv⟩
    · exact .inr ⟨u, inner, ws, hscope.cons _, hmem⟩
  | skip _ _ _ _ ih | found _ _ _ _ ih =>
    intro v hv
    rcases List.mem_cons.1 hv with rfl | hv
    · exact .inl rfl
    rcases ih v hv with hgoal | ⟨u, inner, ws, hscope, hmem⟩
    · exact .inl hgoal
    · exact .inr ⟨u, inner, ws, hscope.cons _, hmem⟩
  | failed _ _ _ _ _ ihbelow ihrest =>
    intro v hv
    rcases List.mem_cons.1 hv with rfl | hv
    · exact .inl rfl
    rcases List.mem_append.1 hv with hv | hv
    · rcases ihbelow v hv with hgoal | ⟨u, inner, ws, hscope, hmem⟩
      · exact .inl hgoal
      · exact .inr ⟨u, inner, ws, (hscope.mono (List.prefix_append _ _).isInfix nofun).cons _, hmem⟩
    · rcases ihrest v hv with hgoal | ⟨u, inner, ws, hscope, hmem⟩
      · exact .inl hgoal
      · exact .inr ⟨u, inner, ws,
          (hscope.mono (List.suffix_append _ _).isInfix fun _ => rfl).cons _, hmem⟩

/-- The levels that a visit is made for are the last levels of the scan. -/
theorem Scan.levels_suffix (h : Scan tree goal siblings before result after vs) :
    ∀ v ∈ vs, v.goal.level :: v.goal.rest <:+ goal.level :: goal.rest := by
  induction h with
  | nil => exact fun v hv => absurd hv List.not_mem_nil
  | last =>
    intro v hv
    obtain rfl := List.mem_singleton.1 hv
    exact List.suffix_refl _
  | @commit goal next _ _ _ _ _ _ _ _ _ hn _ ih =>
    have hrest : goal.rest = next.level :: next.rest := (Goal.ofLevels?_eq_some.1 hn).2.2
    refine List.forall_mem_cons.2 ⟨List.suffix_refl _, fun v hv => ?_⟩
    rw [hrest]
    exact (ih v hv).trans (List.suffix_cons _ _)
  | skip _ _ _ _ ih | found _ _ _ _ ih =>
    exact List.forall_mem_cons.2 ⟨List.suffix_refl _, ih⟩
  | failed _ _ _ _ _ ihbelow ihrest =>
    exact List.forall_mem_cons.2 ⟨List.suffix_refl _, fun v hv =>
      (List.mem_append.1 hv).elim (ihbelow v) (ihrest v)⟩

end Scan

end Locator
