import Locator.Proofs.Commitment
import Locator.Proofs.DocumentOrder
import Locator.Proofs.Selecting
import Locator.Proofs.SinglePasses
import Locator.Proofs.StillTree

/-!
# What decides an answer

A search judges elements in document order and stops at the one it finds. So what lies after that
element has no part in the answer: over any tree that agrees with the first up to there
(`Snapshot.AgreeUpTo`) a single pass finds the same element, with the same counters at every level
(`found_again`). An excursion that fails lies before the element as a whole, and on the way to the
element the siblings are the same as far as the one that leads there (`Forks`), so every scan of the
one tree is a scan of the other (`Scan.agree`).
-/

namespace Locator

/-! ## Places in document order -/

namespace Place

/-- All that lies at or below a place comes before another in document order. -/
def EndsBefore (e x : Place) : Prop :=
  ∀ d, e.AtOrAbove d → d.indices < x.indices

variable {e p x : Place}

theorem AtOrAbove.le (h : e.AtOrAbove x) : e.indices ≤ x.indices :=
  not_lt.1 (List.IsPrefix.le h)

theorem EndsBefore.lt (h : e.EndsBefore x) : e.indices < x.indices :=
  h e (.refl e)

theorem EndsBefore.below {d : Place} (h : e.EndsBefore x) (hd : e.AtOrAbove d) : d.EndsBefore x :=
  fun c hc => h c (hd.trans hc)

/-- What lies at or below a child comes before what lies at or below a later one. -/
theorem endsBefore_child {i j : Nat} (hij : i < j) (hx : (p.child j).AtOrAbove x) :
    (p.child i).EndsBefore x := by
  rintro ⟨_⟩ ⟨d, rfl⟩
  obtain ⟨indices⟩ := x
  obtain ⟨c, rfl⟩ := hx
  simp only [child, List.append_assoc]
  exact List.append_left_lt (List.cons_lt_cons_iff.2 (.inl hij))

end Place

/-! ## Trees that agree up to an element -/

namespace Node

/-- A node as it is on its own. -/
def alone (node : Node) : Node :=
  { node with children := [] }

theorem satisfies_alone (node : Node) (s : Situation) :
    ∀ (ancestor : Option String) (qualifiers : List Qualifier),
      node.alone.satisfies s ancestor qualifiers = node.satisfies s ancestor qualifiers
  | _, [] => rfl
  | ancestor, q :: rest => by
    have hreading : node.alone.reading q.reading? = node.reading q.reading? := by
      rcases q.reading? with _ | _ | _ | _ <;> rfl
    rw [satisfies, satisfies, satisfies_alone node s _ rest, hreading]

/-- All that an element is judged by it shows on its own. -/
theorem judged_alike {node node' : Node} (h : node'.alone = node.alone) :
    node'.facts = node.facts ∧ ∀ (goal : Goal Place) (counters : Counters),
      node'.meets goal counters = node.meets goal counters := by
  have hfacts : node'.facts = node.facts := by
    change node'.alone.facts = node.alone.facts
    rw [h]
  refine ⟨hfacts, fun goal counters => ?_⟩
  unfold meets
  rw [hfacts, ← satisfies_alone node', ← satisfies_alone node, h]

end Node

namespace Snapshot

/-- Up to a place in document order two trees have the same elements, alike but for their children.
What comes after it may differ, and so may its own children. -/
structure AgreeUpTo (tree tree' : Snapshot) (x : Place) : Prop where
  listed : tree'.unlisted = tree.unlisted
  alone : ∀ p, p.indices ≤ x.indices →
    (tree'.node? p).map Node.alone = (tree.node? p).map Node.alone

/-- The elements up to a place in document order, each as it is on its own. -/
def upTo (tree : Snapshot) (x : Place) : List (Place × Option Node) :=
  (tree.places.filter (·.indices ≤ x.indices)).map fun p => (p, (tree.node? p).map Node.alone)

variable {tree tree' : Snapshot} {e x : Place}

theorem mem_upTo {p : Place} {node : Option Node} : (p, node) ∈ tree.upTo x
    ↔ (tree.node? p).isSome ∧ p.indices ≤ x.indices ∧ (tree.node? p).map Node.alone = node := by
  simp only [upTo, List.mem_map, List.mem_filter, mem_places, decide_eq_true_eq, Prod.mk.injEq]
  constructor
  · rintro ⟨_, ⟨hp, hle⟩, rfl, h⟩
    exact ⟨hp, hle, h⟩
  · rintro ⟨hp, hle, h⟩
    exact ⟨p, ⟨hp, hle⟩, rfl, h⟩

/-- Whether trees agree is seen from their elements. -/
theorem AgreeUpTo.of_upTo (hlisted : tree'.unlisted = tree.unlisted)
    (h : tree'.upTo x = tree.upTo x) : tree.AgreeUpTo tree' x where
  listed := hlisted
  alone p hp := by
    have hmem := congrArg ((p, (tree.node? p).map Node.alone) ∈ ·) h
    have hmem' := congrArg ((p, (tree'.node? p).map Node.alone) ∈ ·) h
    simp only [mem_upTo, hp, true_and, and_true, eq_iff_iff] at hmem hmem'
    rcases hnode : tree.node? p with _ | node
    · rcases hnode' : tree'.node? p with _ | node'
      · rfl
      · rw [hnode, hnode'] at hmem'
        exact absurd (hmem'.1 rfl).1 Bool.false_ne_true
    · rw [hnode] at hmem
      exact (hmem.2 rfl).2

namespace AgreeUpTo

variable (h : tree.AgreeUpTo tree' x)
include h

theorem mono (he : e.indices ≤ x.indices) : tree.AgreeUpTo tree' e :=
  ⟨h.listed, fun p hp => h.alone p (hp.trans he)⟩

theorem exists_node {node : Node} (he : e.indices ≤ x.indices) (hnode : tree.node? e = some node) :
    ∃ node', tree'.node? e = some node' ∧ node'.alone = node.alone := by
  have := h.alone e he
  rw [hnode] at this
  exact Option.map_eq_some_iff.1 this

/-- An element up to the place is judged alike in both trees. -/
theorem exists_alike {node : Node} (he : e.indices ≤ x.indices) (hnode : tree.node? e = some node) :
    ∃ node', tree'.node? e = some node' ∧ node'.facts = node.facts
      ∧ ∀ (goal : Goal Place) (counters : Counters),
        node'.meets goal counters = node.meets goal counters := by
  obtain ⟨node', hnode', halone⟩ := h.exists_node he hnode
  exact ⟨node', hnode', Node.judged_alike halone⟩

theorem isSome_iff (he : e.indices ≤ x.indices) :
    (tree'.node? e).isSome ↔ (tree.node? e).isSome := by
  have := congrArg Option.isSome (h.alone e he)
  rw [Option.isSome_map, Option.isSome_map] at this
  rw [this]

/-- An element that lies before the place with all that is below it has the same children. -/
theorem children_eq {node : Node} (hnode : tree.node? e = some node) (he : e.EndsBefore x) :
    tree'.children e = tree.children e := by
  obtain ⟨node', hnode', -⟩ := h.exists_node he.lt.le hnode
  have hiff (i : Nat) : i < node'.children.length ↔ i < node.children.length := by
    have := h.isSome_iff (he.below (Place.atOrAbove_child e i)).lt.le
    rwa [node?_child hnode, node?_child hnode', isSome_getElem?, isSome_getElem?] at this
  have hlength : node'.children.length = node.children.length :=
    Nat.le_antisymm (Nat.le_of_not_lt fun h => Nat.lt_irrefl _ ((hiff _).1 h))
      (Nat.le_of_not_lt fun h => Nat.lt_irrefl _ ((hiff _).2 h))
  rw [Snapshot.children_eq hnode, Snapshot.children_eq hnode', childPlaces, childPlaces, hlength]

end AgreeUpTo

end Snapshot

open Snapshot

/-! ## Scans of trees that agree -/

/-- Two lists of siblings that are the same up to a place: all of them, if they and what is below
them come before it, or those as far as the one that it lies at or below. -/
inductive Forks (x : Place) : List Place → List Place → Prop
  | nil : Forks x [] []
  | here {e : Place} {siblings : List Place} (he : e.AtOrAbove x)
      (hlater : ∀ s ∈ siblings, ¬ s.AtOrAbove x) (siblings' : List Place) :
      Forks x (e :: siblings) (e :: siblings')
  | later {e : Place} {siblings siblings' : List Place} (he : e.EndsBefore x)
      (h : Forks x siblings siblings') : Forks x (e :: siblings) (e :: siblings')

theorem Forks.refl {x : Place} : ∀ {siblings : List Place}, (∀ e ∈ siblings, e.EndsBefore x) →
    Forks x siblings siblings
  | [], _ => .nil
  | e :: _, h => .later (h e List.mem_cons_self) (.refl fun s hs => h s (List.mem_cons_of_mem e hs))

theorem forks_range' {p x : Place} {k : Nat} (hx : (p.child k).AtOrAbove x) :
    ∀ {first count count' : Nat}, first ≤ k → k < first + count → k < first + count' →
      Forks x ((List.range' first count).map p.child) ((List.range' first count').map p.child)
  | first, 0, _, hle, hlt, _ => by omega
  | first, _, 0, hle, _, hlt => by omega
  | first, count + 1, count' + 1, hle, hlt, hlt' => by
    rw [List.range'_succ, List.range'_succ, List.map_cons, List.map_cons]
    rcases Nat.eq_or_lt_of_le hle with rfl | hne
    · refine .here hx (fun s hs hsx => ?_) _
      obtain ⟨j, hj, rfl⟩ := List.mem_map.1 hs
      exact lt_irrefl _ ((Place.endsBefore_child (List.mem_range'_1.1 hj).1 hsx) x hx)
    · exact .later (Place.endsBefore_child hne hx) (forks_range' hx hne (by omega) (by omega))

theorem Place.Above.exists_child {e x : Place} (h : e.Above x) :
    ∃ k, (e.child k).AtOrAbove x := by
  obtain ⟨⟨way, hway⟩, hne⟩ := h
  rcases way with _ | ⟨k, rest⟩
  · rw [List.append_nil] at hway
    exact absurd (congrArg Place.mk hway) hne
  · exact ⟨k, rest, by rw [child, List.append_assoc]; exact hway⟩

section Agree

variable {tree tree' : Snapshot} {goal : Goal Place} {siblings siblings' : List Place}
  {e x : Place} {node : Node} {before after : Progress} {result : Option Place}
  {vs : List (Visit Place)}

namespace Snapshot.AgreeUpTo

theorem forks_children (h : tree.AgreeUpTo tree' x) (hnode : tree.node? e = some node)
    (hx : (tree.node? x).isSome) (hbelow : e.Above x) :
    Forks x (tree.children e) (tree'.children e) := by
  obtain ⟨node', hnode', -⟩ := h.exists_node hbelow.1.le hnode
  obtain ⟨k, hk⟩ := hbelow.exists_child
  have hthere : (tree.node? (e.child k)).isSome := isSome_of_atOrAbove hk (by simp [Place.child]) hx
  have hthere' := (h.isSome_iff hk.le).2 hthere
  rw [node?_child hnode, isSome_getElem?] at hthere
  rw [node?_child hnode', isSome_getElem?] at hthere'
  rw [Snapshot.children_eq hnode, Snapshot.children_eq hnode', childPlaces, childPlaces,
    List.range_eq_range', List.range_eq_range']
  exact forks_range' hk (Nat.zero_le k) (by omega) (by omega)

theorem forks_rootPlaces (h : tree.AgreeUpTo tree' x) (hx : (tree.node? x).isSome) :
    Forks x tree.rootPlaces tree'.rootPlaces := by
  obtain ⟨_ | ⟨k, rest⟩⟩ := x
  · cases hx
  have hk : (Place.child ⟨[]⟩ k).AtOrAbove ⟨k :: rest⟩ := ⟨rest, rfl⟩
  have hthere : (tree.node? (.root k)).isSome := isSome_of_atOrAbove hk (by simp [Place.root]) hx
  have hthere' := (h.isSome_iff (e := .root k) hk.le).2 hthere
  rw [node?_root, isSome_getElem?] at hthere hthere'
  rw [rootPlaces, rootPlaces, List.range_eq_range', List.range_eq_range']
  exact forks_range' hk (Nat.zero_le k) (by omega) (by omega)

end Snapshot.AgreeUpTo

theorem Scan.found_atOrBelow (h : Scan tree goal siblings before result after vs) :
    ∀ x, result = some x → ∃ s ∈ siblings, s.AtOrAbove x := by
  induction h with
  | nil => exact nofun
  | last =>
    rintro _ ⟨⟩
    exact ⟨_, List.mem_cons_self, .refl _⟩
  | commit he _ _ _ ih | found he _ _ _ ih =>
    intro x hx
    obtain ⟨s, hs, hsx⟩ := ih x hx
    exact ⟨_, List.mem_cons_self, (above_of_atOrAbove_children he hs hsx).1⟩
  | skip _ _ _ _ ih | failed _ _ _ _ _ _ ih =>
    intro x hx
    obtain ⟨s, hs, hsx⟩ := ih x hx
    exact ⟨s, List.mem_cons_of_mem _ hs, hsx⟩

/-- A scan comes to a place, or the place is not among its siblings and what is below them. -/
def Decides (x : Place) (siblings : List Place) (result : Option Place) : Prop :=
  result = some x ∨ ∀ s ∈ siblings, ¬ s.AtOrAbove x

/-- Below an element at or before a place its children are the same up to there. -/
theorem Scan.forks_below (h : Scan tree goal (tree.children e) before result after vs)
    (hagree : tree.AgreeUpTo tree' x) (he : tree.node? e = some node)
    (hfirst : result = some x ∨ e.EndsBefore x) :
    Forks x (tree.children e) (tree'.children e) ∧ Decides x (tree.children e) result := by
  rcases hfirst with hx | hends
  · obtain ⟨s, hs, hsx⟩ := h.found_atOrBelow x hx
    exact ⟨hagree.forks_children he (h.isSome_of_found x hx)
      (above_of_atOrAbove_children he hs hsx), .inl hx⟩
  · have hchild (s : Place) (hs : s ∈ tree.children e) : s.EndsBefore x := by
      obtain ⟨i, -, rfl⟩ := (mem_children he).1 hs
      exact hends.below (Place.atOrAbove_child e i)
    rw [hagree.children_eq he hends]
    exact ⟨.refl hchild, .inr fun s hs hsx => lt_irrefl _ (hchild s hs x hsx)⟩

theorem Forks.first (h : Forks x (e :: siblings) siblings')
    (hx : Decides x (e :: siblings) result) :
    ∃ rest, siblings' = e :: rest ∧ e.indices ≤ x.indices
      ∧ (result = some x ∨ e.EndsBefore x) := by
  cases h with
  | here he hlater rest =>
    exact ⟨rest, rfl, he.le, .inl (hx.resolve_right fun h => h e List.mem_cons_self he)⟩
  | later he => exact ⟨_, rfl, he.lt.le, .inr he⟩

/-- If a scan goes on with the siblings of an element, that element comes before the place with all
that is below it. -/
theorem Forks.rest {rest : List Place} (h : Forks x (e :: siblings) (e :: rest))
    (hx : Decides x (e :: siblings) result)
    (hscan : Scan tree goal siblings before result after vs) :
    e.EndsBefore x ∧ Forks x siblings rest ∧ Decides x siblings result := by
  cases h with
  | here he hlater =>
    have hfound : result = some x := hx.resolve_right fun h => h e List.mem_cons_self he
    obtain ⟨s, hs, hsx⟩ := hscan.found_atOrBelow x hfound
    exact absurd hsx (hlater s hs)
  | later he h =>
    exact ⟨he, h, hx.imp_right fun h s hs => h s (List.mem_cons_of_mem e hs)⟩

/-- A scan of one tree is a scan of another that agrees with it up to a place, if it comes to the
place or passes before it. -/
theorem Scan.agree (h : Scan tree goal siblings before result after vs)
    (hagree : tree.AgreeUpTo tree' x) : ∀ siblings', Forks x siblings siblings' →
      Decides x siblings result → Scan tree' goal siblings' before result after vs := by
  induction h with
  | nil goal progress =>
    rintro _ ⟨⟩ -
    exact .nil goal progress
  | last he hm hn =>
    intro siblings' hforks hx
    obtain ⟨rest, rfl, hle, -⟩ := hforks.first hx
    obtain ⟨node', he', hfacts, hmeets⟩ := hagree.exists_alike hle he
    rw [← hmeets, ← hfacts] at hm
    rw [← hfacts]
    exact .last he' hm hn
  | commit he hm hn hbelow ih =>
    intro siblings' hforks hx
    obtain ⟨rest, rfl, hle, hfirst⟩ := hforks.first hx
    obtain ⟨node', he', hfacts, hmeets⟩ := hagree.exists_alike hle he
    obtain ⟨hchildren, hdecides⟩ := hbelow.forks_below hagree he hfirst
    have hscan := ih _ hchildren hdecides
    rw [← hmeets, ← hfacts] at hm
    rw [← hfacts] at hscan ⊢
    exact .commit he' hm hn hscan
  | skip he hm hshallow hrest ih =>
    intro siblings' hforks hx
    obtain ⟨rest, rfl, hle, -⟩ := hforks.first hx
    obtain ⟨node', he', hfacts, hmeets⟩ := hagree.exists_alike hle he
    obtain ⟨-, hsiblings, hdecides⟩ := hforks.rest hx hrest
    have hscan := ih _ hsiblings hdecides
    rw [← hmeets, ← hfacts] at hm
    rw [← hfacts] at hscan ⊢
    exact .skip he' hm hshallow hscan
  | found he hm hshallow hbelow ih =>
    intro siblings' hforks hx
    obtain ⟨rest, rfl, hle, hfirst⟩ := hforks.first hx
    obtain ⟨node', he', hfacts, hmeets⟩ := hagree.exists_alike hle he
    obtain ⟨hchildren, hdecides⟩ := hbelow.forks_below hagree he hfirst
    have hscan := ih _ hchildren hdecides
    rw [← hmeets, ← hfacts] at hm
    rw [← hfacts] at hscan ⊢
    exact .found he' hm hshallow hscan
  | failed he hm hshallow hbelow hrest ihbelow ihrest =>
    intro siblings' hforks hx
    obtain ⟨rest, rfl, hle, -⟩ := hforks.first hx
    obtain ⟨node', he', hfacts, hmeets⟩ := hagree.exists_alike hle he
    -- the excursion fails, so the place lies past all that is below the element
    obtain ⟨hends, hsiblings, hdecides⟩ := hforks.rest hx hrest
    obtain ⟨hchildren, hnone⟩ := hbelow.forks_below hagree he (.inr hends)
    have hscan := ihbelow _ hchildren hnone
    have hscan' := ihrest _ hsiblings hdecides
    rw [← hmeets, ← hfacts] at hm
    rw [← hfacts] at hscan hscan' ⊢
    exact .failed he' hm hshallow hscan hscan'

/-- A scan has one outcome. -/
theorem Scan.unique (h : Scan tree goal siblings before result after vs) :
    ∀ {result' : Option Place} {after' : Progress} {vs' : List (Visit Place)},
      Scan tree goal siblings before result' after' vs' →
        result = result' ∧ after = after' ∧ vs = vs' := by
  have hnode {e : Place} {node node' : Node} (he : tree.node? e = some node)
      (he' : tree.node? e = some node') : node' = node :=
    Option.some.inj (he'.symm.trans he)
  induction h with
  | nil =>
    rintro _ _ _ ⟨⟩
    exact ⟨rfl, rfl, rfl⟩
  | last he hm hn =>
    intro result' after' vs' h'
    cases h' with
    | last he' => exact hnode he he' ▸ ⟨rfl, rfl, rfl⟩
    | commit _ _ hn' => cases hn.symm.trans hn'
    | skip he' hm' | found he' hm' | failed he' hm' => exact absurd (hnode he he' ▸ hm) hm'
  | commit he hm hn _ ih =>
    intro result' after' vs' h'
    cases h' with
    | last _ _ hn' => cases hn.symm.trans hn'
    | commit he' _ hn' hbelow =>
      obtain rfl := hnode he he'
      obtain rfl := Option.some.inj (hn'.symm.trans hn)
      obtain ⟨rfl, rfl, rfl⟩ := ih hbelow
      exact ⟨rfl, rfl, rfl⟩
    | skip he' hm' | found he' hm' | failed he' hm' => exact absurd (hnode he he' ▸ hm) hm'
  | skip he hm hs _ ih =>
    intro result' after' vs' h'
    cases h' with
    | last he' hm' | commit he' hm' => exact absurd (hnode he he' ▸ hm') hm
    | skip he' _ _ hrest =>
      obtain rfl := hnode he he'
      obtain ⟨rfl, rfl, rfl⟩ := ih hrest
      exact ⟨rfl, rfl, rfl⟩
    | found _ _ hs' | failed _ _ hs' => cases hs.symm.trans hs'
  | found he hm hs _ ih =>
    intro result' after' vs' h'
    cases h' with
    | last he' hm' | commit he' hm' => exact absurd (hnode he he' ▸ hm') hm
    | skip _ _ hs' => cases hs.symm.trans hs'
    | found he' _ _ hbelow =>
      obtain rfl := hnode he he'
      obtain ⟨hx, rfl, rfl⟩ := ih hbelow
      exact ⟨hx, rfl, rfl⟩
    | failed he' _ _ hbelow =>
      obtain rfl := hnode he he'
      cases (ih hbelow).1
  | failed he hm hs _ _ ihbelow ihrest =>
    intro result' after' vs' h'
    cases h' with
    | last he' hm' | commit he' hm' => exact absurd (hnode he he' ▸ hm') hm
    | skip _ _ hs' => cases hs.symm.trans hs'
    | found he' _ _ hbelow =>
      obtain rfl := hnode he he'
      cases (ihbelow hbelow).1
    | failed he' _ _ hbelow hrest =>
      obtain rfl := hnode he he'
      obtain ⟨-, rfl, rfl⟩ := ihbelow hbelow
      obtain ⟨rfl, rfl, rfl⟩ := ihrest hrest
      exact ⟨rfl, rfl, rfl⟩

end Agree

/-! ## Passes -/

namespace Search

variable {tree tree' : Snapshot} {engine engine' : Engine Place} {goal : Goal Place} {x : Place}
  {pass pass' : Progress → Search Place (Finding Place)} {chain : Chain} {after : Progress}

theorem PassOf.refused_of_unlisted (h : PassOf engine goal pass) (hunlisted : tree.unlisted = true)
    (time : Clock) (p : Progress) : Refused tree.world time (pass p) := by
  cases h with
  | root chain => exact (refuses (Snapshot.answer_roots_of_unlisted hunlisted)).bind _
  | @descendant chain root =>
    unfold descendantPass searchBelow
    exact (refuses (Snapshot.answer_children_of_unlisted hunlisted root)).bind _

/-- What a first pass finds it finds by a scan of a tree whose elements can be listed. -/
theorem PassOf.scan_of_first (h : PassOf engine goal pass) (hreach : tree.height ≤ engine.reach)
    (hfirst : firstPass pass chain tree.answer = .ok (some x, after)) (time : Clock) :
    tree.unlisted = false ∧ ∃ vs, Scan tree goal (tree.under goal.anchor)
      (Progress.start chain).unmarked.newScope (some x) after vs := by
  have hrun := h.run_first (tree.world_answers time) chain {}
  rw [hfirst] at hrun
  have hfound {program : Search Place (Finding Place)} (hrefused : Refused tree.world time program)
      (hrun : program.run tree.world {} time = ⟨.ok (some x, after), {}, time⟩) : False :=
    hrefused.not_ok (congrArg Ending.result hrun)
  refine ⟨Bool.eq_false_iff.2 fun hunlisted =>
    hfound (h.refused_of_unlisted hunlisted _ _) hrun, ?_⟩
  rcases h.isPass hreach time (Progress.start chain).unmarked with
    ⟨result, later, vs, hreturns, hscan⟩ | hrefused
  · cases hreturns.eq_of_run (congrArg Ending.result hrun)
    exact ⟨vs, hscan⟩
  · exact (hfound hrefused hrun).elim

/-- What a first pass finds in one tree it finds in every tree that agrees up to there. -/
theorem PassOf.first_agrees (h : PassOf engine goal pass) (h' : PassOf engine' goal pass')
    (hreach : tree.height ≤ engine.reach) (hreach' : tree'.height ≤ engine'.reach)
    (hagree : tree.AgreeUpTo tree' x)
    (hfirst : firstPass pass chain tree.answer = .ok (some x, after)) :
    firstPass pass' chain tree'.answer = .ok (some x, after) := by
  obtain ⟨hlisted, vs, hscan⟩ := h.scan_of_first hreach hfirst {}
  have hx : (tree.node? x).isSome := hscan.isSome_of_found x rfl
  -- the goal is looked for below the same element or among the roots, in both trees
  have hunder : (∀ root, goal.anchor = some root → (tree'.node? root).isSome)
      ∧ Forks x (tree.under goal.anchor) (tree'.under goal.anchor) := by
    obtain ⟨s, hs, hsx⟩ := hscan.found_atOrBelow x rfl
    generalize goal.anchor = anchor at hs ⊢
    rcases anchor with _ | root
    · exact ⟨nofun, hagree.forks_rootPlaces hx⟩
    rcases hnode : tree.node? root with _ | node
    · simp only [Snapshot.under, Snapshot.children, hnode] at hs
      exact absurd hs List.not_mem_nil
    have hbelow := above_of_atOrAbove_children hnode hs hsx
    refine ⟨?_, hagree.forks_children hnode hx hbelow⟩
    rintro _ ⟨⟩
    rw [hagree.isSome_iff hbelow.1.le, hnode, Option.isSome_some]
  have hscan' := hscan.agree hagree _ hunder.2 (.inl rfl)
  obtain ⟨result, later, ws, hreturns, hown⟩ := h'.goesBy (hagree.listed.trans hlisted) hreach'
    hunder.1 (Progress.start chain).unmarked {}
  obtain ⟨rfl, rfl, -⟩ := hown.unique hscan'
  have hrun := h'.run_first (tree'.world_answers {}) chain {}
  rw [hreturns.run] at hrun
  exact (congrArg Ending.result hrun).symm

theorem PassOf.pollFromNow_agrees (h : PassOf engine goal pass) (h' : PassOf engine' goal pass')
    (hreach : tree.height ≤ engine.reach) (hreach' : tree'.height ≤ engine'.reach) {start : Nat}
    {patience : Patience} (hsingle : patience.singlePass = true) {memory : Memory Place}
    {time : Clock} {located : Located Place} (hagree : tree.AgreeUpTo tree' located.element)
    (hfound : ((pollFromNow chain start patience pass).run tree.world memory time).result
      = .ok (.found located)) (patience' : Patience) (memory' : Memory Place) (time' : Clock) :
    ((pollFromNow chain start patience' pass').run tree'.world memory' time').result
      = .ok (.found located) := by
  rcases first_of_pollFromNow h (tree.world_answers time) hfound with
    ⟨after, hfirst, hlocated⟩ | ⟨hpolls, -⟩
  · have hfirst' := h.first_agrees h' hreach hreach' hagree hfirst
    rw [pollFromNow_of_first h' (tree'.world_answers time') hfirst', ← hlocated]
  · rw [hsingle] at hpolls
    cases hpolls

end Search

/-! ## Requests -/

namespace Engine

variable {tree tree' : Snapshot} {engine engine' : Engine Place}

section Agree

variable (hreach : tree.height ≤ engine.reach) (hreach' : tree'.height ≤ engine'.reach)
  (hsettings : engine'.settings = engine.settings) {time time' : Clock} {path rootPath : String}
  {timeoutSecs : Nat} {located : Located Place}
include hreach hreach'

theorem root_found_again (hagree : tree.AgreeUpTo tree' located.element)
    (hfound : (engine.handle tree.world (.root path timeoutSecs true) time).1
      = .ok (.found located)) :
    (engine'.handle tree'.world (.root path timeoutSecs true) time').1 = .ok (.found located) := by
  rcases hchain : readPath path with error | chain
  · rw [(handle_of_refused (program_root_unreadable hchain) _ _).1] at hfound
    cases hfound
  obtain ⟨_, hrun⟩ := run_locateRoot engine tree.world chain timeoutSecs true engine.memory time
  obtain ⟨_, hrun'⟩ :=
    run_locateRoot engine' tree'.world chain timeoutSecs true engine'.memory time'
  rw [(handle_of_program (program_root hchain) _ _).1, hrun] at hfound
  rw [(handle_of_program (program_root hchain) _ _).1, hrun']
  exact (Search.PassOf.root chain).pollFromNow_agrees (.root chain) hreach hreach' rfl hagree
    hfound _ _ _

include hsettings

theorem descendant_found_again {root : Place} (hagree : tree.AgreeUpTo tree' located.element)
    (hroot : engine.rootInUse tree.world rootPath true time = some root)
    (hroot' : engine'.rootInUse tree'.world rootPath true time' = some root)
    (hfound : (engine.handle tree.world (.descendant rootPath path timeoutSecs true) time).1
      = .ok (.found located)) :
    (engine'.handle tree'.world (.descendant rootPath path timeoutSecs true) time').1
      = .ok (.found located) := by
  rcases hchain : readPath path with error | chain
  · rw [(handle_of_refused (program_descendant_unreadable hchain) _ _).1] at hfound
    cases hfound
  obtain ⟨cachedRoot, memory, later, hhandle, -⟩ := handle_descendant timeoutSecs hchain hroot
  obtain ⟨cachedRoot', memory', later', hhandle', -⟩ :=
    handle_descendant timeoutSecs hchain hroot'
  rw [hhandle] at hfound
  rw [hhandle']
  rcases hgoal : goalBelow? engine.settings chain root with _ | goal
  · have hgoal' : goalBelow? engine'.settings chain root = none := by rw [hsettings, hgoal]
    obtain ⟨_, hrun⟩ := run_locateBelow_nothing engine tree.world hgoal cachedRoot timeoutSecs
      true memory later
    obtain ⟨_, hrun'⟩ := run_locateBelow_nothing engine' tree'.world hgoal' cachedRoot'
      timeoutSecs true memory' later'
    rw [hrun] at hfound
    rwa [hrun']
  · have hgoal' : goalBelow? engine'.settings chain root = some goal := by rw [hsettings, hgoal]
    obtain ⟨_, hrun⟩ := run_locateBelow engine tree.world hgoal cachedRoot timeoutSecs true
      memory later
    obtain ⟨_, hrun'⟩ := run_locateBelow engine' tree'.world hgoal' cachedRoot' timeoutSecs true
      memory' later'
    rw [hrun] at hfound
    rw [hrun']
    exact (Search.PassOf.descendant hgoal).pollFromNow_agrees (.descendant hgoal') hreach hreach'
      rfl hagree hfound _ _ _

/-- Engines that remember the same use the same root, if the trees agree up to it. -/
theorem rootInUse_again (hmemory : engine'.memory = engine.memory) {root : Place}
    (hagree : tree.AgreeUpTo tree' root)
    (hroot : engine.rootInUse tree.world rootPath true time = some root) :
    engine'.rootInUse tree'.world rootPath true time' = some root := by
  rcases hremembered : engine.memory.rootFor? rootPath with _ | remembered
  · simp only [rootInUse, hremembered] at hroot
    simp only [rootInUse, hmemory, hremembered]
    obtain ⟨located, hfound, rfl⟩ := elementOf_eq_some.1 hroot
    refine elementOf_eq_some.2 ⟨located, ?_, rfl⟩
    rw [rootRequest, hsettings]
    exact root_found_again hreach hreach' hagree hfound
  · rw [(rootInUse_of_remembered hremembered).1] at hroot
    rwa [(rootInUse_of_remembered (hmemory ▸ hremembered)).1]

omit hreach' hsettings in
/-- What a request finds below a root in use is at or below that root. -/
theorem rootInUse_atOrAbove
    (hfound : (engine.handle tree.world (.descendant rootPath path timeoutSecs true) time).1
      = .ok (.found located)) :
    ∃ root, engine.rootInUse tree.world rootPath true time = some root
      ∧ root.AtOrAbove located.element := by
  obtain ⟨chain, anchor, start, hsearches, h⟩ := found_request hreach hfound
  cases hsearches with
  | @descendant _ _ _ _ _ root hchain hroot =>
  refine ⟨root, hroot, ?_⟩
  rcases h with ⟨hanchor, -⟩ | ⟨goal, earlier, vs, after, hgoal, -, ⟨counters, hscan⟩, -⟩
  · obtain rfl := Option.some.inj hanchor
    exact .refl _
  · rw [(Goal.ofLevels?_eq_some.1 hgoal).1] at hscan
    obtain ⟨s, hs, hsx⟩ := hscan.found_atOrBelow _ rfl
    rcases hnode : tree.node? root with _ | node
    · simp only [Snapshot.under, Snapshot.children, hnode] at hs
      exact absurd hs List.not_mem_nil
    · exact (above_of_atOrAbove_children hnode hs hsx).1

/-- What a single pass finds does not depend on what comes after the element that it finds: over
every tree that agrees up to there it is found again, with the same counters at every level. A
request for a descendant finds it again below the same root, and engines that remember the same
find that root again too. -/
theorem found_again (time time' : Clock) :
    (∀ path timeoutSecs located,
      (engine.handle tree.world (.root path timeoutSecs true) time).1 = .ok (.found located) →
      tree.AgreeUpTo tree' located.element →
      (engine'.handle tree'.world (.root path timeoutSecs true) time').1 = .ok (.found located))
    ∧ (∀ rootPath path timeoutSecs root located,
      engine.rootInUse tree.world rootPath true time = some root →
      engine'.rootInUse tree'.world rootPath true time' = some root →
      (engine.handle tree.world (.descendant rootPath path timeoutSecs true) time).1
        = .ok (.found located) →
      tree.AgreeUpTo tree' located.element →
      (engine'.handle tree'.world (.descendant rootPath path timeoutSecs true) time').1
        = .ok (.found located))
    ∧ (engine'.memory = engine.memory → ∀ request located, request.singlePass = true →
      (engine.handle tree.world request time).1 = .ok (.found located) →
      tree.AgreeUpTo tree' located.element →
      (engine'.handle tree'.world request time').1 = .ok (.found located)) := by
  refine ⟨fun path timeoutSecs located hfound hagree => ?_,
    fun rootPath path timeoutSecs root located hroot hroot' hfound hagree => ?_,
    fun hmemory request located hsingle hfound hagree => ?_⟩
  · exact root_found_again hreach hreach' hagree hfound
  · exact descendant_found_again hreach hreach' hsettings hagree hroot hroot' hfound
  rcases request with ⟨path, timeoutSecs, _⟩ | ⟨rootPath, path, timeoutSecs, _⟩ <;>
    obtain rfl : _ = true := hsingle
  · exact root_found_again hreach hreach' hagree hfound
  · obtain ⟨root, hroot, habove⟩ := rootInUse_atOrAbove hreach hfound
    have hroot' : engine'.rootInUse tree'.world rootPath true time' = some root :=
      rootInUse_again hreach hreach' hsettings hmemory (hagree.mono habove.le) hroot
    exact descendant_found_again hreach hreach' hsettings hagree hroot hroot' hfound

end Agree

end Engine

/-- The window and the panel as before, with a label in the button and another beside it, but no
button beside the panel, and a second window. -/
def relabelledTree : Snapshot where
  roots :=
    [{ className := "Window"
       children :=
        [{ className := "Panel"
           children :=
            [{ className := "Button", children := [{ className := "Label" }] },
              { className := "Label" }] }] },
      { className := "Window" }]

namespace Engine

/-- The button in the panel is found again, by itself or below the window. -/
theorem found_again_window :
    windowTree.AgreeUpTo relabelledTree ⟨[0, 0, 0]⟩
    ∧ (∃ located, located.element = ⟨[0, 0, 0]⟩
      ∧ ((windowTree.engine {}).handle windowTree.world
          (.root "Class=Window;\\;Class=Button" 0 true) {}).1 = .ok (.found located)
      ∧ ((relabelledTree.engine {}).handle relabelledTree.world
          (.root "Class=Window;\\;Class=Button" 0 true) {}).1 = .ok (.found located))
    ∧ ∃ located, located.element = ⟨[0, 0, 0]⟩
      ∧ ((windowTree.engine {}).handle windowTree.world
          (.descendant "Class=Window" "Class=Button;AbsClassIndex=1" 0 true) {}).1
          = .ok (.found located)
      ∧ ((relabelledTree.engine {}).handle relabelledTree.world
          (.descendant "Class=Window" "Class=Button;AbsClassIndex=1" 0 true) {}).1
          = .ok (.found located) := by
  have hagree : windowTree.AgreeUpTo relabelledTree ⟨[0, 0, 0]⟩ := .of_upTo rfl (by decide +kernel)
  obtain ⟨hroot, hbelow, -⟩ := @found_again windowTree relabelledTree (windowTree.engine {})
    (relabelledTree.engine {}) (Nat.le_refl _) (Nat.le_refl _) rfl {} {}
  refine ⟨hagree, ?_, ?_⟩
  · have h : elementOf ((windowTree.engine {}).handle windowTree.world
        (.root "Class=Window;\\;Class=Button" 0 true) {}).1 = some ⟨[0, 0, 0]⟩ := by
      decide +kernel
    obtain ⟨located, hfound, helement⟩ := elementOf_eq_some.1 h
    exact ⟨located, helement, hfound, hroot _ _ _ hfound (helement ▸ hagree)⟩
  · have h : elementOf ((windowTree.engine {}).handle windowTree.world
        (.descendant "Class=Window" "Class=Button;AbsClassIndex=1" 0 true) {}).1
          = some ⟨[0, 0, 0]⟩ := by decide +kernel
    obtain ⟨located, hfound, helement⟩ := elementOf_eq_some.1 h
    have huse : (windowTree.engine {}).rootInUse windowTree.world "Class=Window" true {}
        = some ⟨[0]⟩ := by decide +kernel
    have huse' : (relabelledTree.engine {}).rootInUse relabelledTree.world "Class=Window" true {}
        = some ⟨[0]⟩ := by decide +kernel
    exact ⟨located, helement, hfound,
      hbelow _ _ _ _ _ huse huse' hfound (helement ▸ hagree)⟩

end Engine

end Locator
