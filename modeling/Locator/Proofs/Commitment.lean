import Locator.Proofs.Excursions

/-!
# What a match commits a pass to

When an element satisfies a level and there are levels left, a pass goes on below that element. If
the last level is not found there, the siblings of the element are given up with it, but an
excursion that is still open above it goes on: it takes what it gets for an ordinary failure. So the
pass stays below the element for good just when the last level is found below it or no excursion
that is open above it has a sibling left to go on with (`later_visits`).
-/

namespace Locator

/-! ## Siblings in hand -/

namespace Snapshot

def HasLaterSibling (tree : Snapshot) (e : Place) : Prop :=
  ∃ x, e.EarlierSibling x ∧ (tree.node? x).isSome

/-- Siblings in order, up to the last that there is. -/
def Row (tree : Snapshot) (siblings : List Place) : Prop :=
  ∃ (p : Place) (first count : Nat), siblings = (List.range' first count).map p.child
    ∧ ∀ i, (tree.node? (p.child i)).isSome ↔ i < first + count

variable {tree : Snapshot} {e : Place} {siblings : List Place}

theorem row_children {node : Node} (he : tree.node? e = some node) :
    tree.Row (tree.children e) := by
  refine ⟨e, 0, node.children.length, ?_, fun i => ?_⟩
  · rw [children_eq he, childPlaces, List.range_eq_range']
  · rw [node?_child he, isSome_getElem?, Nat.zero_add]

theorem row_rootPlaces (tree : Snapshot) : tree.Row tree.rootPlaces := by
  refine ⟨⟨[]⟩, 0, tree.roots.length, ?_, fun i => ?_⟩
  · rw [rootPlaces, List.range_eq_range']
    rfl
  · change (tree.node? (.root i)).isSome ↔ _
    rw [node?_root, isSome_getElem?, Nat.zero_add]

theorem Row.cons (h : tree.Row (e :: siblings)) :
    ∃ (p : Place) (i : Nat), e = p.child i ∧ (∀ x ∈ siblings, ∃ j > i, x = p.child j)
      ∧ ∀ j, (tree.node? (p.child j)).isSome ↔ j < i + (siblings.length + 1) := by
  obtain ⟨p, first, _ | count, hsiblings, hthere⟩ := h
  · cases hsiblings
  rw [List.range'_succ, List.map_cons] at hsiblings
  obtain ⟨rfl, rfl⟩ := List.cons.inj hsiblings
  refine ⟨p, first, rfl, fun x hx => ?_, fun j => ?_⟩
  · obtain ⟨j, hj, rfl⟩ := List.mem_map.1 hx
    exact ⟨j, (List.mem_range'_1.1 hj).1, rfl⟩
  · rw [hthere, List.length_map, List.length_range']

theorem Row.tail (h : tree.Row (e :: siblings)) : tree.Row siblings := by
  obtain ⟨p, first, _ | count, hsiblings, hthere⟩ := h
  · cases hsiblings
  rw [List.range'_succ, List.map_cons] at hsiblings
  refine ⟨p, first + 1, count, (List.cons.inj hsiblings).2, fun i => ?_⟩
  rw [hthere, Nat.add_right_comm, Nat.add_assoc]

theorem Row.hasLaterSibling_iff (h : tree.Row (e :: siblings)) :
    tree.HasLaterSibling e ↔ siblings ≠ [] := by
  obtain ⟨p, i, rfl, -, hthere⟩ := h.cons
  rw [← List.length_pos_iff]
  constructor
  · rintro ⟨x, ⟨parent, j, k, hi, rfl, hjk⟩, hx⟩
    obtain ⟨rfl, rfl⟩ := Place.child_inj (q := ⟨parent⟩).1 hi
    have : k < i + (siblings.length + 1) := (hthere k).1 hx
    omega
  · intro hpos
    exact ⟨p.child (i + 1), Place.earlierSibling_child.2 ⟨i, Nat.lt_succ_self i, rfl⟩,
      (hthere (i + 1)).2 (by omega)⟩

/-- Nothing is at or below two siblings. -/
theorem Row.apart (h : tree.Row (e :: siblings)) {s x : Place} (hs : s ∈ siblings)
    (hsx : s.AtOrAbove x) : ¬ e.AtOrAbove x := by
  intro hex
  obtain ⟨p, i, rfl, hlater, -⟩ := h.cons
  obtain ⟨j, hj, rfl⟩ := hlater s hs
  have hlength : (p.child i).indices.length = (p.child j).indices.length := by
    simp only [Place.child, List.length_append, List.length_singleton]
  have hsame := List.prefix_of_prefix_length_le hex hsx hlength.le
  have := (Place.child_inj.1 (congrArg Place.mk (hsame.eq_of_length hlength))).2
  omega

end Snapshot

/-! ## Where a scan goes -/

/-- The visit completes the path: its element satisfies the last level. -/
def Snapshot.Completes (tree : Snapshot) (v : Visit Place) : Prop :=
  tree.met v ∧ v.goal.rest = []

section Scan

variable {tree : Snapshot} {goal : Goal Place} {siblings : List Place} {e : Place} {node : Node}
  {before after : Progress} {result : Option Place} {vs : List (Visit Place)}

theorem above_of_atOrAbove_children (he : tree.node? e = some node) {s x : Place}
    (hs : s ∈ tree.children e) (hx : s.AtOrAbove x) : e.Above x := by
  obtain ⟨i, -, rfl⟩ := (Snapshot.mem_children he).1 hs
  exact (Place.above_of_atOrAbove (.refl e) i).trans_atOrAbove hx

theorem Scan.atOrBelow (h : Scan tree goal siblings before result after vs) :
    ∀ v ∈ vs, ∃ s ∈ siblings, s.AtOrAbove v.element := by
  induction h with
  | nil => exact fun v hv => absurd hv List.not_mem_nil
  | last =>
    intro v hv
    obtain rfl := List.mem_singleton.1 hv
    exact ⟨_, List.mem_cons_self, .refl _⟩
  | commit he _ _ _ ih | found he _ _ _ ih =>
    intro v hv
    rcases List.mem_cons.1 hv with rfl | hv
    · exact ⟨_, List.mem_cons_self, .refl _⟩
    · obtain ⟨s, hs, hsv⟩ := ih v hv
      exact ⟨_, List.mem_cons_self, (above_of_atOrAbove_children he hs hsv).1⟩
  | skip _ _ _ _ ih =>
    intro v hv
    rcases List.mem_cons.1 hv with rfl | hv
    · exact ⟨_, List.mem_cons_self, .refl _⟩
    · obtain ⟨s, hs, hsv⟩ := ih v hv
      exact ⟨s, List.mem_cons_of_mem _ hs, hsv⟩
  | failed he _ _ _ _ ihbelow ihrest =>
    intro v hv
    rcases List.mem_cons.1 hv with rfl | hv
    · exact ⟨_, List.mem_cons_self, .refl _⟩
    rcases List.mem_append.1 hv with hv | hv
    · obtain ⟨s, hs, hsv⟩ := ihbelow v hv
      exact ⟨_, List.mem_cons_self, (above_of_atOrAbove_children he hs hsv).1⟩
    · obtain ⟨s, hs, hsv⟩ := ihrest v hv
      exact ⟨s, List.mem_cons_of_mem _ hs, hsv⟩

theorem Scan.above (he : tree.node? e = some node)
    (h : Scan tree goal (tree.children e) before result after vs) :
    ∀ v ∈ vs, e.Above v.element := by
  intro v hv
  obtain ⟨s, hs, hsv⟩ := h.atOrBelow v hv
  exact above_of_atOrAbove_children he hs hsv

theorem Scan.position_le (h : Scan tree goal siblings before result after vs) :
    ∀ v ∈ vs, goal.position ≤ v.goal.position := by
  induction h with
  | nil => exact fun v hv => absurd hv List.not_mem_nil
  | last =>
    intro v hv
    obtain rfl := List.mem_singleton.1 hv
    exact Nat.le_refl _
  | @commit goal next _ _ _ _ _ _ _ _ _ hn _ ih =>
    have hposition : next.position = goal.position + 1 := (Goal.ofLevels?_eq_some.1 hn).2.1
    intro v hv
    rcases List.mem_cons.1 hv with rfl | hv
    · exact Nat.le_refl _
    · have := ih v hv
      omega
  | skip _ _ _ _ ih | found _ _ _ _ ih =>
    intro v hv
    rcases List.mem_cons.1 hv with rfl | hv
    · exact Nat.le_refl _
    · exact ih v hv
  | failed _ _ _ _ _ ihbelow ihrest =>
    intro v hv
    rcases List.mem_cons.1 hv with rfl | hv
    · exact Nat.le_refl _
    · exact (List.mem_append.1 hv).elim (ihbelow v) (ihrest v)

theorem Scan.visits_eq_nil (h : Scan tree goal siblings before result after vs) :
    vs = [] ↔ siblings = [] := by
  cases h <;> simp only [List.cons_ne_nil]

theorem not_completes_visit (he : tree.node? e = some node)
    (hm : ¬ node.meets goal (before.visit node.facts).counters) :
    ¬ tree.Completes (goal.visit e node.facts before) :=
  fun h => hm ((met_visit he).symm.trans h.1)

/-- A scan comes to an element just when it visits one that completes the path. -/
theorem Scan.isSome_iff (h : Scan tree goal siblings before result after vs) :
    result.isSome ↔ ∃ v ∈ vs, tree.Completes v := by
  induction h with
  | nil => simp
  | last he hm hn =>
    refine ⟨fun _ => ⟨_, List.mem_cons_self, (met_visit he).trans hm, ?_⟩, fun _ => rfl⟩
    exact Goal.ofLevels?_eq_none.1 hn
  | @commit goal next _ _ _ _ _ _ _ _ _ hn _ ih =>
    have hrest : goal.rest = next.level :: next.rest := (Goal.ofLevels?_eq_some.1 hn).2.2
    have hfirst {before : Progress} {e : Place} {facts : Facts} :
        ¬ tree.Completes (goal.visit e facts before) :=
      fun h => List.cons_ne_nil _ _ (hrest.symm.trans h.2)
    rw [ih, List.exists_mem_cons_iff, or_iff_right hfirst]
  | skip he hm _ _ ih | found he hm _ _ ih =>
    rw [ih, List.exists_mem_cons_iff, or_iff_right (not_completes_visit he hm)]
  | failed he hm _ _ _ ihbelow ihrest =>
    rw [ihrest, List.exists_mem_cons_iff, or_iff_right (not_completes_visit he hm)]
    have hbelow := ihbelow.not.1 Bool.false_ne_true
    push Not at hbelow
    constructor
    · rintro ⟨v, hv, h⟩
      exact ⟨v, List.mem_append_right _ hv, h⟩
    · rintro ⟨v, hv, h⟩
      exact ⟨v, (List.mem_append.1 hv).resolve_left fun hv => hbelow v hv h, h⟩

end Scan

/-! ## After a match -/

/-- Above the element of `u` there is an excursion, begun at the visit `v`, that goes on with a
sibling when it fails. -/
def Snapshot.Reopens (tree : Snapshot) (v u : Visit Place) : Prop :=
  tree.met v = false ∧ v.element.Above u.element ∧ tree.HasLaterSibling v.element

/-- What is visited after a visit `u` that was met: what lies below its element, for the levels that
are left, and then what lies neither there nor at or below a sibling. -/
structure Aftermath (tree : Snapshot) (earlier : List (Visit Place)) (u : Visit Place)
    (later : List (Visit Place)) (result : Option Place) (below others : List (Visit Place)) :
    Prop where
  later_eq : later = below ++ others
  inside : ∀ w ∈ below, u.element.Above w.element ∧ u.goal.position < w.goal.position
  outside : ∀ w ∈ others, ∀ p i, u.element = Place.child p i → ¬ p.AtOrAbove w.element
  stays : others = [] ↔ (∃ w ∈ below, tree.Completes w) ∨ ∀ v ∈ earlier, ¬ tree.Reopens v u
  ends : result.isSome ↔ ∃ w ∈ later, tree.Completes w

namespace Aftermath

variable {tree : Snapshot} {earlier later below others : List (Visit Place)} {u : Visit Place}
  {result : Option Place}

theorem prepend (h : Aftermath tree earlier u later result below others)
    (more : List (Visit Place)) (hmore : ∀ v ∈ more, ¬ tree.Reopens v u) :
    Aftermath tree (more ++ earlier) u later result below others := by
  refine { h with stays := h.stays.trans (or_congr_right ?_) }
  simp only [List.mem_append, or_imp, forall_and]
  exact (and_iff_right hmore).symm

/-- An excursion that succeeds does not go on. -/
theorem of_found {x : Place} (h : Aftermath tree earlier u later (some x) below others)
    (v : Visit Place) : Aftermath tree (v :: earlier) u later (some x) below others := by
  refine { h with stays := ⟨fun hnil => .inl ?_, fun hstays => ?_⟩ }
  · have hlater : later = below := by rw [h.later_eq, hnil, List.append_nil]
    exact hlater ▸ h.ends.1 rfl
  · refine h.stays.2 (hstays.imp_right fun hnone w hw => ?_)
    exact hnone w (List.mem_cons_of_mem v hw)

/-- An excursion that fails goes on with the siblings. -/
theorem of_failed {goal : Goal Place} {e : Place} {node : Node} {siblings : List Place}
    {before between after : Progress} {ws : List (Visit Place)}
    (h : Aftermath tree earlier u later none below others) (hrow : tree.Row (e :: siblings))
    (he : tree.node? e = some node) (hm : ¬ node.meets goal (before.visit node.facts).counters)
    (hu : e.Above u.element) (hrest : Scan tree goal siblings between result after ws) :
    Aftermath tree (goal.visit e node.facts before :: earlier) u (later ++ ws) result below
      (others ++ ws) := by
  have hincomplete : ∀ w ∈ later, ¬ tree.Completes w := fun w hw hw' =>
    Bool.false_ne_true (h.ends.2 ⟨w, hw, hw'⟩)
  have hreopens : tree.Reopens (goal.visit e node.facts before) u ↔ ws ≠ [] := by
    refine Iff.trans ⟨fun h => h.2.2, fun h => ⟨?_, hu, h⟩⟩
      (hrow.hasLaterSibling_iff.trans hrest.visits_eq_nil.not.symm)
    exact (met_visit he).trans (Bool.of_not_eq_true hm)
  refine ⟨by rw [h.later_eq, List.append_assoc], h.inside, fun w hw p i hp => ?_, ?_, ?_⟩
  · rcases List.mem_append.1 hw with hw | hw
    · exact h.outside w hw p i hp
    · -- the parent of the element is in the excursion, and the visit is not
      intro hpw
      obtain ⟨s, hs, hsw⟩ := hrest.atOrBelow w hw
      have hep : e.AtOrAbove p := by
        rw [hp] at hu
        exact (Place.atOrAbove_child_iff.1 hu.1).resolve_left hu.2
      exact hrow.apart hs hsw (hep.trans hpw)
  · have hbelow : ¬ ∃ w ∈ below, tree.Completes w := fun ⟨w, hw, hw'⟩ =>
      hincomplete w (h.later_eq ▸ List.mem_append_left others hw) hw'
    rw [List.append_eq_nil_iff, h.stays, or_iff_right hbelow, or_iff_right hbelow,
      List.forall_mem_cons, hreopens, not_not, and_comm]
  · rw [hrest.isSome_iff]
    constructor
    · rintro ⟨w, hw, hw'⟩
      exact ⟨w, List.mem_append_right later hw, hw'⟩
    · rintro ⟨w, hw, hw'⟩
      exact ⟨w, (List.mem_append.1 hw).resolve_left fun hw => hincomplete w hw hw', hw'⟩

end Aftermath

theorem cons_eq_split {v u : Visit Place} {vs earlier later : List (Visit Place)}
    (h : v :: vs = earlier ++ u :: later) :
    (earlier = [] ∧ v = u ∧ vs = later)
      ∨ ∃ rest, earlier = v :: rest ∧ vs = rest ++ u :: later := by
  rcases earlier with _ | ⟨w, rest⟩
  · obtain ⟨rfl, rfl⟩ := List.cons.inj h
    exact .inl ⟨rfl, rfl, rfl⟩
  · obtain ⟨rfl, rfl⟩ := List.cons.inj h
    exact .inr ⟨rest, rfl, rfl⟩

theorem append_eq_split {α : Type} {u : α} {vs ws earlier later : List α}
    (h : vs ++ ws = earlier ++ u :: later) :
    (∃ rest, vs = earlier ++ u :: rest ∧ later = rest ++ ws)
      ∨ ∃ rest, earlier = vs ++ rest ∧ ws = rest ++ u :: later := by
  rcases List.append_eq_append_iff.1 h with ⟨rest, rfl, rfl⟩ | ⟨rest, rfl, hrest⟩
  · exact .inr ⟨rest, rfl, rfl⟩
  · rcases rest with _ | ⟨w, rest⟩
    · exact .inr ⟨[], by simp, hrest.symm⟩
    · obtain ⟨rfl, rfl⟩ := List.cons.inj hrest
      exact .inl ⟨rest, rfl, rfl⟩

/-- What a scan visits after a visit that was met and left levels to search for. -/
theorem Scan.aftermath {tree : Snapshot} {goal : Goal Place} {siblings : List Place}
    {before after : Progress} {result : Option Place} {vs : List (Visit Place)}
    (h : Scan tree goal siblings before result after vs) :
    tree.Row siblings → ∀ earlier u later, vs = earlier ++ u :: later → tree.met u →
      u.goal.rest ≠ [] → ∃ below others, Aftermath tree earlier u later result below others := by
  induction h with
  | nil => exact fun _ earlier u later h => absurd h.symm (by simp)
  | @last goal e node siblings before he hm hn =>
    intro _ earlier u later hsplit _ hrest
    rcases cons_eq_split hsplit with ⟨-, rfl, -⟩ | ⟨rest, -, h⟩
    · exact absurd (Goal.ofLevels?_eq_none.1 hn) hrest
    · simp at h
  | @commit goal next e node siblings before after result vs he hm hn hbelow ih =>
    intro _ earlier u later hsplit hmet hrest
    rcases cons_eq_split hsplit with ⟨rfl, rfl, rfl⟩ | ⟨rest, rfl, h⟩
    · have hposition : next.position = goal.position + 1 := (Goal.ofLevels?_eq_some.1 hn).2.1
      refine ⟨vs, [], (List.append_nil vs).symm, fun w hw => ⟨hbelow.above he w hw, ?_⟩, nofun, ?_,
        hbelow.isSome_iff⟩
      · have := hbelow.position_le w hw
        simp only [Goal.visit]
        omega
      · exact ⟨fun _ => .inr fun v hv => absurd hv List.not_mem_nil, fun _ => rfl⟩
    · obtain ⟨below, others, haftermath⟩ :=
        ih (Snapshot.row_children he) rest u later h hmet hrest
      refine ⟨below, others, haftermath.prepend [_] fun v hv hreopens => ?_⟩
      obtain rfl := List.mem_singleton.1 hv
      exact Bool.false_ne_true (hreopens.1.symm.trans ((met_visit he).trans hm))
  | @skip goal e node siblings before after result vs he hm hs hscan ih =>
    intro hrow earlier u later hsplit hmet hrest
    rcases cons_eq_split hsplit with ⟨-, rfl, -⟩ | ⟨rest, rfl, h⟩
    · exact absurd ((met_visit he).symm.trans hmet) hm
    obtain ⟨below, others, haftermath⟩ := ih hrow.tail rest u later h hmet hrest
    refine ⟨below, others, haftermath.prepend [_] fun v hv hreopens => ?_⟩
    obtain rfl := List.mem_singleton.1 hv
    obtain ⟨s, hs, hsu⟩ := hscan.atOrBelow u (by rw [h]; simp)
    exact hrow.apart hs hsu hreopens.2.1.1
  | @found goal e x node siblings before after vs he hm hs hbelow ih =>
    intro _ earlier u later hsplit hmet hrest
    rcases cons_eq_split hsplit with ⟨-, rfl, -⟩ | ⟨rest, rfl, h⟩
    · exact absurd ((met_visit he).symm.trans hmet) hm
    obtain ⟨below, others, haftermath⟩ := ih (Snapshot.row_children he) rest u later h hmet hrest
    exact ⟨below, others, haftermath.of_found _⟩
  | @failed goal e node siblings before between after result vs ws he hm hs hbelow hscan ihbelow
      ihrest =>
    intro hrow earlier u later hsplit hmet hrest
    rcases cons_eq_split hsplit with ⟨-, rfl, -⟩ | ⟨rest, rfl, h⟩
    · exact absurd ((met_visit he).symm.trans hmet) hm
    rcases append_eq_split h with ⟨inner, hvs, rfl⟩ | ⟨inner, rfl, hws⟩
    · obtain ⟨below, others, haftermath⟩ :=
        ihbelow (Snapshot.row_children he) rest u inner hvs hmet hrest
      have hu : e.Above u.element := hbelow.above he u (by rw [hvs]; simp)
      exact ⟨below, _, haftermath.of_failed hrow he hm hu hscan⟩
    · obtain ⟨below, others, haftermath⟩ := ihrest hrow.tail inner u later hws hmet hrest
      refine ⟨below, others, haftermath.prepend (_ :: vs) fun v hv hreopens => ?_⟩
      -- all that was visited in the excursion is at or below its element, and `u` is not
      have hev : e.AtOrAbove v.element := by
        rcases List.mem_cons.1 hv with rfl | hv
        · exact .refl e
        · exact (hbelow.above he v hv).1
      obtain ⟨s, hs, hsu⟩ := hscan.atOrBelow u (by rw [hws]; simp)
      exact hrow.apart hs hsu (hev.trans hreopens.2.1.1)

/-! ## A pass -/

theorem exists_eq_child {e : Place} {tree : Snapshot} (he : (tree.node? e).isSome) :
    ∃ (p : Place) (i : Nat), e = p.child i := by
  obtain ⟨indices⟩ := e
  rcases List.eq_nil_or_concat indices with rfl | ⟨parent, i, rfl⟩
  · cases he
  · exact ⟨⟨parent⟩, i, by rw [Place.child, List.concat_eq_append]⟩

theorem Aftermath.above_iff {tree : Snapshot} {earlier later below others : List (Visit Place)}
    {u : Visit Place} {result : Option Place} (hu : (tree.node? u.element).isSome)
    (h : Aftermath tree earlier u later result below others) :
    (∀ w ∈ later, u.element.Above w.element) ↔ others = [] := by
  obtain ⟨p, i, hp⟩ := exists_eq_child hu
  rw [h.later_eq]
  constructor
  · intro habove
    refine List.eq_nil_iff_forall_not_mem.2 fun w hw => h.outside w hw p i hp ?_
    have hpu : p.AtOrAbove u.element := hp ▸ Place.atOrAbove_child p i
    exact hpu.trans (habove w (List.mem_append_right below hw)).1
  · rintro rfl w hw
    rw [List.append_nil] at hw
    exact (h.inside w hw).1

/-- Once an element satisfies a level that is not the last, a pass visits what lies below it, for
deeper levels, and then at most elements that lie neither there nor at or below a sibling of it. It
stays below the element for good just when the last level is found there or no excursion above it
has a sibling to go on with. -/
theorem later_visits {tree : Snapshot} {engine : Engine Place} (hreach : tree.height ≤ engine.reach)
    {goal : Goal Place} {pass : Progress → Search Place (Finding Place)}
    (hpass : Search.PassOf engine goal pass) {progress : Progress} {time : Clock}
    {earlier later : List (Visit Place)} {u : Visit Place}
    (hvisits : (pass progress).visits tree.world time = earlier ++ u :: later)
    (hmet : tree.met u) (hrest : u.goal.rest ≠ []) :
    ∃ result after below others,
      (∀ memory, (pass progress).run tree.world memory time = ⟨.ok (result, after), memory, time⟩)
      ∧ Aftermath tree earlier u later result below others
      ∧ ((∀ w ∈ later, u.element.Above w.element)
        ↔ (∃ w ∈ below, tree.Completes w) ∨ ∀ v ∈ earlier, ¬ tree.Reopens v u) := by
  rcases hpass.isPass hreach time progress with
    ⟨result, after, vs, hreturns, hscan⟩ | ⟨error, -, hnone⟩
  · have hvs : vs = earlier ++ u :: later := hreturns.visits.symm.trans hvisits
    have hu : (tree.node? u.element).isSome := hscan.isSome_of_mem u (by rw [hvs]; simp)
    have hrow : tree.Row (tree.under goal.anchor) := by
      rcases hanchor : goal.anchor with _ | a
      · exact tree.row_rootPlaces
      rcases ha : tree.node? a with _ | node
      · -- nothing is visited below an element that is not there
        rw [hanchor, Snapshot.under, Snapshot.children, ha] at hscan
        have : vs = [] := hscan.visits_eq_nil.2 rfl
        rw [this] at hvs
        simp at hvs
      · exact Snapshot.row_children ha
    obtain ⟨below, others, haftermath⟩ := hscan.aftermath hrow earlier u later hvs hmet hrest
    exact ⟨result, after, below, others, hreturns.run, haftermath,
      (haftermath.above_iff hu).trans haftermath.stays⟩
  · rw [hnone] at hvisits
    simp at hvisits

theorem exists_split {α β : Type} {f : α → β} {xs : List α} {bs cs : List β} {b : β}
    (h : xs.map f = bs ++ b :: cs) :
    ∃ ys y zs, xs = ys ++ y :: zs ∧ ys.map f = bs ∧ f y = b ∧ zs.map f = cs := by
  obtain ⟨ys, rest, rfl, hys, hrest⟩ := List.map_eq_append_iff.1 h
  obtain ⟨y, zs, rfl, hy, hzs⟩ := List.map_eq_cons_iff.1 hrest
  exact ⟨ys, y, zs, rfl, hys, hy, hzs⟩

/-- Below the panel of a window there is no label, and the button beside the panel is not looked
at. -/
theorem later_visits_panel :
    ∃ u later, (Search.descendantPass (windowTree.engine {}).reach ⟨[0]⟩
        ⟨some ⟨[0]⟩, 0, Level.ofText "Class=Panel", [Level.ofText "Class=Label"]⟩
        ⟨{}, ⟨[none, none]⟩⟩).visits windowTree.world {} = [] ++ u :: later
      ∧ windowTree.met u = true ∧ u.goal.rest ≠ [] ∧ later.map (·.element) = [⟨[0, 0, 0]⟩]
      ∧ ∀ w ∈ later, u.element.Above w.element := by
  have hgoal : Engine.goalBelow? (windowTree.engine {}).settings
      ⟨"Class=Panel;\\;Class=Label", Level.ofText "Class=Panel", [Level.ofText "Class=Label"]⟩
      (⟨[0]⟩ : Place)
      = some ⟨some ⟨[0]⟩, 0, Level.ofText "Class=Panel", [Level.ofText "Class=Label"]⟩ := by
    decide +kernel
  have hmap : ((Search.descendantPass (windowTree.engine {}).reach ⟨[0]⟩
        ⟨some ⟨[0]⟩, 0, Level.ofText "Class=Panel", [Level.ofText "Class=Label"]⟩
        ⟨{}, ⟨[none, none]⟩⟩).visits windowTree.world {}).map
          (fun v => (v.element, v.goal.rest.length, windowTree.met v))
      = [] ++ (⟨[0, 0]⟩, 1, true) :: [(⟨[0, 0, 0]⟩, 0, false)] := by decide +kernel
  obtain ⟨earlier, u, later, hvisits, hearlier, hu, hlater⟩ := exists_split hmap
  obtain rfl : earlier = [] := List.map_eq_nil_iff.1 hearlier
  simp only [Prod.mk.injEq] at hu
  obtain ⟨-, hlength, hmet⟩ := hu
  have hrest : u.goal.rest ≠ [] := fun hnil => by simp [hnil] at hlength
  obtain ⟨result, after, below, others, -, -, hiff⟩ :=
    later_visits (Nat.le_refl _) (.descendant hgoal) hvisits hmet hrest
  refine ⟨u, later, hvisits, hmet, hrest, ?_, hiff.2 (.inr fun v hv => absurd hv List.not_mem_nil)⟩
  simpa using congrArg (List.map Prod.fst) hlater

/-- After an element in an excursion has satisfied a level, and the next level is not found below
it, the pass goes on outside and finds another element for the same level. -/
theorem match_left_behind :
    (∃ earlier u later, (Search.descendantPass (strandedTree.engine {}).reach ⟨[0]⟩
        ⟨some ⟨[0]⟩, 0, Level.ofText "Class=M", [Level.ofText "Class=T"]⟩
        ⟨{}, ⟨[none, none]⟩⟩).visits strandedTree.world {} = earlier ++ u :: later
      ∧ strandedTree.met u = true ∧ u.goal.rest ≠ [] ∧ u.element = ⟨[0, 0, 0]⟩
      ∧ ∃ w ∈ later, strandedTree.met w = true ∧ w.goal.position = u.goal.position
        ∧ w.element = ⟨[0, 1]⟩ ∧ ¬ u.element.Above w.element)
    ∧ Engine.elementOf ((strandedTree.engine {}).handle strandedTree.world
        (.descendant "Class=R" "Class=M;\\;Class=T" 0 true) {}).1 = some ⟨[0, 1, 0]⟩ := by
  refine ⟨?_, by decide +kernel⟩
  have hmap : ((Search.descendantPass (strandedTree.engine {}).reach ⟨[0]⟩
        ⟨some ⟨[0]⟩, 0, Level.ofText "Class=M", [Level.ofText "Class=T"]⟩
        ⟨{}, ⟨[none, none]⟩⟩).visits strandedTree.world {}).map
          (fun v => (v.element, v.goal.position, v.goal.rest.length, strandedTree.met v))
      = [(⟨[0, 0]⟩, 0, 1, false)] ++ (⟨[0, 0, 0]⟩, 0, 1, true)
        :: [(⟨[0, 1]⟩, 0, 1, true), (⟨[0, 1, 0]⟩, 1, 0, true)] := by decide +kernel
  obtain ⟨earlier, u, later, hvisits, -, hu, hlater⟩ := exists_split hmap
  obtain ⟨w, rest, rfl, hw, -⟩ := List.map_eq_cons_iff.1 hlater
  simp only [Prod.mk.injEq] at hu hw
  obtain ⟨hue, hup, hur, hum⟩ := hu
  obtain ⟨hwe, hwp, -, hwm⟩ := hw
  refine ⟨earlier, u, w :: rest, hvisits, hum, fun hnil => by simp [hnil] at hur, hue,
    w, List.mem_cons_self, hwm, hwp.trans hup.symm, hwe, ?_⟩
  rw [hue, hwe]
  exact fun h => absurd h.1 (by unfold Place.AtOrAbove; decide)

end Locator
