import Locator.Proofs.Commitment
import Locator.Proofs.Ranks
import Locator.Proofs.Rendering

/-!
# Selecting by a name and an index

A level `Name=v;Index=n` asks for an element with the name whose count is the index. The count of a
name is its rank at the last level, so a scan for that level comes to the `n`th of the elements it
looks at that have the name (`Scan.nthNamed`): below an element, or among its children if the level
asks for a child. That holds in every scope that a pass opens for the level, whatever levels stand
above it (`last_level_ranks`).
-/

namespace Locator

open Text

/-! ## The text of the level -/

/-- An index that is written as a decimal is that count. -/
theorem isCount_repr {n count : Nat} : isCount n.repr count ↔ count = n := by
  have hdigits : ∀ c ∈ decimal n, isBlank c = false := fun c hc =>
    isBlank_of_isDigit (isDigit_of_mem_decimal hc)
  rw [isCount, Nat.toList_repr, beq_iff_eq, ← decimal, trim_of_forall_not_blank hdigits,
    decimal_inj, eq_comm]

namespace Level

/-- The text of a level that asks for a name and an index, of a child or of any descendant. -/
def nthNamedText (fpsm : Bool) (name : String) (n : Nat) : String :=
  (if fpsm then fpsmSentinel else "") ++ "Name=" ++ name ++ ";Index=" ++ n.repr

def nthNamed (fpsm : Bool) (name : String) (n : Nat) : Level :=
  ofText (nthNamedText fpsm name n)

variable {name : String}

/-- The level with a qualifier and an index. -/
def indexed (fpsm : Bool) (kind : Qualifier.Kind) (value : String) (n : Nat) : Level where
  raw := ""
  fpsm
  qualifiers := [{ kind, value }, { kind := .index, value := n.repr }]
  dropped := []

theorem notMem_repr (n : Nat) : separator ∉ n.repr.toList := by
  intro hmem
  rw [Nat.toList_repr] at hmem
  exact absurd (isDigit_of_mem_decimal hmem) (by decide)

theorem ofText_of_render {level : Level} {text : String} (hwritten : level.Written)
    (htext : text.toList = level.render) :
    (ofText text).fpsm = level.fpsm ∧ (ofText text).qualifiers = level.qualifiers := by
  rw [ofText, htext, ofChars_render hwritten]
  exact ⟨rfl, rfl⟩

/-- A text that renders such a level is read as it is meant, if the value has no separator in it. -/
theorem ofText_indexed {fpsm : Bool} {kind : Qualifier.Kind} {value text : String} {n : Nat}
    (hvalue : separator ∉ value.toList)
    (htext : text.toList = (indexed fpsm kind value n).render) :
    (ofText text).fpsm = fpsm
      ∧ (ofText text).qualifiers = [{ kind, value }, { kind := .index, value := n.repr }] := by
  have hwritten : (indexed fpsm kind value n).Written := List.forall_mem_cons.2
    ⟨.of_assignment hvalue, List.forall_mem_singleton.2 (.of_assignment (notMem_repr n))⟩
  exact ofText_of_render hwritten htext

theorem ofText_nthNamed (hname : separator ∉ name.toList) (fpsm : Bool) (n : Nat) :
    (nthNamed fpsm name n).fpsm = fpsm
      ∧ (nthNamed fpsm name n).qualifiers = [{ kind := .name, value := name },
        { kind := .index, value := n.repr }] := by
  refine ofText_indexed hname ?_
  cases fpsm <;> simp [indexed, nthNamedText, render, Qualifier.render, Qualifier.Kind.keyword,
    Qualifier.assignment, separator, List.intercalate_cons_cons]

end Level

/-- An element satisfies the level just when it has the name and as many elements of that name have
been counted. -/
theorem Node.meets_nthNamed {goal : Goal Place} {name : String} {fpsm : Bool} {n : Nat}
    (hname : Level.separator ∉ name.toList) (hlevel : goal.level = Level.nthNamed fpsm name n)
    (node : Node) (counters : Counters) :
    node.meets goal counters ↔ node.name = some name ∧ counters.count .name name = n := by
  obtain ⟨-, hqualifiers⟩ := Level.ofText_nthNamed hname fpsm n
  rw [← hlevel] at hqualifiers
  have hcounted : ∀ s : Situation, s.level = goal.level →
      s.indexCount = s.countAny .name s.facts.name := by
    intro s hs
    simp [Situation.indexCount, Level.has, hs, hqualifiers]
  rw [Node.meets, hqualifiers]
  simp only [Node.satisfies, Qualifier.holds, Bool.and_true, Bool.and_eq_true, beq_iff_eq,
    isCount_repr]
  rw [hcounted _ rfl]
  refine and_congr_right fun hnamed => ?_
  have hnamed : node.facts.name = some name := hnamed
  simp only [hnamed, Situation.countAny]

/-! ## The elements with a name -/

theorem getElem?_filter_eq_some {α : Type} {p : α → Bool} {a : α} {xs : List α} {k : Nat} :
    (xs.filter p)[k]? = some a
      ↔ ∃ before after, xs = before ++ a :: after ∧ p a ∧ before.countP p = k := by
  constructor
  · induction xs generalizing k with
    | nil => simp
    | cons x xs ih =>
      intro h
      by_cases hx : p x
      · rw [List.filter_cons_of_pos hx] at h
        rcases k with _ | k
        · obtain rfl : x = a := Option.some.inj h
          exact ⟨[], xs, rfl, hx, rfl⟩
        · obtain ⟨before, after, rfl, ha, hcount⟩ := ih h
          exact ⟨x :: before, after, rfl, ha, by rw [List.countP_cons_of_pos hx, hcount]⟩
      · rw [List.filter_cons_of_neg hx] at h
        obtain ⟨before, after, rfl, ha, hcount⟩ := ih h
        exact ⟨x :: before, after, rfl, ha, by rw [List.countP_cons_of_neg hx, hcount]⟩
  · rintro ⟨before, after, rfl, ha, rfl⟩
    rw [List.filter_append, List.filter_cons_of_pos ha, List.countP_eq_length_filter,
      List.getElem?_append_right (Nat.le_refl _), Nat.sub_self, List.getElem?_cons_zero]

namespace Snapshot

def isNamed (tree : Snapshot) (name : String) (e : Place) : Bool :=
  decide (tree.key? .name e = some name)

/-- The `n`th of some elements that has a name, counted from one. -/
def nthNamed (tree : Snapshot) (name : String) (n : Nat) (order : List Place) : Option Place :=
  (order.filter (tree.isNamed name))[n - 1]?

/-- What a level with a name and an index is to select below an element. -/
def selected (tree : Snapshot) (fpsm : Bool) (name : String) (n : Nat) (s : Place) :
    Option Place :=
  tree.nthNamed name n (if fpsm then tree.children s else tree.below s)

end Snapshot

/-! ## A scan for the level -/

section Scan

variable {tree : Snapshot} {goal : Goal Place} {siblings : List Place} {before after : Progress}
  {result : Option Place} {vs : List (Visit Place)}

/-- A scan for the last level comes to the element of the first visit that was met. -/
theorem Scan.find?_met (h : Scan tree goal siblings before result after vs) :
    goal.rest = [] → result = (vs.find? tree.met).map (·.element) := by
  have hmissed {goal : Goal Place} {e : Place} {node : Node} {before : Progress}
      (he : tree.node? e = some node)
      (hm : ¬ node.meets goal (before.visit node.facts).counters) :
      ¬ tree.met (goal.visit e node.facts before) := by
    rwa [met_visit he]
  induction h with
  | nil => exact fun _ => rfl
  | last he hm hn =>
    intro _
    rw [List.find?_cons_of_pos ((met_visit he).trans hm)]
    rfl
  | commit _ _ hn =>
    intro hrest
    rw [(Goal.ofLevels?_eq_some.1 hn).2.2] at hrest
    cases hrest
  | skip he hm _ _ ih | found he hm _ _ ih =>
    intro hrest
    rw [List.find?_cons_of_neg (hmissed he hm)]
    exact ih hrest
  | failed he hm _ _ _ ihbelow ihrest =>
    intro hrest
    rw [List.find?_cons_of_neg (hmissed he hm), List.find?_append,
      Option.map_eq_none_iff.1 (ihbelow hrest).symm, Option.none_or]
    exact ihrest hrest

variable {fpsm : Bool} {name : String} {n : Nat}

/-- In a scan begun in a new scope an element satisfies the level just when it is the `n`th with the
name. -/
theorem Scan.met_nthNamed {p : Progress} {pre post : List (Visit Place)} {v : Visit Place}
    (h : Scan tree goal siblings p.newScope result after (pre ++ v :: post))
    (hrest : goal.rest = []) (hname : Level.separator ∉ name.toList) (hn : 1 ≤ n)
    (hlevel : goal.level = Level.nthNamed fpsm name n) :
    tree.met v ↔ tree.isNamed name v.element
      ∧ (pre.map (·.element)).countP (tree.isNamed name) = n - 1 := by
  have hmem : v ∈ pre ++ v :: post := List.mem_append_right pre List.mem_cons_self
  obtain ⟨node, hnode, -⟩ := h.facts_of_mem v hmem
  have hcount : v.counters.count .name name
      = ((pre ++ [v]).map (·.element)).countP (tree.isNamed name) :=
    (h.counted hrest).2 .name rfl name
  have hnamed : tree.isNamed name v.element ↔ node.name = some name := by
    rw [Snapshot.isNamed, decide_eq_true_eq, Snapshot.key?, hnode]
    rfl
  rw [Snapshot.met, hnode, Option.any_some, h.goal_eq hrest v hmem,
    Node.meets_nthNamed hname hlevel, ← hnamed, hcount, List.map_append, List.countP_append]
  refine and_congr_right fun hv => ?_
  rw [List.map_singleton, List.countP_singleton, if_pos hv]
  omega

/-- A scan for the level, begun in a new scope, comes to the `n`th element with the name among those
it looks at. -/
theorem Scan.nthNamed {p : Progress} (h : Scan tree goal siblings p.newScope result after vs)
    (hrest : goal.rest = []) (hname : Level.separator ∉ name.toList) (hn : 1 ≤ n)
    (hlevel : goal.level = Level.nthNamed fpsm name n) :
    result = tree.nthNamed name n (tree.lookedAt goal siblings) := by
  obtain ⟨⟨others, hothers⟩, hall⟩ := h.prefix_lookedAt hrest
  have hfind := h.find?_met hrest
  cases result with
  | some x =>
    obtain ⟨v, hv, rfl⟩ := Option.map_eq_some_iff.1 hfind.symm
    obtain ⟨hmet, pre, post, rfl, -⟩ := List.find?_eq_some_iff_append.1 hv
    obtain ⟨hnamed, hcount⟩ := (h.met_nthNamed hrest hname hn hlevel).1 hmet
    have hsplit : tree.lookedAt goal siblings
        = pre.map (·.element) ++ v.element :: (post.map (·.element) ++ others) := by
      rw [← hothers, List.map_append, List.map_cons, List.append_assoc, List.cons_append]
    exact (getElem?_filter_eq_some.2 ⟨_, _, hsplit, hnamed, hcount⟩).symm
  | none =>
    rcases hselected : tree.nthNamed name n (tree.lookedAt goal siblings) with _ | x
    · rfl
    · -- what is selected was visited, and met
      obtain ⟨before, after, hsplit, hx, hcount⟩ := getElem?_filter_eq_some.1 hselected
      rw [← hall rfl] at hsplit
      obtain ⟨pre, v, post, rfl, rfl, rfl, -⟩ := exists_split hsplit
      have hmet : tree.met v := (h.met_nthNamed hrest hname hn hlevel).2 ⟨hx, hcount⟩
      have hunmet := List.find?_eq_none.1 (Option.map_eq_none_iff.1 hfind.symm) v
        (List.mem_append_right pre List.mem_cons_self)
      exact absurd hmet hunmet

/-- Below an element such a scan comes to what the level is to select there. -/
theorem Scan.selected {s : Place} {p : Progress}
    (h : Scan tree goal (tree.children s) p.newScope result after vs)
    (hanchor : goal.anchor = some s) (hrest : goal.rest = [])
    (hname : Level.separator ∉ name.toList) (hn : 1 ≤ n)
    (hlevel : goal.level = Level.nthNamed fpsm name n) :
    result = tree.selected fpsm name n s := by
  have hfpsm : goal.level.fpsm = fpsm := by
    rw [hlevel]
    exact (Level.ofText_nthNamed hname fpsm n).1
  rw [h.nthNamed hrest hname hn hlevel, Snapshot.lookedAt_children hanchor, hfpsm]
  rfl

end Scan

/-! ## A pass -/

/-- A goal below an element, or with further levels, the last of which is the level. -/
def Goal.EndsIn {E : Type} (goal : Goal E) (level : Level) : Prop :=
  goal.rest.getLast? = some level ∨ goal.anchor.isSome ∧ goal.level = level ∧ goal.rest = []

/-- The last level is looked for below an element: the anchor of the goal, if there is no other
level, or an element that satisfied the level above. -/
def LastScope (tree : Snapshot) (goal : Goal Place) (vs : List (Visit Place)) (level : Level)
    (s : Place) : Prop :=
  (goal.anchor = some s ∧ goal.level = level ∧ goal.rest = [])
  ∨ ∃ u ∈ vs, tree.met u ∧ u.element = s ∧ u.goal.rest = [level]

/-- The last level is searched for by selecting an element below each element that it is looked for
below: what is selected there, if anything, is the result, and nothing else is. -/
structure Selects (tree : Snapshot) (goal : Goal Place) (vs : List (Visit Place)) (level : Level)
    (select : Place → Option Place) (result : Option Place) : Prop where
  each : ∀ s, LastScope tree goal vs level s → (select s).isSome → select s = result
  some : result.isSome → ∃ s, LastScope tree goal vs level s ∧ select s = result

theorem Goal.EndsIn.getLast? {E : Type} {goal : Goal E} {level : Level} (h : goal.EndsIn level) :
    (goal.level :: goal.rest).getLast? = some level := by
  rcases h with hlast | ⟨-, hlevel, hrest⟩
  · rw [List.getLast?_cons, hlast]
    rfl
  · rw [hrest, hlevel]
    rfl

section Scan

variable {tree : Snapshot} {goal : Goal Place} {p after : Progress} {result : Option Place}
  {vs : List (Visit Place)} {fpsm : Bool} {name : String} {n : Nat}

/-- What a scan for a level alone, begun in a new scope below an element, comes to. -/
def SelectedBy (tree : Snapshot) (level : Level) (select : Place → Option Place) : Prop :=
  ∀ (goal : Goal Place) (s : Place) (p : Progress) (result : Option Place) (after : Progress)
    (vs : List (Visit Place)), Scan tree goal (tree.children s) p.newScope result after vs →
    goal.anchor = some s → goal.rest = [] → goal.level = level → result = select s

theorem selectedBy_nthNamed (tree : Snapshot) (fpsm : Bool) (hname : Level.separator ∉ name.toList)
    (hn : 1 ≤ n) :
    SelectedBy tree (Level.nthNamed fpsm name n) (tree.selected fpsm name n) :=
  fun _ _ _ _ _ _ hscan hanchor hrest hlevel => hscan.selected hanchor hrest hname hn hlevel

theorem Scan.selects_of {level : Level} {select : Place → Option Place}
    (h : Scan tree goal (tree.under goal.anchor) p.newScope result after vs)
    (hends : goal.EndsIn level) (hselect : SelectedBy tree level select) :
    Selects tree goal vs level select result where
  each s hs hsome := by
    rcases hs with ⟨hanchor, hlevel, hrest⟩ | ⟨u, hu, hmet, rfl, hrest⟩
    · rw [hanchor] at h
      exact (hselect _ _ _ _ _ _ h hanchor hrest hlevel).symm
    · obtain ⟨inner, ws, hscope⟩ := h.scope_of_met u hu hmet
        ⟨some u.element, u.goal.position + 1, level, []⟩
        (Goal.ofLevels?_eq_some.2 ⟨rfl, rfl, hrest⟩)
      obtain ⟨q, later, hscan⟩ := hscope.scan
      have hinner := hselect _ _ _ _ _ _ hscan rfl rfl rfl
      rw [← hinner] at hsome ⊢
      exact hscope.decides hsome
  some hsome := by
    obtain ⟨v, hv, hmet, hlast⟩ := h.isSome_iff.1 hsome
    have hlevel : v.goal.level = level := by
      obtain ⟨others, hothers⟩ := h.levels_suffix v hv
      have := hends.getLast?
      rw [← hothers, hlast, List.getLast?_append] at this
      exact Option.some.inj this
    rcases h.scope_of_mem v hv with hgoal | ⟨u, inner, ws, hscope, hmem⟩
    · rw [hgoal] at hlevel hlast
      rcases hends with hmore | ⟨hanchor, -⟩
      · rw [hlast] at hmore
        cases hmore
      · obtain ⟨s, hs⟩ := Option.isSome_iff_exists.1 hanchor
        rw [hs] at h
        exact ⟨s, .inl ⟨hs, hlevel, hlast⟩, (hselect _ _ _ _ _ _ h hs hlast hlevel).symm⟩
    · obtain ⟨hu, hmetu, hnext⟩ := hscope.opened
      obtain ⟨q, later, hscan⟩ := hscope.scan
      have hinner := hselect _ _ _ _ _ _ hscan hscope.anchor hlast hlevel
      refine ⟨u.element, .inr ⟨u, hu, hmetu, rfl, ?_⟩, ?_⟩
      · rw [(Goal.ofLevels?_eq_some.1 hnext).2.2, hlevel, hlast]
      · rw [← hinner]
        exact hscope.decides (hscan.isSome_iff.2 ⟨v, hmem, hmet, hlast⟩)

theorem Scan.selects (h : Scan tree goal (tree.under goal.anchor) p.newScope result after vs)
    (hends : goal.EndsIn (Level.nthNamed fpsm name n)) (hname : Level.separator ∉ name.toList)
    (hn : 1 ≤ n) :
    Selects tree goal vs (Level.nthNamed fpsm name n) (tree.selected fpsm name n) result :=
  h.selects_of hends (selectedBy_nthNamed tree fpsm hname hn)

end Scan

/-- A pass over a snapshot goes by a scan if its elements can be listed and its root is there. -/
theorem Search.PassOf.goesBy {tree : Snapshot} {engine : Engine Place} {goal : Goal Place}
    {pass : Progress → Search Place (Finding Place)} (h : PassOf engine goal pass)
    (hlisted : tree.unlisted = false) (hreach : tree.height ≤ engine.reach)
    (hthere : ∀ root, goal.anchor = some root → (tree.node? root).isSome) (p : Progress)
    (time : Clock) : GoesBy tree time (pass p) goal (tree.under goal.anchor) p.newScope := by
  cases h with
  | root chain => exact rootPass_goesBy hlisted hreach chain.rootGoal p
  | @descendant chain root _ hgoal =>
    have hanchor : goal.anchor = some root := (Goal.ofLevels?_eq_some.1 hgoal).1
    obtain ⟨node, hnode⟩ := Option.isSome_iff_exists.1 (hthere root hanchor)
    rw [hanchor]
    exact descendantPass_goesBy hlisted hreach hnode goal p

/-- A pass for a goal that ends in the level selects what the level selects. -/
theorem Search.PassOf.selects {tree : Snapshot} {engine : Engine Place} {goal : Goal Place}
    {pass : Progress → Search Place (Finding Place)} (h : PassOf engine goal pass)
    (hlisted : tree.unlisted = false) (hreach : tree.height ≤ engine.reach) {level : Level}
    {select : Place → Option Place} (hselect : SelectedBy tree level select)
    (hends : goal.EndsIn level)
    (hthere : ∀ root, goal.anchor = some root → (tree.node? root).isSome) (p : Progress)
    (time : Clock) :
    ∃ result after,
      (∀ memory, (pass p).run tree.world memory time = ⟨.ok (result, after), memory, time⟩)
      ∧ Selects tree goal ((pass p).visits tree.world time) level select result := by
  obtain ⟨result, after, vs, hreturns, hscan⟩ := h.goesBy hlisted hreach hthere p time
  refine ⟨result, after, hreturns.run, ?_⟩
  rw [hreturns.visits]
  exact hscan.selects_of hends hselect

/-! ## A request -/

namespace Engine

variable {tree : Snapshot} {engine : Engine Place} {fpsm : Bool} {name : String} {n : Nat}

/-- A search below a root whose passes all come to the same comes to that, however long it polls. -/
theorem locateBelow_steady {chain : Chain} {root : Place} {goal : Goal Place}
    {result : Option Place} (hgoal : goalBelow? engine.settings chain root = some goal)
    (hpass : ∀ time p, ∃ after vs, Search.Returns tree.world time
      (Search.descendantPass engine.reach root goal p) (result, after) vs)
    (cachedRoot : Option (String × Place)) (timeoutSecs : Nat) (singlePass : Bool)
    (memory : Memory Place) (time : Clock) :
    ∃ outcome,
      ((engine.locateBelow cachedRoot root chain timeoutSecs singlePass).run tree.world memory
        time).result = .ok outcome ∧ outcome.located?.map (·.element) = result := by
  obtain ⟨outcome, hpoll, houtcome⟩ : ∃ outcome,
      ((Search.pollFromNow chain goal.position (engine.patience timeoutSecs singlePass)
        (Search.descendantPass engine.reach root goal)).run tree.world memory time).result
          = .ok outcome ∧ outcome.located?.map (·.element) = result :=
    Search.poll_steady hpass (passLimit - 1) 0 (.start chain) memory time
  obtain ⟨remembered, hrun⟩ :=
    run_locateBelow engine tree.world hgoal cachedRoot timeoutSecs singlePass memory time
  exact ⟨outcome, by rw [hrun]; exact hpoll, houtcome⟩

/-- A request for a level alone comes to what the level is to select below the root in use,
however long it polls. -/
theorem handle_selects {level : Level} {select : Place → Option Place}
    (hlisted : tree.unlisted = false) (hreach : tree.height ≤ engine.reach)
    (hselect : SelectedBy tree level select) {rootPath path : String} {singlePass : Bool}
    {time : Clock} {root : Place}
    (hroot : engine.rootInUse tree.world rootPath singlePass time = some root)
    (hthere : (tree.node? root).isSome) {chain : Chain} (hchain : readPath path = .ok chain)
    (hone : chain.levels.drop (firstSearched engine.settings chain) = [level])
    (timeoutSecs : Nat) :
    ∃ outcome,
      (engine.handle tree.world (.descendant rootPath path timeoutSecs singlePass) time).1
        = .ok outcome
      ∧ outcome.located?.map (·.element) = select root := by
  obtain ⟨node, hnode⟩ := Option.isSome_iff_exists.1 hthere
  obtain ⟨cachedRoot, memory, later, hhandle, -⟩ := handle_descendant timeoutSecs hchain hroot
  have hgoal : goalBelow? engine.settings chain root
      = some ⟨some root, firstSearched engine.settings chain, level, []⟩ :=
    Goal.ofLevels?_eq_some.2 ⟨rfl, rfl, hone⟩
  -- each pass begins a new scope, so all of them come to the same
  have hpass : ∀ (time : Clock) (p : Progress), ∃ after vs, Search.Returns tree.world time
      (Search.descendantPass engine.reach root
        ⟨some root, firstSearched engine.settings chain, level, []⟩ p) (select root, after) vs := by
    intro time p
    obtain ⟨result, after, vs, hreturns, hscan⟩ :=
      Search.descendantPass_goesBy hlisted hreach hnode
        ⟨some root, firstSearched engine.settings chain, level, []⟩ p
    obtain rfl := hselect _ _ _ _ _ _ hscan rfl rfl rfl
    exact ⟨after, vs, hreturns⟩
  obtain ⟨outcome, hend, houtcome⟩ :=
    locateBelow_steady hgoal hpass cachedRoot timeoutSecs singlePass memory later
  exact ⟨outcome, hhandle.trans hend, houtcome⟩

theorem handle_selected (hlisted : tree.unlisted = false) (hreach : tree.height ≤ engine.reach)
    (hname : Level.separator ∉ name.toList) (hn : 1 ≤ n) {rootPath path : String}
    {singlePass : Bool} {time : Clock} {root : Place}
    (hroot : engine.rootInUse tree.world rootPath singlePass time = some root)
    (hthere : (tree.node? root).isSome) {chain : Chain} (hchain : readPath path = .ok chain)
    (hone : chain.levels.drop (firstSearched engine.settings chain)
      = [Level.nthNamed fpsm name n]) (timeoutSecs : Nat) :
    ∃ outcome,
      (engine.handle tree.world (.descendant rootPath path timeoutSecs singlePass) time).1
        = .ok outcome
      ∧ outcome.located?.map (·.element) = tree.selected fpsm name n root :=
  handle_selects hlisted hreach (selectedBy_nthNamed tree fpsm hname hn) hroot hthere hchain hone
    timeoutSecs

/-- What a request visits for a last level below an element is ranked among all that lies below
that element. -/
theorem rankedIn_below (hreach : tree.height ≤ engine.reach) {request : Request} {time : Clock}
    {v : Visit Place} (hv : v ∈ engine.visits tree.world request time) {s : Place}
    (hs : v.goal.anchor = some s) (hlast : v.goal.rest = []) (hdeep : v.goal.level.fpsm = false) :
    tree.RankedIn (tree.below s) v := by
  have hbelow : tree.lookedAt v.goal (tree.children s) = tree.below s := by
    rw [Snapshot.lookedAt_children hs, hdeep, if_neg Bool.false_ne_true]
  obtain ⟨chain, goal, result, after, round, ⟨counters, hscan⟩, hmem, -⟩ :=
    visits_request hreach hv
  rw [← hbelow]
  rcases hscan.scope_of_mem v hmem with hgoal | ⟨u, inner, ws, hscope, hmem⟩
  · rw [hgoal] at hs hlast ⊢
    rw [hs] at hscan
    exact hscan.ranked (p := ⟨counters, _⟩) hlast v hmem
  · obtain rfl : u.element = s := Option.some.inj (hscope.anchor.symm.trans hs)
    obtain ⟨p, later, hinner⟩ := hscope.scan
    exact hinner.ranked hlast v hmem

/-- At the last level, below an element, the counts that are not rolled back are ranks in document
order. So a last level that asks for a name and an index selects the element that has that rank
among those with the name, below each element that it is looked for below; a request for that level
alone finds it below its root, or finds nothing if there are fewer. -/
theorem last_level_ranks (hreach : tree.height ≤ engine.reach) :
    (∀ request time, ∀ v ∈ engine.visits tree.world request time, ∀ s, v.goal.anchor = some s →
      v.goal.rest = [] → v.goal.level.fpsm = false → tree.RankedIn (tree.below s) v)
    ∧ (tree.unlisted = false → ∀ fpsm name n, ';' ∉ name.toList → 1 ≤ n →
      (∀ goal pass, Search.PassOf engine goal pass → goal.EndsIn (Level.nthNamed fpsm name n) →
        (∀ root, goal.anchor = some root → (tree.node? root).isSome) →
        ∀ p time, ∃ result after,
          (∀ memory, (pass p).run tree.world memory time = ⟨.ok (result, after), memory, time⟩)
          ∧ Selects tree goal ((pass p).visits tree.world time) (Level.nthNamed fpsm name n)
              (tree.selected fpsm name n) result)
      ∧ ∀ rootPath path timeoutSecs singlePass time root chain,
        engine.rootInUse tree.world rootPath singlePass time = some root →
        (tree.node? root).isSome → readPath path = .ok chain →
        chain.levels.drop (firstSearched engine.settings chain) = [Level.nthNamed fpsm name n] →
        ∃ outcome,
          (engine.handle tree.world (.descendant rootPath path timeoutSecs singlePass) time).1
            = .ok outcome
          ∧ outcome.located?.map (·.element) = tree.selected fpsm name n root) := by
  refine ⟨fun request time v hv s hs hlast hdeep => rankedIn_below hreach hv hs hlast hdeep,
    fun hlisted fpsm name n hname hn => ⟨?_, ?_⟩⟩
  · intro goal pass hpass hends hthere p time
    obtain ⟨result, after, vs, hreturns, hscan⟩ := hpass.goesBy hlisted hreach hthere p time
    refine ⟨result, after, hreturns.run, ?_⟩
    rw [hreturns.visits]
    exact hscan.selects hends hname hn
  · intro rootPath path timeoutSecs singlePass time root chain hroot hthere hchain hone
    exact handle_selected hlisted hreach hname hn hroot hthere hchain hone timeoutSecs

end Engine

/-- A window with a panel, in which there is an element named `ok`, and another beside the panel. -/
def okTree : Snapshot where
  roots :=
    [{ className := "Window"
       children :=
        [{ className := "Panel", children := [{ className := "Button", name := some "ok" }] },
          { className := "Label", name := some "ok" }] }]

namespace Engine

/-- The label is the second element named `ok` in the window, but only the first among its
children. -/
theorem last_level_ranks_ok :
    let engine := okTree.engine {}
    (∃ v ∈ engine.visits okTree.world (.descendant "Class=Window" "Name=ok;Index=2" 0 true) {},
      v.element = ⟨[0, 1]⟩ ∧ okTree.RankedIn [⟨[0, 0]⟩, ⟨[0, 0, 0]⟩, ⟨[0, 1]⟩] v)
    ∧ (∃ outcome, (engine.handle okTree.world
          (.descendant "Class=Window" "Name=ok;Index=2" 0 true) {}).1 = .ok outcome
        ∧ outcome.located?.map (·.element) = some ⟨[0, 1]⟩)
    ∧ (∃ outcome, (engine.handle okTree.world
          (.descendant "Class=Window" ":FPSM:Name=ok;Index=2" 0 true) {}).1 = .ok outcome
        ∧ outcome.located?.map (·.element) = none)
    ∧ ∀ p time, ∃ result after,
        (∀ memory, (Search.rootPass engine.reach
            ⟨none, 0, Level.ofText "Class=Window", [Level.nthNamed false "ok" 2]⟩ p).run
            okTree.world memory time = ⟨.ok (result, after), memory, time⟩)
        ∧ Selects okTree ⟨none, 0, Level.ofText "Class=Window", [Level.nthNamed false "ok" 2]⟩
            ((Search.rootPass engine.reach
              ⟨none, 0, Level.ofText "Class=Window", [Level.nthNamed false "ok" 2]⟩ p).visits
              okTree.world time)
            (Level.nthNamed false "ok" 2) (okTree.selected false "ok" 2) result := by
  intro engine
  obtain ⟨hranks, hselects⟩ := @last_level_ranks okTree engine (Nat.le_refl okTree.height)
  have hroot : engine.rootInUse okTree.world "Class=Window" true {} = some ⟨[0]⟩ := by
    decide +kernel
  refine ⟨?_, ?_, ?_, ?_⟩
  · have h : ((engine.visits okTree.world
        (.descendant "Class=Window" "Name=ok;Index=2" 0 true) {}).find?
          (·.element = ⟨[0, 1]⟩)).map (fun v => (v.goal.anchor, v.goal.rest, v.goal.level.fpsm))
        = some (some ⟨[0]⟩, [], false) := by decide +kernel
    obtain ⟨v, hfind, hv⟩ := Option.map_eq_some_iff.1 h
    simp only [Prod.mk.injEq] at hv
    obtain ⟨hanchor, hlast, hdeep⟩ := hv
    have helement : v.element = ⟨[0, 1]⟩ := by simpa using List.find?_some hfind
    have hmem := List.mem_of_find?_eq_some hfind
    exact ⟨v, hmem, helement, hranks _ _ v hmem ⟨[0]⟩ hanchor hlast hdeep⟩
  · exact (hselects rfl false "ok" 2 (by decide) (by decide)).2 _ "Name=ok;Index=2" 0 true {} ⟨[0]⟩
      ⟨"Name=ok;Index=2", Level.nthNamed false "ok" 2, []⟩ hroot rfl (by decide +kernel)
      (by decide +kernel)
  · exact (hselects rfl true "ok" 2 (by decide) (by decide)).2 _ ":FPSM:Name=ok;Index=2" 0 true {}
      ⟨[0]⟩ ⟨":FPSM:Name=ok;Index=2", Level.nthNamed true "ok" 2, []⟩ hroot rfl (by decide +kernel)
      (by decide +kernel)
  · exact (hselects rfl false "ok" 2 (by decide) (by decide)).1 _ _
      (.root ⟨"Class=Window;\\;Name=ok;Index=2", Level.ofText "Class=Window",
        [Level.nthNamed false "ok" 2]⟩) (.inl rfl) nofun

end Engine

end Locator
