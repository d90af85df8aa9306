import Locator.Proofs.Conjunction
import Locator.Proofs.Decimals
import Locator.Proofs.VisitLog

/-!
# What an index can be

An element is counted before it is judged, and nothing comes between the two. So at each visit the
counts of what the element has are positive, whatever was rolled back or begun anew before
(`Situation.Counted`). An index qualifier reads one of them, or a count of what the element lacks,
and then the qualifier that asks for what it lacks fails (`Situation.one_le_count`). The decimal of
a positive number is all that an index can be compared with in the end, so only such a value can be
satisfied, in every world (`Engine.index_ordinals`).
-/

namespace Locator

open Text Search

variable {E α β σ : Type}

/-! ## What an index reads -/

namespace Qualifier

/-- The count that an index is compared with. An index of an ancestor has none if no ancestor is
named before it. -/
def count? (q : Qualifier) (s : Situation) (ancestor : Option String) : Option Nat :=
  match q.kind with
  | .index => some s.indexCount
  | .absIndex => some s.absIndexCount
  | .classIndex => some (s.counters.count .className s.facts.className)
  | .absClassIndex => some (s.counters.absoluteCount .className s.facts.className)
  | .objectIndex => some s.counters.object
  | .absObjectIndex => some s.counters.absoluteObject
  | .subclassIndex => ancestor.map (s.counters.count .subclass)
  | .absSubclassIndex => ancestor.map (s.counters.absoluteCount .subclass)
  | _ => none

theorem holds_index {q : Qualifier} (h : q.kind.isIndex) (s : Situation)
    (ancestor : Option String) (text : String) :
    q.holds s ancestor text = (q.count? s ancestor).any (isCount q.value) := by
  obtain ⟨kind, value, bare⟩ := q
  cases kind with
  | index | absIndex | classIndex | absClassIndex | objectIndex | absObjectIndex => rfl
  | subclassIndex | absSubclassIndex => cases ancestor <;> rfl
  | _ => cases h

end Qualifier

namespace Situation

/-- The element was counted just before it is judged. -/
def Counted (s : Situation) : Prop :=
  ∃ before : Counters, s.counters = before.visit s.facts

/-- A qualifier of the level that is no index does not hold, whatever is read for it. -/
def Fails (s : Situation) : Prop :=
  ∃ before p after, s.level.qualifiers = before ++ p :: after ∧ p.kind.isIndex = false
    ∧ ∀ text, p.holds s (namedAncestor before) text = false

variable {s : Situation}

theorem Counted.one_le (h : s.Counted) {family : Family} {key : String}
    (hshare : 1 ≤ s.facts.share family key) :
    1 ≤ s.counters.count family key ∧ 1 ≤ s.counters.absoluteCount family key := by
  obtain ⟨before, hbefore⟩ := h
  rw [hbefore, Counters.count_visit, Counters.absoluteCount_visit]
  exact ⟨hshare.trans (Nat.le_add_left _ _), hshare.trans (Nat.le_add_left _ _)⟩

theorem Counted.one_le_className (h : s.Counted) :
    1 ≤ s.counters.count .className s.facts.className
      ∧ 1 ≤ s.counters.absoluteCount .className s.facts.className :=
  h.one_le (if_pos rfl).ge

theorem Counted.one_le_typeKey (h : s.Counted) :
    1 ≤ s.counters.count .type s.facts.typeKey
      ∧ 1 ≤ s.counters.absoluteCount .type s.facts.typeKey :=
  h.one_le (if_pos rfl).ge

theorem Counted.one_le_object (h : s.Counted) :
    1 ≤ s.counters.object ∧ 1 ≤ s.counters.absoluteObject := by
  obtain ⟨before, hbefore⟩ := h
  rw [hbefore, Counters.object_visit, Counters.absoluteObject_visit]
  exact ⟨Nat.le_add_left _ _, Nat.le_add_left _ _⟩

theorem Fails.of_mem {p : Qualifier} (hmem : p ∈ s.level.qualifiers)
    (hindex : p.kind.isIndex = false) (h : ∀ ancestor text, p.holds s ancestor text = false) :
    s.Fails := by
  obtain ⟨before, after, hsplit⟩ := List.append_of_mem hmem
  exact ⟨before, p, after, hsplit, hindex, h _⟩

theorem Fails.of_has {kind : Qualifier.Kind} (hhas : s.level.has kind)
    (hindex : kind.isIndex = false)
    (h : ∀ p : Qualifier, p.kind = kind → ∀ ancestor text, p.holds s ancestor text = false) :
    s.Fails := by
  obtain ⟨p, hmem, hkind⟩ := List.any_eq_true.1 hhas
  have hkind : p.kind = kind := eq_of_beq hkind
  exact .of_mem hmem (hkind ▸ hindex) (h p hkind)

/-- The count of an id or of a name is positive, unless the element has none. -/
theorem Counted.one_le_indexCount (h : s.Counted) : 1 ≤ s.indexCount ∨ s.Fails := by
  unfold indexCount
  split
  next hident =>
    rcases hnone : s.facts.ident with _ | key
    · refine .inr (.of_has hident rfl fun p hkind ancestor text => ?_)
      simp only [Qualifier.holds, hkind, hnone, Option.any_none]
    · exact .inl (h.one_le (if_pos hnone).ge).1
  next =>
    split
    next hname =>
      rcases hnone : s.facts.name with _ | key
      · refine .inr (.of_has hname rfl fun p hkind ancestor text => ?_)
        simp [Qualifier.holds, hkind, hnone]
      · exact .inl (h.one_le (if_pos hnone).ge).1
    next =>
      split
      next => exact .inl h.one_le_typeKey.1
      next => exact .inl h.one_le_className.1

theorem Counted.one_le_absIndexCount (h : s.Counted) : 1 ≤ s.absIndexCount := by
  unfold absIndexCount
  split
  next => exact h.one_le_typeKey.2
  next => exact h.one_le_className.2

/-- The ancestor that is named is one of the element, unless the qualifier that names it fails. -/
theorem Counted.one_le_ancestor (h : s.Counted) {before after : List Qualifier}
    (hsplit : s.level.qualifiers = before ++ after) {key : String}
    (hnamed : namedAncestor before = some key) :
    (1 ≤ s.counters.count .subclass key ∧ 1 ≤ s.counters.absoluteCount .subclass key)
      ∨ s.Fails := by
  by_cases hmem : key ∈ s.facts.lineage
  · exact .inl (h.one_le (List.one_le_count_iff.2 hmem))
  · obtain ⟨p, hp, rfl⟩ := Option.map_eq_some_iff.1 hnamed
    have hsubclass := List.find?_some hp
    have hkind : p.kind = .subclass := eq_of_beq hsubclass
    have hlevel : p ∈ s.level.qualifiers :=
      hsplit ▸ List.mem_append_left _ (List.mem_reverse.1 (List.mem_of_find?_eq_some hp))
    refine .inr (.of_mem hlevel (by rw [hkind]; rfl) fun ancestor text => ?_)
    simpa [Qualifier.holds, hkind] using hmem

/-- Each count that an index of the level can read is positive, or else another qualifier of the
level fails. -/
theorem Counted.one_le_count (h : s.Counted) {before after : List Qualifier} {q : Qualifier}
    (hsplit : s.level.qualifiers = before ++ q :: after) {n : Nat}
    (hcount : q.count? s (namedAncestor before) = some n) : 1 ≤ n ∨ s.Fails := by
  rw [Qualifier.count?] at hcount
  split at hcount
  next => exact Option.some.inj hcount ▸ h.one_le_indexCount
  next => exact .inl (Option.some.inj hcount ▸ h.one_le_absIndexCount)
  next => exact .inl (Option.some.inj hcount ▸ h.one_le_className.1)
  next => exact .inl (Option.some.inj hcount ▸ h.one_le_className.2)
  next => exact .inl (Option.some.inj hcount ▸ h.one_le_object.1)
  next => exact .inl (Option.some.inj hcount ▸ h.one_le_object.2)
  next =>
    obtain ⟨key, hnamed, rfl⟩ := Option.map_eq_some_iff.1 hcount
    exact (h.one_le_ancestor hsplit hnamed).imp_left And.left
  next =>
    obtain ⟨key, hnamed, rfl⟩ := Option.map_eq_some_iff.1 hcount
    exact (h.one_le_ancestor hsplit hnamed).imp_left And.right
  next => cases hcount

end Situation

/-! ## Judging -/

/-- The value of every index of a level, blanks around it set aside, is the decimal of a positive
number. -/
def Level.Ordinals (level : Level) : Prop :=
  ∀ q ∈ level.qualifiers, q.kind.isIndex → IsOrdinal (trim q.value.toList)

/-- What the element of a visit is judged by. -/
def Visit.situation (v : Visit E) : Situation :=
  { facts := v.facts, level := v.goal.level, counters := v.counters, scope := v.goal.scope }

theorem isOrdinal_of_isCount {value : String} {n : Nat} (hn : 1 ≤ n) (h : isCount value n) :
    IsOrdinal (trim value.toList) := by
  rw [eq_of_beq h]
  exact isOrdinal_decimal hn

theorem Trial.PassesAll.not_fails {t : Trial σ E} (h : t.PassesAll t.situation.level.qualifiers) :
    ¬ t.situation.Fails := by
  rintro ⟨before, p, after, hsplit, -, hnot⟩
  obtain ⟨text, -, hholds⟩ := h before p after hsplit
  rw [hnot text] at hholds
  cases hholds

theorem Trial.PassesAll.ordinals {t : Trial σ E} (h : t.PassesAll t.situation.level.qualifiers)
    (hcounted : t.situation.Counted) : t.situation.level.Ordinals := by
  intro q hq hindex
  obtain ⟨before, after, hsplit⟩ := List.append_of_mem hq
  obtain ⟨text, -, hholds⟩ := h before q after hsplit
  rw [Qualifier.holds_index hindex, Option.any_eq_true] at hholds
  obtain ⟨n, hcount, hvalue⟩ := hholds
  have hn : 1 ≤ n := (hcounted.one_le_count hsplit hcount).resolve_right h.not_fails
  exact isOrdinal_of_isCount hn hvalue

namespace Search

/-- In a world, whatever is remembered and in whatever state, a program counts each element right
before it is judged, and what it answers fits. -/
def Counts (world : World σ E) (program : Search E α) (post : α → Prop) : Prop :=
  ∀ memory state, (∀ v ∈ program.visits world state, v.situation.Counted)
    ∧ ∀ answer, (program.run world memory state).result = .ok answer → post answer

namespace Counts

variable {world : World σ E} {program : Search E α} {post : α → Prop}

theorem done {answer : α} (h : post answer) : Counts world (.done answer) post := by
  refine fun memory state => ⟨nofun, ?_⟩
  rintro _ ⟨⟩
  exact h

theorem question (query : Query E) : Counts world (question query) fun _ => True := by
  refine fun memory state => ⟨?_, fun _ _ => trivial⟩
  rcases hanswer : world.answer query state with ⟨error | answer, later⟩ <;>
    simp only [Search.question, visits, hanswer] <;> exact List.forall_mem_nil _

theorem clock {go : Nat → Search E α} (h : ∀ now, Counts world (go now) post) :
    Counts world (.clock go) post :=
  fun memory state => h (world.now state) memory state

theorem sleep {ms : Nat} (h : Counts world program post) :
    Counts world (.sleep ms program) post :=
  fun memory state => h memory (world.sleep ms state)

theorem remember {remembered : Memory E} (h : Counts world program post) :
    Counts world (.remember remembered program) post :=
  fun _ state => h remembered state

theorem visit {v : Visit E} (hv : v.situation.Counted) (h : Counts world program post) :
    Counts world (.visit v program) post :=
  fun memory state => ⟨List.forall_mem_cons.2 ⟨hv, (h memory state).1⟩, (h memory state).2⟩

theorem mono (h : Counts world program post) {post' : α → Prop}
    (hpost : ∀ answer, post answer → post' answer) : Counts world program post' :=
  fun memory state => ⟨(h memory state).1, fun answer hrun =>
    hpost answer ((h memory state).2 answer hrun)⟩

theorem bind (h : Counts world program post) {next : α → Search E β} {post' : β → Prop}
    (hnext : ∀ answer, post answer → Counts world (next answer) post') :
    Counts world (program >>= next) post' := by
  intro memory state
  obtain ⟨hvisits, hanswer⟩ := h memory state
  rw [visits_bind _ _ memory, run_bind]
  rcases hrun : program.run world memory state with ⟨error | answer, between, later⟩
  · exact ⟨by simpa using hvisits, nofun⟩
  · obtain ⟨hvisits', hanswer'⟩ := hnext answer (hanswer answer (by rw [hrun])) between later
    exact ⟨List.forall_mem_append.2 ⟨hvisits, hvisits'⟩, hanswer'⟩

end Counts

variable {world : World σ E}

theorem facts_counts (e : E) : Counts world (facts e) fun _ => True := by
  unfold facts
  refine (Counts.question (.className e)).bind fun className _ => ?_
  refine (Counts.question (.superclasses e)).bind fun superclasses _ => ?_
  refine (Counts.question (.resolvedType e)).bind fun resolvedType _ => ?_
  refine (Counts.question (.ident e)).bind fun ident _ => ?_
  exact (Counts.question (.name e)).bind fun name _ => .done trivial

theorem read_counts (e : E) : ∀ what : Option Reading, Counts world (read e what) fun _ => True
  | none => .done trivial
  | some .text => .question (.text e)
  | some .caption => .question (.caption e)
  | some (.property name) => .question (.property e name)

theorem satisfies_counts (e : E) (s : Situation) : ∀ (ancestor : Option String)
    (qualifiers : List Qualifier), Counts world (satisfies e s ancestor qualifiers) fun _ => True
  | _, [] => .done trivial
  | ancestor, q :: rest => by
    unfold satisfies
    refine (read_counts e q.reading?).bind fun text _ => ?_
    split
    · exact satisfies_counts e s _ rest
    · exact .done trivial

theorem evaluate_counts {goal : Goal E} {facts : Facts} {counted : Progress}
    (hcounted : (goal.situation facts counted).Counted) (e : E) :
    Counts world (evaluate goal e facts counted) fun judged =>
      judged.1 → goal.level.Ordinals := by
  intro memory state
  constructor
  · have hquiet : Counts world (evaluate goal e facts counted) fun _ => True :=
      (satisfies_counts e _ none goal.level.qualifiers).bind fun satisfied _ => .done trivial
    exact (hquiet memory state).1
  · rintro ⟨satisfied, after⟩ hrun (rfl : satisfied = true)
    obtain ⟨result, judged, hverdict, hevaluate, -⟩ := @Trial.run_evaluate σ E goal world
      e facts counted memory state
    rw [hevaluate, map_eq_ok] at hrun
    have hall := hverdict.true_iff.1 hrun.1
    exact Trial.PassesAll.ordinals hall hcounted

/-- An element that satisfies a level does so right after it was counted. -/
theorem judge_counts (goal : Goal E) (e : E) (before : Progress) :
    Counts world (judge goal e before) fun judged => judged.1 → goal.level.Ordinals := by
  rw [judge_eq]
  refine (facts_counts e).bind fun facts _ => ?_
  exact .visit ⟨before.counters, rfl⟩ (evaluate_counts ⟨before.counters, rfl⟩ e)

/-! ## Searching -/

/-- What is found, is found for levels whose indexes are decimals of positive numbers. -/
def Finding.OnOrdinals (goal : Goal E) (finding : Finding E) : Prop :=
  finding.1.isSome → ∀ level ∈ goal.level :: goal.rest, level.Ordinals

theorem Finding.onOrdinals_none (goal : Goal E) (p : Progress) :
    Finding.OnOrdinals goal (none, p) := by
  intro h
  cases h

theorem scan_counts {descend : E → Goal E → Progress → Search E (Finding E)}
    (hdescend : ∀ e goal p, Counts world (descend e goal p) (Finding.OnOrdinals goal))
    (goal : Goal E) : ∀ (siblings : List E) (p : Progress),
      Counts world (scan descend goal siblings p) (Finding.OnOrdinals goal)
  | [], p => .done (Finding.onOrdinals_none goal p)
  | e :: siblings, p => by
    unfold scan
    refine (judge_counts goal e p).bind ?_
    rintro ⟨satisfied, progress⟩ hlevel
    cases satisfied with
    | true =>
      have hlevel : goal.level.Ordinals := hlevel rfl
      simp only [if_true, commit]
      split
      next hnext =>
        refine .done fun _ => List.forall_mem_cons.2 ⟨hlevel, ?_⟩
        rw [Goal.ofLevels?_eq_none.1 hnext]
        exact List.forall_mem_nil _
      next next hnext =>
        obtain ⟨-, -, hrest⟩ := Goal.ofLevels?_eq_some.1 hnext
        refine (hdescend e next _).mono fun finding hfound hsome => ?_
        rw [hrest]
        exact List.forall_mem_cons.2 ⟨hlevel, hfound hsome⟩
    | false =>
      simp only [Bool.false_eq_true, if_false]
      split
      · exact scan_counts hdescend goal siblings progress
      refine (hdescend e goal progress).bind ?_
      rintro ⟨found, after⟩ hfound
      cases found with
      | some found => exact .done hfound
      | none => exact scan_counts hdescend goal siblings _

theorem searchBelow_counts (reach : Nat) (e : E) (goal : Goal E) (p : Progress) :
    Counts world (searchBelow reach e goal p) (Finding.OnOrdinals goal) := by
  induction reach generalizing e goal p with
  | zero =>
    unfold searchBelow
    exact (Counts.question (.children e)).bind fun children _ =>
      .done (Finding.onOrdinals_none goal p)
  | succ reach ih =>
    unfold searchBelow
    exact (Counts.question (.children e)).bind fun children _ => scan_counts ih goal children p

theorem PassOf.counts {engine : Engine E} {goal : Goal E} {pass : Progress → Search E (Finding E)}
    (h : PassOf engine goal pass) (p : Progress) :
    Counts world (pass p) (Finding.OnOrdinals goal) := by
  cases h with
  | root chain =>
    unfold rootPass
    exact (Counts.question .roots).bind fun roots _ =>
      scan_counts (searchBelow_counts engine.reach) _ roots _
  | descendant hgoal => exact searchBelow_counts engine.reach _ goal _

/-- An element is located only for levels whose indexes are such decimals. -/
def Outcome.OnOrdinals (levels : List Level) (outcome : Outcome E) : Prop :=
  ∀ located, outcome = .found located → ∀ level ∈ levels, level.Ordinals

theorem onOrdinals_notFound (levels : List Level) (missing : NotFound) :
    Outcome.OnOrdinals levels (.notFound missing : Outcome E) :=
  nofun

section Poll

variable {goal : Goal E} {pass : Progress → Search E (Finding E)}
  (hpass : ∀ p, Counts world (pass p) (Finding.OnOrdinals goal)) (chain : Chain) (start : Nat)
  (patience : Patience)
include hpass

theorem poll_counts (started spare passes : Nat) (p : Progress) :
    Counts world (poll chain start patience pass started spare passes p)
      (Outcome.OnOrdinals (goal.level :: goal.rest)) := by
  induction spare using Nat.strong_induction_on generalizing passes p with
  | _ spare ih =>
  unfold poll
  refine (hpass p.unmarked).bind ?_
  rintro ⟨found, after⟩ hfound
  cases found with
  | some e => exact .done fun _ _ => hfound rfl
  | none =>
    refine .clock fun now => ?_
    change Counts world (if _ then _ else _) _
    split
    · exact .done (onOrdinals_notFound _ _)
    · rcases spare with _ | spare
      · exact .done (onOrdinals_notFound _ _)
      · exact .sleep (ih spare (Nat.lt_succ_self spare) (passes + 1) after)

theorem pollFromNow_counts :
    Counts world (pollFromNow chain start patience pass)
      (Outcome.OnOrdinals (goal.level :: goal.rest)) :=
  .clock fun now => poll_counts hpass chain start patience now _ 0 _

end Poll

end Search

/-! ## Requests -/

namespace Engine

variable {world : World σ E} {engine : Engine E} {state : σ}

theorem locateRoot_counts (engine : Engine E) (chain : Chain) (timeoutSecs : Nat)
    (singlePass : Bool) :
    Counts world (engine.locateRoot chain timeoutSecs singlePass)
      (Outcome.OnOrdinals chain.levels) := by
  unfold locateRoot
  refine (pollFromNow_counts (PassOf.root chain).counts chain 0 _).bind ?_
  rintro (located | missing) hlocated
  · exact .remember (.done hlocated)
  · exact .done hlocated

theorem locateBelow_counts (engine : Engine E) (cachedRoot : Option (String × E)) (root : E)
    (chain : Chain) (timeoutSecs : Nat) (singlePass : Bool) :
    Counts world (engine.locateBelow cachedRoot root chain timeoutSecs singlePass)
      (Outcome.OnOrdinals (chain.levels.drop (firstSearched engine.settings chain))) := by
  unfold locateBelow
  rcases hgoal : goalBelow? engine.settings chain root with _ | goal
  · refine .remember (.done fun _ _ => ?_)
    rw [Goal.ofLevels?_eq_none.1 hgoal]
    exact List.forall_mem_nil _
  · obtain ⟨-, -, hlevels⟩ := Goal.ofLevels?_eq_some.1 hgoal
    rw [hlevels]
    refine (pollFromNow_counts (PassOf.descendant hgoal).counts chain goal.position _).bind ?_
    rintro (located | missing) hlocated
    · exact .remember (.done hlocated)
    · exact .done hlocated

theorem program_counts {request : Request} {program : Search E (Outcome E)}
    (h : engine.program request = .ok program) : Counts world program fun _ => True := by
  cases request with
  | root path timeoutSecs singlePass =>
    obtain ⟨chain, -, hprogram⟩ := bind_eq_ok.1 h
    cases hprogram
    exact (engine.locateRoot_counts chain timeoutSecs singlePass).mono fun _ _ => trivial
  | descendant rootPath path timeoutSecs singlePass =>
    obtain ⟨chain, -, hprogram⟩ := bind_eq_ok.1 h
    split at hprogram
    · cases hprogram
      exact (engine.locateBelow_counts _ _ chain timeoutSecs singlePass).mono fun _ _ => trivial
    · obtain ⟨rootChain, -, hprogram⟩ := bind_eq_ok.1 hprogram
      cases hprogram
      unfold locateRootAndBelow
      refine (engine.locateRoot_counts rootChain _ singlePass).bind ?_
      rintro (located | missing) -
      · exact (engine.locateBelow_counts _ _ chain timeoutSecs singlePass).mono
          fun _ _ => trivial
      · exact .done trivial

/-- The levels that a request searches for: those of a root, and those below it. The levels of a
root that is remembered are not searched for again. -/
inductive SearchesFor (engine : Engine E) : Request → Level → Prop
  | root {path : String} {timeoutSecs : Nat} {singlePass : Bool} {chain : Chain} {level : Level}
      (hchain : readPath path = .ok chain) (hlevel : level ∈ chain.levels) :
      SearchesFor engine (.root path timeoutSecs singlePass) level
  | rootFirst {rootPath path : String} {timeoutSecs : Nat} {singlePass : Bool} {chain : Chain}
      {level : Level} (hremembered : engine.memory.rootFor? rootPath = none)
      (hchain : readPath rootPath = .ok chain) (hlevel : level ∈ chain.levels) :
      SearchesFor engine (.descendant rootPath path timeoutSecs singlePass) level
  | below {rootPath path : String} {timeoutSecs : Nat} {singlePass : Bool} {chain : Chain}
      {level : Level} (hchain : readPath path = .ok chain)
      (hlevel : level ∈ chain.levels.drop (firstSearched engine.settings chain)) :
      SearchesFor engine (.descendant rootPath path timeoutSecs singlePass) level

theorem SearchesFor.ordinals {request : Request} {level : Level}
    (h : engine.SearchesFor request level) {located : Located E}
    (hfound : (engine.handle world request state).1 = .ok (.found located)) : level.Ordinals := by
  have hroot {path : String} {timeoutSecs : Nat} {singlePass : Bool} {chain : Chain}
      (hchain : readPath path = .ok chain) {located : Located E}
      (hfound : (engine.handle world (.root path timeoutSecs singlePass) state).1
        = .ok (.found located)) : ∀ level ∈ chain.levels, level.Ordinals := by
    rw [(handle_of_program (program_root hchain) world state).1] at hfound
    exact (engine.locateRoot_counts chain timeoutSecs singlePass _ _).2 _ hfound located rfl
  cases h with
  | root hchain hlevel => exact hroot hchain hfound level hlevel
  | @rootFirst rootPath path timeoutSecs singlePass _ _ hremembered hrootChain hlevel =>
    rcases hchain : readPath path with error | chain
    · rw [(handle_of_refused (program_descendant_unreadable hchain) world state).1] at hfound
      cases hfound
    rcases hinUse : engine.rootInUse world rootPath singlePass state with _ | root
    · exact absurd hfound ((handle_without_root timeoutSecs hchain hinUse).1 located)
    rw [rootInUse, hremembered] at hinUse
    obtain ⟨rootLocated, hrootFound, -⟩ := elementOf_eq_some.1 hinUse
    exact hroot hrootChain hrootFound level hlevel
  | @below rootPath path timeoutSecs singlePass chain _ hchain hlevel =>
    rcases hroot : engine.rootInUse world rootPath singlePass state with _ | root
    · exact absurd hfound ((handle_without_root timeoutSecs hchain hroot).1 located)
    obtain ⟨cachedRoot, memory, later, hhandle, -⟩ := handle_descendant timeoutSecs hchain hroot
    rw [hhandle] at hfound
    exact (engine.locateBelow_counts cachedRoot root chain timeoutSecs singlePass memory later).2 _
      hfound located rfl level hlevel

/-- In any world an element satisfies a level only if the values of all its indexes, blanks set
aside, are decimals of positive numbers, and so do the levels that a request searches for when it
finds something. At each visit an index is compared with a count of the element that is positive,
unless it has none to be compared with or another qualifier of the level fails. -/
theorem index_ordinals (world : World σ E) (engine : Engine E) :
    (∀ goal element before memory state after,
      ((judge goal element before).run world memory state).result = .ok (true, after) →
        goal.level.Ordinals)
      ∧ ∀ request state,
        (∀ v ∈ engine.visits world request state, ∀ before q after,
          v.goal.level.qualifiers = before ++ q :: after → q.kind.isIndex →
            (∀ text, q.holds v.situation (namedAncestor before) text
              = (q.count? v.situation (namedAncestor before)).any (isCount q.value))
            ∧ ∀ n, q.count? v.situation (namedAncestor before) = some n →
              1 ≤ n ∨ v.situation.Fails)
        ∧ ∀ located, (engine.handle world request state).1 = .ok (.found located) →
          ∀ level, engine.SearchesFor request level → level.Ordinals := by
  refine ⟨fun goal element before memory state after hrun => ?_, fun request state => ⟨?_, ?_⟩⟩
  · exact (judge_counts goal element before memory state).2 _ hrun rfl
  · intro v hv before q after hsplit hindex
    have hcounted : v.situation.Counted := by
      rcases hprogram : engine.program request with error | program
      · rw [(handle_of_refused hprogram world state).2] at hv
        exact absurd hv List.not_mem_nil
      · rw [(handle_of_program hprogram world state).2] at hv
        exact (program_counts hprogram engine.memory state).1 v hv
    exact ⟨Qualifier.holds_index hindex _ _, fun n => hcounted.one_le_count hsplit⟩
  · exact fun located hfound level hlevel => hlevel.ordinals hfound

/-- A button is found by an index with blanks around it; no window is by one with a zero in
front. -/
theorem index_ordinals_window :
    let engine := windowTree.engine {}
    let request : Request := .root "Class=Window;\\;Class=Button;AbsClassIndex= 2 " 0 true
    let padded : Request := .root "Class=Window;Index=01" 0 true
    elementOf (engine.handle windowTree.world request {}).1 = some ⟨[0, 1]⟩
      ∧ (∀ level, engine.SearchesFor request level → level.Ordinals)
      ∧ ∀ located, (engine.handle windowTree.world padded {}).1 ≠ .ok (.found located) := by
  intro engine request padded
  have hbutton : elementOf (engine.handle windowTree.world request {}).1 = some ⟨[0, 1]⟩ := by
    decide +kernel
  obtain ⟨located, hfound, -⟩ := elementOf_eq_some.1 hbutton
  refine ⟨hbutton, ((index_ordinals windowTree.world engine).2 request {}).2 located hfound, ?_⟩
  intro located hfound
  have hchain : readPath "Class=Window;Index=01"
      = .ok ⟨"Class=Window;Index=01", Level.ofText "Class=Window;Index=01", []⟩ := by
    decide +kernel
  have hlevel : engine.SearchesFor padded (Level.ofText "Class=Window;Index=01") :=
    .root hchain List.mem_cons_self
  have hordinals := ((index_ordinals windowTree.world engine).2 padded {}).2 located hfound _ hlevel
  have hindex : (⟨.index, "01", false⟩ : Qualifier)
      ∈ (Level.ofText "Class=Window;Index=01").qualifiers := by decide
  exact (hordinals _ hindex rfl).unpadded (by decide)

end Engine

end Locator
