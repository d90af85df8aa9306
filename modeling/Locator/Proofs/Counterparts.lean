import Locator.Proofs.Selecting
import Locator.Proofs.SinglePasses

/-!
# Chains that ask for the same

A chain may ask for the same as another in other words, or do so below some levels of its own
(`Chain.Counterpart`). Single passes for the two ask the same questions and mark the same counts, so
they answer the same, but for what the words are (`Engine.once_descendant_same`). Over a snapshot
whose elements can be listed each of them has an answer (`Engine.once_descendant_ok`).
-/

namespace Locator

open Search

variable {E V : Type}

/-- A match of a level, as it looks in a view of matches. -/
def Level.shownBy (view : LevelMatch → V) (level : Level) (counters : Counters) : V :=
  view ⟨level.raw, counters⟩

/-- Below some levels at its top a chain asks for the same as another, and matches of its levels
look the same in a view. -/
structure Chain.Counterpart (view : LevelMatch → V) (above : Nat) (chain chain' : Chain) :
    Prop where
  meaning : (chain.levels.drop above).map Level.meaning = chain'.levels.map Level.meaning
  shown : (chain.levels.drop above).map (Level.shownBy view)
    = chain'.levels.map (Level.shownBy view)

/-- The same element through levels whose matches look the same in a view, or nothing, after as many
passes. -/
inductive Outcome.SameBy (view : LevelMatch → V) : Outcome E → Outcome E → Prop
  | found {l l' : Located E} (element : l.element = l'.element)
      (levels : l.levels.map view = l'.levels.map view) (passes : l.passes = l'.passes) :
      SameBy view (found l) (found l')
  | notFound {m m' : NotFound} (timeoutSecs : m.timeoutSecs = m'.timeoutSecs)
      (elapsedMs : m.elapsedMs = m'.elapsedMs) (passes : m.passes = m'.passes) :
      SameBy view (notFound m) (notFound m')

theorem Outcome.SameBy.refl (view : LevelMatch → V) : ∀ outcome : Outcome E,
    outcome.SameBy view outcome
  | .found _ => .found rfl rfl rfl
  | .notFound _ => .notFound rfl rfl rfl

/-! ## What is reported -/

theorem Chain.map_matchesFrom (view : LevelMatch → V) (chain : Chain) (start : Nat)
    (marks : Marks) :
    (chain.matchesFrom start marks).map view
      = (((chain.levels.drop start).map (Level.shownBy view)).zip
          (marks.byLevel.drop start)).filterMap fun pair => pair.2.map pair.1 := by
  have hdrop : (chain.levels.zip marks.byLevel).drop start
      = (chain.levels.drop start).zip (marks.byLevel.drop start) := List.drop_zipWith
  rw [matchesFrom, List.map_filterMap, List.zip_map_left, List.filterMap_map, hdrop]
  refine List.filterMap_congr ?_
  rintro ⟨level, mark⟩ -
  cases mark <;> rfl

namespace Chain.Counterpart

variable {view : LevelMatch → V} {above : Nat} {chain chain' : Chain}

theorem length (h : chain.Counterpart view above chain') :
    chain.levels.length = above + chain'.levels.length := by
  have hlength := congrArg List.length h.meaning
  rw [List.length_map, List.length_map, List.length_drop] at hlength
  have : 0 < chain'.levels.length := Nat.succ_pos _
  omega

theorem drop (h : chain.Counterpart view above chain') (start : Nat) :
    (chain.levels.drop (above + start)).map Level.meaning
        = (chain'.levels.drop start).map Level.meaning
      ∧ (chain.levels.drop (above + start)).map (Level.shownBy view)
        = (chain'.levels.drop start).map (Level.shownBy view) := by
  constructor
  · rw [← List.drop_drop, List.map_drop, h.meaning, List.map_drop]
  · rw [← List.drop_drop, List.map_drop, h.shown, List.map_drop]

/-- The levels above are not marked, and not reported. -/
theorem map_matchesFrom (h : chain.Counterpart view above chain') (start : Nat)
    {marks marks' : Marks} (hmarks : marks.byLevel = List.replicate above none ++ marks'.byLevel) :
    (chain.matchesFrom (above + start) marks).map view
      = (chain'.matchesFrom start marks').map view := by
  have hdrop : marks.byLevel.drop (above + start) = marks'.byLevel.drop start := by
    rw [hmarks, ← List.drop_drop, List.drop_left' List.length_replicate]
  rw [Chain.map_matchesFrom, Chain.map_matchesFrom, (h.drop start).2, hdrop]

theorem report (h : chain.Counterpart view above chain') (start : Nat) (patience : Patience)
    (passes : Nat) {size : Nat} {f g : Finding E}
    (hfg : Counters.View.all.SameFinding (List.replicate above none) size f g) :
    Outcome.SameBy view (Search.report chain (above + start) patience passes f)
      (Search.report chain' start patience passes g) := by
  obtain ⟨result, after⟩ := f
  obtain ⟨result', after'⟩ := g
  obtain ⟨hresult, hagree⟩ := hfg
  obtain rfl : result = result' := hresult
  cases result with
  | none => exact .notFound rfl rfl rfl
  | some e =>
    obtain ⟨back, hmarks, hback⟩ := hagree.marks
    have hback : back = after'.marks.byLevel := by
      simpa only [Counters.View.all, Option.map_id_fun, List.map_id_fun, id_eq] using hback
    exact .found rfl (h.map_matchesFrom start (hback ▸ hmarks)) rfl

end Chain.Counterpart

/-! ## What is answered -/

/-- First passes that ask alike come to related ends. -/
theorem Search.firstPass_same {R : Finding E → Finding E → Prop}
    {pass pass' : Progress → Search E (Finding E)} {chain chain' : Chain} (answers : Oracle E)
    (h : Alike R (pass (Progress.start chain).unmarked) (pass' (Progress.start chain').unmarked)) :
    SameEnd R (firstPass pass chain answers) (firstPass pass' chain' answers) := by
  obtain ⟨a, b, hab, hrun, hrun'⟩ := h.run answers.world_answers answers.world_answers
  rw [firstPass, firstPass, hrun, hrun']
  exact hab

namespace Engine

variable {view : LevelMatch → V} {above : Nat} {chain chain' : Chain}

/-- Two chains that ask for the same from the first level on. -/
theorem rootOnce_same (engine : Engine E) (answers : Oracle E)
    (h : chain.Counterpart view 0 chain') (timeoutSecs : Nat) :
    SameEnd (Outcome.SameBy view) (engine.rootOnce answers chain timeoutSecs)
      (engine.rootOnce answers chain' timeoutSecs) := by
  have hmeaning : chain.levels.map Level.meaning = chain'.levels.map Level.meaning := h.meaning
  rw [Chain.levels, Chain.levels, List.map_cons, List.map_cons, List.cons.injEq] at hmeaning
  have hgoal : chain.rootGoal.Counterpart 0 (chain'.rootGoal : Goal E) :=
    ⟨rfl, rfl, hmeaning.1, hmeaning.2⟩
  have hpass := rootPass_counterpart engine.reach hgoal
    (fun level _ => Counters.View.all_suffices level) (p := .start chain) (q := .start chain') rfl
    ((List.length_map _).trans (h.length.trans (Nat.zero_add _))) (List.length_map _)
  exact (firstPass_same answers hpass).map fun f g hfg => h.report 0 _ 1 hfg

/-- Where the levels on top are not searched for, it does not matter that they are there. -/
theorem belowOnce_same (engine : Engine E) (answers : Oracle E)
    (h : chain.Counterpart view above chain')
    (hfirst : firstSearched engine.settings chain
      = above + firstSearched engine.settings chain') (root : E) (timeoutSecs : Nat) :
    SameEnd (Outcome.SameBy view) (engine.belowOnce answers root chain timeoutSecs)
      (engine.belowOnce answers root chain' timeoutSecs) := by
  have hboth : Option.Rel (Goal.Counterpart above) (goalBelow? engine.settings chain root)
      (goalBelow? engine.settings chain' root) := by
    rw [goalBelow?, goalBelow?, hfirst]
    exact Goal.Counterpart.ofLevels? (some root) above _ (h.drop _).1
  unfold belowOnce
  rcases hgoal : goalBelow? engine.settings chain root with _ | goal <;>
    rcases hgoal' : goalBelow? engine.settings chain' root with _ | goal' <;>
    rw [hgoal, hgoal'] at hboth
  · exact .ok (.refl view _)
  · cases hboth
  · cases hboth
  cases hboth with
  | some hboth =>
    have hpass := descendantPass_counterpart engine.reach root hboth
      (fun level _ => Counters.View.all_suffices level) (p := .start chain) (q := .start chain')
      rfl ((List.length_map _).trans h.length) (List.length_map _)
    refine (firstPass_same answers hpass).map fun f g hfg => ?_
    rw [hboth.position]
    exact h.report _ _ 1 hfg

/-- So a request is answered in the same way, with the same recognition string for the root. -/
theorem once_descendant_same (engine : Engine E) (answers : Oracle E) {path path' : String}
    (hchain : readPath path = .ok chain) (hchain' : readPath path' = .ok chain')
    (h : chain.Counterpart view above chain')
    (hfirst : firstSearched engine.settings chain
      = above + firstSearched engine.settings chain') {rootPath : String} {rootChain : Chain}
    (hrootChain : readPath rootPath = .ok rootChain) (timeoutSecs : Nat) (singlePass : Bool) :
    SameEnd (Outcome.SameBy view)
      (engine.once answers (.descendant rootPath path timeoutSecs singlePass))
      (engine.once answers (.descendant rootPath path' timeoutSecs singlePass)) := by
  rw [once_descendant hchain hrootChain, once_descendant hchain' hrootChain]
  refine (SameEnd.refl (fun _ => rfl) _ : SameEnd Eq _ _).bind ?_
  rintro (located | missing) _ rfl
  · exact belowOnce_same engine answers h hfirst located.element timeoutSecs
  · exact .ok (.refl view _)

/-! ## Over a snapshot -/

section Snapshot

variable {tree : Snapshot} {engine : Engine Place} (hlisted : tree.unlisted = false)
  (hreach : tree.height ≤ engine.reach)
include hlisted hreach

/-- A first pass over a snapshot whose elements can be listed comes to an end, and what it finds is
an element of the snapshot. -/
theorem firstPass_ok {goal : Goal Place} {pass : Progress → Search Place (Finding Place)}
    (h : PassOf engine goal pass)
    (hthere : ∀ root, goal.anchor = some root → (tree.node? root).isSome) (chain : Chain) :
    ∃ result after, firstPass pass chain tree.answer = .ok (result, after)
      ∧ ∀ e, result = some e → (tree.node? e).isSome := by
  obtain ⟨result, after, vs, hreturns, hscan⟩ :=
    h.goesBy hlisted hreach hthere (Progress.start chain).unmarked {}
  have hrun := (h.run_first (tree.world_answers {}) chain {}).symm.trans (hreturns.run {})
  exact ⟨result, after, congrArg Ending.result hrun, hscan.isSome_of_found⟩

theorem rootOnce_ok (chain : Chain) (timeoutSecs : Nat) :
    ∃ outcome, engine.rootOnce tree.answer chain timeoutSecs = .ok outcome
      ∧ ∀ located, outcome = .found located → (tree.node? located.element).isSome := by
  obtain ⟨result, after, hfirst, hthere⟩ :=
    firstPass_ok hlisted hreach (PassOf.root chain) (by rintro _ ⟨⟩) chain
  rw [rootOnce, hfirst]
  refine ⟨_, rfl, ?_⟩
  cases result with
  | none => rintro _ ⟨⟩
  | some e =>
    rintro _ ⟨⟩
    exact hthere e rfl

theorem belowOnce_ok {root : Place} (hroot : (tree.node? root).isSome) (chain : Chain)
    (timeoutSecs : Nat) :
    ∃ outcome, engine.belowOnce tree.answer root chain timeoutSecs = .ok outcome := by
  unfold belowOnce
  rcases hgoal : goalBelow? engine.settings chain root with _ | goal
  · exact ⟨_, rfl⟩
  have hanchor : goal.anchor = some root := (Goal.ofLevels?_eq_some.1 hgoal).1
  obtain ⟨result, after, hfirst, -⟩ := firstPass_ok hlisted hreach (PassOf.descendant hgoal)
    (fun e he => by
      rw [hanchor, Option.some.injEq] at he
      rwa [← he]) chain
  simp only [hfirst]
  exact ⟨_, rfl⟩

theorem once_descendant_ok {path rootPath : String} {chain rootChain : Chain}
    (hchain : readPath path = .ok chain) (hrootChain : readPath rootPath = .ok rootChain)
    (timeoutSecs : Nat) (singlePass : Bool) :
    ∃ outcome, engine.once tree.answer (.descendant rootPath path timeoutSecs singlePass)
      = .ok outcome := by
  obtain ⟨root, hroot, hthere⟩ :=
    rootOnce_ok hlisted hreach rootChain engine.settings.rootRefreshTimeoutSecs
  rw [once_descendant hchain hrootChain, hroot]
  cases root with
  | found located => exact belowOnce_ok hlisted hreach (hthere located rfl) chain timeoutSecs
  | notFound missing => exact ⟨_, rfl⟩

end Snapshot

end Engine

end Locator
