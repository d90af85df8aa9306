import Locator.Proofs.Requests
import Locator.Proofs.Views

/-!
# Passes that repeat

A pass for relative levels comes to the same whatever the passes before it left behind: to what a
first pass comes to where the same questions have the same answers (`PassOf.run`). So polling
goes by first passes alone. It goes on for as long as they find nothing and time is left, and what
it reports is what the first pass in its last state comes to (`poll_ends`).
-/

namespace Locator

variable {E σ : Type}

theorem Snapshot.world_answers (tree : Snapshot) (clock : Clock) :
    tree.world.Answers clock tree.answer :=
  fun _ => rfl

/-! ## What is reported -/

def LevelMatch.inScope (m : LevelMatch) : String × Census × Nat :=
  (m.level, m.counters.inScope)

/-- In the scope the levels are reported as the marks show it. -/
theorem Chain.map_inScope_matchesFrom (chain : Chain) (start : Nat) (marks : Marks) :
    (chain.matchesFrom start marks).map LevelMatch.inScope
      = ((chain.levels.zip (marks.byLevel.map (Option.map Counters.inScope))).drop start).filterMap
          fun (level, mark) => mark.map fun counted => (level.raw, counted) := by
  rw [matchesFrom, List.map_filterMap, List.zip_map_right, ← List.map_drop, List.filterMap_map]
  refine List.filterMap_congr fun ⟨level, mark⟩ _ => ?_
  cases mark <;> rfl

theorem Counters.View.Agree.map_inScope {size : Nat} {p q : Progress}
    (h : View.scope.Agree [] size p q) (chain : Chain) (start : Nat) :
    (chain.matchesFrom start p.marks).map LevelMatch.inScope
      = (chain.matchesFrom start q.marks).map LevelMatch.inScope := by
  obtain ⟨back, hp, hq⟩ := h.marks
  rw [Chain.map_inScope_matchesFrom, Chain.map_inScope_matchesFrom, hp, List.nil_append]
  exact congrArg (fun marks => ((chain.levels.zip marks).drop start).filterMap _) hq

namespace Outcome

def passes : Outcome E → Nat
  | found located => located.passes
  | notFound missing => missing.passes

/-- The same element with the same counts in scope, or no element. -/
inductive SameInScope : Outcome E → Outcome E → Prop
  | found {l l' : Located E} (helement : l.element = l'.element)
      (hlevels : l.levels.map LevelMatch.inScope = l'.levels.map LevelMatch.inScope) :
      SameInScope (found l) (found l')
  | notFound (missing missing' : NotFound) : SameInScope (notFound missing) (notFound missing')

end Outcome

/-- What is reported of a pass, up to counts that are not in scope: its error, the element that it
found with the levels from a position on, or that it found nothing. -/
inductive Reports (chain : Chain) (start : Nat) :
    Except Error (Finding E) → Except Error (Outcome E) → Prop
  | failed (error : Error) : Reports chain start (.error error) (.error error)
  | found {e : E} {after : Progress} {levels : List LevelMatch} {passes : Nat}
      (h : levels.map LevelMatch.inScope
        = (chain.matchesFrom start after.marks).map LevelMatch.inScope) :
      Reports chain start (.ok (some e, after)) (.ok (.found ⟨e, levels, passes⟩))
  | missed (after : Progress) (missing : NotFound) :
      Reports chain start (.ok (none, after)) (.ok (.notFound missing))

theorem Reports.eq_of_missed {chain : Chain} {start : Nat} {after : Progress}
    {answer : Except Error (Outcome E)} (h : Reports chain start (.ok (none, after)) answer) :
    ∃ missing, answer = .ok (.notFound missing) := by
  cases h with
  | missed _ missing => exact ⟨missing, rfl⟩

theorem Reports.same {chain : Chain} {start : Nat} {end' : Except Error (Finding E)}
    {answer answer' : Except Error (Outcome E)} (h : Reports chain start end' answer)
    (h' : Reports chain start end' answer') : SameEnd Outcome.SameInScope answer answer' := by
  cases h with
  | failed error =>
    cases h'
    exact .failed error
  | found h =>
    cases h' with
    | found h' => exact .ok (.found rfl (h.trans h'.symm))
  | missed after missing =>
    cases h' with
    | missed _ missing' => exact .ok (.notFound missing missing')

namespace Search

variable {engine : Engine E} {goal : Goal E} {pass : Progress → Search E (Finding E)}
  {chain : Chain}

/-- What a first pass comes to where questions have some answers. -/
def firstPass (pass : Progress → Search E (Finding E)) (chain : Chain) (answers : Oracle E) :
    Except Error (Finding E) :=
  ((pass (Progress.start chain).unmarked).run answers.world {} ()).result

/-- A pass for relative levels comes to what a first pass comes to. -/
theorem PassOf.run (h : PassOf engine goal pass)
    (hrelative : ∀ level ∈ goal.level :: goal.rest, level.Relative) {p : Progress}
    (hp : p.marks.byLevel.length = chain.levels.length) {world : World σ E} {state : σ}
    {answers : Oracle E} (hanswers : world.Answers state answers) :
    ∃ a, SameEnd (Counters.View.scope.SameFinding [] chain.levels.length)
        (firstPass pass chain answers) a
      ∧ ∀ memory, (pass p.unmarked).run world memory state = ⟨a, memory, state⟩ := by
  have halike := h.alike (fun level hlevel => (hrelative level hlevel).suffices) (.start chain) p
    rfl (List.length_map _) hp
  obtain ⟨first, a, hsame, hfirst, hrun⟩ := halike.run answers.world_answers hanswers
  refine ⟨a, ?_, hrun⟩
  rw [firstPass, hfirst]
  exact hsame

/-- The first pass itself, for any levels. -/
theorem PassOf.run_first (h : PassOf engine goal pass) {world : World σ E} {state : σ}
    {answers : Oracle E} (hanswers : world.Answers state answers) (chain : Chain)
    (memory : Memory E) :
    (pass (Progress.start chain).unmarked).run world memory state
      = ⟨firstPass pass chain answers, memory, state⟩ := by
  have halike := h.alike (fun level _ => Counters.View.all_suffices level) (.start chain)
    (.start chain) rfl rfl rfl
  obtain ⟨a, b, hab, hrun, hfirst⟩ := halike.self.run hanswers answers.world_answers
  rw [hrun, firstPass, hfirst]
  cases hab with
  | failed => rfl
  | ok h => rw [h]

/-! ## Polling -/

section Poll

variable {world : World σ E} {start : Nat} {patience : Patience} {started : Nat}

/-- How polling ends after some more passes: it finds nothing before, and reports what a first pass
comes to at last. -/
structure Ends (world : World σ E) (come : σ → Except Error (Finding E)) (chain : Chain)
    (start : Nat) (patience : Patience) (started spare passes : Nat) (state : σ) (more : Nat)
    (answer : Except Error (Outcome E)) (later : σ) : Prop where
  later_eq : later = (world.sleep patience.pollIntervalMs)^[more] state
  missed : ∀ k < more, ∃ after,
    come ((world.sleep patience.pollIntervalMs)^[k] state) = .ok (none, after)
  reports : Reports chain start (come later) answer
  single : patience.singlePass = true → more = 0
  passes_eq : ∀ outcome, answer = .ok outcome → outcome.passes = passes + more + 1
  stopped : ∀ missing, answer = .ok (.notFound missing) → patience.singlePass = true
    ∨ 1000 * patience.timeoutSecs ≤ world.now later - started ∨ more = spare

variable {come : σ → Except Error (Finding E)} {spare passes more : Nat} {state later : σ}
  {answer : Except Error (Outcome E)}

namespace Ends

/-- Polling ends with the pass that it makes next. -/
theorem now (hreports : Reports chain start (come state) answer)
    (hpasses : ∀ outcome, answer = .ok outcome → outcome.passes = passes + 1)
    (hstopped : ∀ missing, answer = .ok (.notFound missing) → patience.singlePass = true
      ∨ 1000 * patience.timeoutSecs ≤ world.now state - started ∨ spare = 0) :
    Ends world come chain start patience started spare passes state 0 answer state where
  later_eq := rfl
  missed k hk := absurd hk (Nat.not_lt_zero k)
  reports := hreports
  single _ := rfl
  passes_eq := hpasses
  stopped missing h := (hstopped missing h).imp_right (Or.imp_right Eq.symm)

theorem of_failed {error : Error} (hcome : come state = .error error) :
    Ends world come chain start patience started spare passes state 0 (.error error) state :=
  .now (by rw [hcome]; exact .failed error) nofun nofun

theorem of_found {e : E} {after : Progress} {levels : List LevelMatch}
    (hcome : come state = .ok (some e, after))
    (hlevels : levels.map LevelMatch.inScope
      = (chain.matchesFrom start after.marks).map LevelMatch.inScope) :
    Ends world come chain start patience started spare passes state 0
      (.ok (.found ⟨e, levels, passes + 1⟩)) state := by
  refine .now (by rw [hcome]; exact .found hlevels) ?_ ?_
  · rintro _ ⟨⟩
    rfl
  · rintro _ ⟨⟩

/-- Polling goes on after a pass that found nothing. -/
theorem again {after : Progress} (hcome : come state = .ok (none, after))
    (hsingle : ¬ patience.singlePass = true)
    (h : Ends world come chain start patience started spare (passes + 1)
      (world.sleep patience.pollIntervalMs state) more answer later) :
    Ends world come chain start patience started (spare + 1) passes state (more + 1) answer
      later where
  later_eq := h.later_eq
  missed
    | 0, _ => ⟨after, hcome⟩
    | k + 1, hk => h.missed k (Nat.lt_of_succ_lt_succ hk)
  reports := h.reports
  single hs := absurd hs hsingle
  passes_eq outcome ho := by rw [h.passes_eq outcome ho]; omega
  stopped missing hm := (h.stopped missing hm).imp_right (Or.imp_right (congrArg (· + 1)))

end Ends

/-- What a single pass reports. -/
theorem pollFromNow_reports {result : Option E} {after : Progress} {vs : List (Visit E)}
    (h : Returns world state (pass (Progress.start chain).unmarked) (result, after) vs)
    (patience : Patience) (hsingle : patience.singlePass = true) (start : Nat) :
    ∃ outcome, Returns world state (pollFromNow chain start patience pass) outcome vs
      ∧ Reports chain start (.ok (result, after)) (.ok outcome) := by
  cases result with
  | some e => exact ⟨_, Returns.now.bind (poll_found h), .found rfl⟩
  | none => exact ⟨_, Returns.now.bind (poll_missed h (.inl hsingle)), .missed after _⟩

variable {answers : σ → Oracle E} (hanswers : ∀ state, world.Answers state (answers state))
include hanswers

/-- Polling for relative levels in a world that asking does not change. -/
theorem poll_ends (h : PassOf engine goal pass)
    (hrelative : ∀ level ∈ goal.level :: goal.rest, level.Relative) (spare passes : Nat)
    (p : Progress) (state : σ) (hp : p.marks.byLevel.length = chain.levels.length) :
    ∃ more answer later,
      Ends world (fun state => firstPass pass chain (answers state)) chain start patience started
        spare passes state more answer later
      ∧ ∀ memory, (poll chain start patience pass started spare passes p).run world memory state
        = ⟨answer, memory, later⟩ := by
  induction spare using Nat.strong_induction_on generalizing passes p state with
  | _ spare ih =>
  obtain ⟨a, hsame, hrun⟩ := h.run hrelative hp (hanswers state)
  rcases hcome : firstPass pass chain (answers state) with error | ⟨result, after⟩ <;>
    rw [hcome] at hsame
  · obtain rfl := hsame.eq_of_error
    refine ⟨0, _, state, .of_failed hcome, fun memory => ?_⟩
    unfold poll
    rw [run_bind, hrun]
  obtain ⟨⟨found, progress⟩, rfl, hresult, hagree⟩ := hsame.exists_of_ok
  obtain rfl : result = found := hresult
  have hreturns : Returns world state (pass p.unmarked) (result, progress) _ := ⟨hrun, rfl⟩
  cases result with
  | some e =>
    exact ⟨0, _, state, .of_found hcome (hagree.map_inScope chain start).symm,
      (poll_found hreturns).run⟩
  | none =>
    by_cases hup : patience.singlePass = true
        ∨ 1000 * patience.timeoutSecs ≤ world.now state - started ∨ spare = 0
    · refine ⟨0, _, state, .now ?_ ?_ fun _ _ => hup, (poll_missed hreturns hup).run⟩
      · rw [hcome]
        exact .missed after _
      · rintro _ ⟨⟩
        rfl
    · obtain ⟨spare, rfl⟩ : ∃ n, spare = n + 1 := Nat.exists_eq_succ_of_ne_zero (by tauto)
      -- the marks that this pass left are as many as before, so the next pass is alike too
      obtain ⟨more, answer, later, hends, hrest⟩ := ih spare (Nat.lt_succ_self spare) (passes + 1)
        progress (world.sleep patience.pollIntervalMs state) hagree.length
      obtain ⟨-, hagain⟩ := poll_again hreturns fun hstop => hup (hstop.imp_right .inl)
      exact ⟨more + 1, answer, later, hends.again hcome (by tauto),
        fun memory => (hagain memory).trans (hrest memory)⟩

theorem pollFromNow_ends (h : PassOf engine goal pass)
    (hrelative : ∀ level ∈ goal.level :: goal.rest, level.Relative) (chain : Chain) (start : Nat)
    (patience : Patience) (state : σ) :
    ∃ more, ∀ memory,
      Ends world (fun state => firstPass pass chain (answers state)) chain start patience
        (world.now state) (passLimit - 1) 0 state more
        ((pollFromNow chain start patience pass).run world memory state).result
        ((pollFromNow chain start patience pass).run world memory state).state := by
  obtain ⟨more, answer, later, hends, hrun⟩ := poll_ends hanswers h hrelative (passLimit - 1) 0
    (.start chain) state (List.length_map _)
  have hpoll : ∀ memory, (pollFromNow chain start patience pass).run world memory state
      = ⟨answer, memory, later⟩ := hrun
  exact ⟨more, fun memory => by rw [hpoll]; exact hends⟩

end Poll

end Search

/-! ## Requests that poll -/

namespace Engine

open Search

variable {world : World σ E} {engine : Engine E} {chain : Chain}

/-- To remember what was located does not change how a search ends. -/
theorem run_andRemember {program : Search E (Outcome E)}
    {next : Outcome E → Search E (Outcome E)}
    (hnext : ∀ outcome memory state, ∃ remembered,
      (next outcome).run world memory state = ⟨.ok outcome, remembered, state⟩)
    (memory : Memory E) (state : σ) :
    ∃ remembered, (program >>= next).run world memory state
      = { program.run world memory state with memory := remembered } := by
  rw [run_bind]
  rcases program.run world memory state with ⟨error | outcome, memory', state'⟩
  · exact ⟨memory', rfl⟩
  · exact hnext outcome memory' state'

theorem run_locateRoot (engine : Engine E) (world : World σ E) (chain : Chain) (timeoutSecs : Nat)
    (singlePass : Bool) (memory : Memory E) (state : σ) :
    ∃ remembered, (engine.locateRoot chain timeoutSecs singlePass).run world memory state
      = { (pollFromNow chain 0 (engine.patience timeoutSecs singlePass)
            (rootPass engine.reach chain.rootGoal)).run world memory state with
          memory := remembered } := by
  unfold locateRoot
  refine run_andRemember ?_ memory state
  rintro (located | missing) memory state
  · exact ⟨_, rfl⟩
  · exact ⟨_, rfl⟩

theorem run_locateBelow (engine : Engine E) (world : World σ E) {root : E} {goal : Goal E}
    (hgoal : goalBelow? engine.settings chain root = some goal)
    (cachedRoot : Option (String × E)) (timeoutSecs : Nat) (singlePass : Bool)
    (memory : Memory E) (state : σ) :
    ∃ remembered,
      (engine.locateBelow cachedRoot root chain timeoutSecs singlePass).run world memory state
        = { (pollFromNow chain goal.position (engine.patience timeoutSecs singlePass)
              (descendantPass engine.reach root goal)).run world memory state with
            memory := remembered } := by
  unfold locateBelow
  rw [hgoal]
  refine run_andRemember ?_ memory state
  rintro (located | missing) memory state
  · exact ⟨_, rfl⟩
  · exact ⟨_, rfl⟩

/-- Where there is nothing to search for, the root is found without a pass. -/
theorem run_locateBelow_nothing (engine : Engine E) (world : World σ E) {root : E}
    (hgoal : goalBelow? engine.settings chain root = none) (cachedRoot : Option (String × E))
    (timeoutSecs : Nat) (singlePass : Bool) (memory : Memory E) (state : σ) :
    ∃ remembered,
      (engine.locateBelow cachedRoot root chain timeoutSecs singlePass).run world memory state
        = ⟨.ok (.found ⟨root, [], 0⟩), remembered, state⟩ := by
  unfold locateBelow
  rw [hgoal]
  exact ⟨_, rfl⟩

section SinglePass

variable {state : σ} {result : Option E} {after : Progress} {vs : List (Visit E)}

theorem locateRoot_reports (h : Returns world state
      (rootPass engine.reach chain.rootGoal (Progress.start chain).unmarked) (result, after) vs)
    (timeoutSecs : Nat) (memory : Memory E) :
    ∃ outcome remembered, (engine.locateRoot chain timeoutSecs true).run world memory state
        = ⟨.ok outcome, remembered, state⟩
      ∧ Reports chain 0 (.ok (result, after)) (.ok outcome) := by
  obtain ⟨remembered, hrun⟩ := run_locateRoot engine world chain timeoutSecs true memory state
  obtain ⟨outcome, hpoll, hreports⟩ := pollFromNow_reports h
    (engine.patience timeoutSecs true) rfl 0
  rw [hpoll.run] at hrun
  exact ⟨outcome, remembered, hrun, hreports⟩

theorem locateBelow_reports {root : E} {goal : Goal E}
    (hgoal : goalBelow? engine.settings chain root = some goal)
    (h : Returns world state
      (descendantPass engine.reach root goal (Progress.start chain).unmarked) (result, after) vs)
    (cachedRoot : Option (String × E)) (timeoutSecs : Nat) (memory : Memory E) :
    ∃ outcome remembered,
      (engine.locateBelow cachedRoot root chain timeoutSecs true).run world memory state
        = ⟨.ok outcome, remembered, state⟩
      ∧ Reports chain goal.position (.ok (result, after)) (.ok outcome) := by
  obtain ⟨remembered, hrun⟩ :=
    run_locateBelow engine world hgoal cachedRoot timeoutSecs true memory state
  obtain ⟨outcome, hpoll, hreports⟩ := pollFromNow_reports h
    (engine.patience timeoutSecs true) rfl goal.position
  rw [hpoll.run] at hrun
  exact ⟨outcome, remembered, hrun, hreports⟩

end SinglePass

theorem relative_of_goalBelow {settings : Settings} {root : E} {goal : Goal E}
    (hgoal : goalBelow? settings chain root = some goal) (hrelative : chain.Relative) :
    ∀ level ∈ goal.level :: goal.rest, level.Relative := by
  obtain ⟨-, -, hlevels⟩ := Goal.ofLevels?_eq_some.1 hgoal
  rw [← hlevels]
  exact fun level hlevel => hrelative level (List.mem_of_mem_drop hlevel)

variable {answers : σ → Oracle E} (hanswers : ∀ state, world.Answers state (answers state))
include hanswers

theorem locateRoot_ends (engine : Engine E) (hrelative : chain.Relative) (timeoutSecs : Nat)
    (singlePass : Bool) (memory : Memory E) (state : σ) :
    ∃ more, Ends world
      (fun state => firstPass (rootPass engine.reach chain.rootGoal) chain (answers state)) chain 0
      (engine.patience timeoutSecs singlePass) (world.now state) (passLimit - 1) 0 state more
      ((engine.locateRoot chain timeoutSecs singlePass).run world memory state).result
      ((engine.locateRoot chain timeoutSecs singlePass).run world memory state).state := by
  obtain ⟨remembered, hrun⟩ :=
    run_locateRoot engine world chain timeoutSecs singlePass memory state
  obtain ⟨more, hends⟩ := pollFromNow_ends hanswers (PassOf.root chain) hrelative chain 0
    (engine.patience timeoutSecs singlePass) state
  rw [hrun]
  exact ⟨more, hends memory⟩

theorem locateBelow_ends (engine : Engine E) (hrelative : chain.Relative) {root : E}
    {goal : Goal E} (hgoal : goalBelow? engine.settings chain root = some goal)
    (cachedRoot : Option (String × E)) (timeoutSecs : Nat) (singlePass : Bool)
    (memory : Memory E) (state : σ) :
    ∃ more, Ends world
      (fun state => firstPass (descendantPass engine.reach root goal) chain (answers state)) chain
      goal.position (engine.patience timeoutSecs singlePass) (world.now state) (passLimit - 1) 0
      state more
      ((engine.locateBelow cachedRoot root chain timeoutSecs singlePass).run world memory
        state).result
      ((engine.locateBelow cachedRoot root chain timeoutSecs singlePass).run world memory
        state).state := by
  obtain ⟨remembered, hrun⟩ :=
    run_locateBelow engine world hgoal cachedRoot timeoutSecs singlePass memory state
  obtain ⟨more, hends⟩ := pollFromNow_ends hanswers (PassOf.descendant hgoal)
    (relative_of_goalBelow hgoal hrelative) chain goal.position
    (engine.patience timeoutSecs singlePass) state
  rw [hrun]
  exact ⟨more, hends memory⟩

end Engine

end Locator
