import Locator.Proofs.Reaching
import Mathlib.Algebra.Order.Floor.Div

/-!
# How long polling goes on

In a world whose clock only sleep moves, polling sleeps between its passes and at no other time. So
the clock tells how many passes were made. Polling that finds nothing makes one pass, and one more
for each interval that begins before the time is up (`Patience.mostPasses`); polling that finds an
element makes at most as many (`polling_in_time`). That is so in every world whose questions are
answered, however the tree changes meanwhile.

Each pass has to end, too. It does where no descent goes on for ever (`World.Grounded`), and need
not where one does: in a hall of mirrors, in which a room is listed below itself, no number of
questions is enough to search for a door (`endless_descent`).
-/

namespace Locator

variable {E σ : Type}

/-! ## Time -/

/-- A world goes by a virtual clock, which moves when the world sleeps and at no other time. -/
structure World.GoesByClock (world : World σ E) (clock : σ → Clock) : Prop where
  now : ∀ state, world.now state = (clock state).elapsed.toNat
  sleep : ∀ ms state, clock (world.sleep ms state) = (clock state).advance ms
  answer : ∀ query state, clock (world.answer query state).2 = clock state

theorem Snapshot.goesByClock (tree : Snapshot) : tree.world.GoesByClock id :=
  ⟨fun _ => rfl, fun _ _ => rfl, fun _ _ => rfl⟩

theorem Clock.elapsed_advance {clock : Clock} {ms : Nat}
    (h : clock.elapsed.toNat + ms < UInt64.size) :
    (clock.advance ms).elapsed.toNat = clock.elapsed.toNat + ms := by
  have hms : min ms longest = ms := by
    unfold longest
    omega
  rw [advance, hms, UInt64.toNat_add, UInt64.toNat_ofNat_of_lt' (by omega)]
  exact Nat.mod_eq_of_lt h

theorem World.GoesByClock.now_sleep {world : World σ E} {clock : σ → Clock}
    (h : world.GoesByClock clock) {state : σ} {ms : Nat}
    (hroom : world.now state + ms < UInt64.size) :
    world.now (world.sleep ms state) = world.now state + ms := by
  rw [h.now] at hroom ⊢
  rw [h.sleep, Clock.elapsed_advance hroom, h.now]

/-- The number of passes after which polling gives up: the first, and one for each interval that
begins before the time is up. -/
def Patience.mostPasses (patience : Patience) : Nat :=
  if patience.singlePass then 1
  else 1000 * patience.timeoutSecs ⌈/⌉ patience.pollIntervalMs + 1

namespace Patience

variable {patience : Patience} (hinterval : 1 ≤ patience.pollIntervalMs)
include hinterval

/-- Polling gives up after a pass when the time is up, which is after its last pass. -/
theorem isUp_iff {passes : Nat} (hmost : passes + 1 ≤ patience.mostPasses) :
    (patience.singlePass = true
        ∨ 1000 * patience.timeoutSecs ≤ passes * patience.pollIntervalMs)
      ↔ passes + 1 = patience.mostPasses := by
  unfold mostPasses at hmost ⊢
  by_cases hsingle : patience.singlePass = true
  · simp only [hsingle, if_true] at hmost ⊢
    exact ⟨fun _ => by omega, fun _ => .inl trivial⟩
  · simp only [hsingle, if_false, Bool.false_eq_true] at hmost ⊢
    have hceil : 1000 * patience.timeoutSecs ⌈/⌉ patience.pollIntervalMs ≤ passes
        ↔ 1000 * patience.timeoutSecs ≤ passes * patience.pollIntervalMs := by
      rw [Nat.mul_comm passes]
      exact ceilDiv_le_iff_le_mul hinterval
    rw [← hceil]
    simp only [false_or]
    omega

/-- All passes begin before one interval after the time is up. -/
theorem mostPasses_lt : (patience.mostPasses - 1) * patience.pollIntervalMs
    < 1000 * patience.timeoutSecs + patience.pollIntervalMs := by
  unfold mostPasses
  split
  · rw [Nat.sub_self, Nat.zero_mul]
    omega
  · rw [Nat.add_sub_cancel, Nat.ceilDiv_eq_add_pred_div]
    have := Nat.div_mul_le_self
      (1000 * patience.timeoutSecs + patience.pollIntervalMs - 1) patience.pollIntervalMs
    omega

/-- Unless there is only one, the passes go on until the time is up. -/
theorem le_mostPasses (hsingle : patience.singlePass = false) :
    1000 * patience.timeoutSecs ≤ (patience.mostPasses - 1) * patience.pollIntervalMs := by
  have hpos : 1 ≤ patience.mostPasses := by
    unfold mostPasses
    split <;> omega
  have hlast : patience.mostPasses - 1 + 1 = patience.mostPasses := Nat.sub_add_cancel hpos
  have := (isUp_iff hinterval (Nat.le_of_eq hlast)).2 hlast
  rw [hsingle] at this
  simpa using this

end Patience

/-! ## Passes -/

namespace Search

variable {world : World σ E} {clock : σ → Clock} {engine : Engine E} {goal : Goal E}
  {chain : Chain} {start : Nat} {patience : Patience} {pass : Progress → Search E (Finding E)}

/-- Passes made in turn, with a sleep before each but the first: how many, what the last of them
came to and the state that it left. All before the last find nothing. -/
inductive Passes (world : World σ E) (ms : Nat) (pass : Progress → Search E (Finding E)) :
    Nat → Progress → σ → Finding E → σ → Prop
  | last {p : Progress} {state later : σ} {finding : Finding E}
      (h : ∀ memory, (pass p.unmarked).run world memory state = ⟨.ok finding, memory, later⟩) :
      Passes world ms pass 1 p state finding later
  | again {n : Nat} {p after : Progress} {state between later : σ} {finding : Finding E}
      (h : ∀ memory, (pass p.unmarked).run world memory state
        = ⟨.ok (none, after), memory, between⟩)
      (hrest : Passes world ms pass n after (world.sleep ms between) finding later) :
      Passes world ms pass (n + 1) p state finding later

/-- What polling reports after some passes, of which the last came to `finding`. -/
def report (chain : Chain) (start : Nat) (patience : Patience) (passes : Nat) :
    Finding E → Outcome E
  | (some e, after) => .found ⟨e, chain.matchesFrom start after.marks, passes⟩
  | (none, _) => .notFound
      ⟨chain.path, patience.timeoutSecs, (passes - 1) * patience.pollIntervalMs, passes⟩

theorem Alike.run_asks {α β : Type} {R : α → β → Prop} {p : Search E α} {q : Search E β}
    (h : Alike R p q) (hclock : world.GoesByClock clock) : ∀ state, ∃ answer later,
      (∀ memory, p.run world memory state = ⟨answer, memory, later⟩)
      ∧ clock later = clock state := by
  induction h with
  | done _ => exact fun state => ⟨_, state, fun _ => rfl, rfl⟩
  | @ask query go go' _ ih =>
    intro state
    have hasked := hclock.answer query state
    rcases hanswer : world.answer query state with ⟨error | answer, between⟩ <;>
      rw [hanswer] at hasked
    · exact ⟨.error error, between, fun memory => by simp only [Search.run, hanswer], hasked⟩
    · obtain ⟨result, later, hrun, hlater⟩ := ih answer between
      refine ⟨result, later, fun memory => ?_, hlater.trans hasked⟩
      simp only [Search.run, hanswer, hrun]
  | visit _ ih => exact ih

section Missing

variable {p after : Progress} {state between : σ}
  (h : ∀ memory, (pass p.unmarked).run world memory state = ⟨.ok (none, after), memory, between⟩)
  (started spare passes : Nat)
include h

/-- After a pass that finds nothing polling ends if the time is up. -/
theorem poll_ends_missing
    (hup : patience.singlePass = true
      ∨ 1000 * patience.timeoutSecs ≤ world.now between - started) (memory : Memory E) :
    (poll chain start patience pass started spare passes p).run world memory state
      = ⟨.ok (.notFound ⟨chain.path, patience.timeoutSecs, world.now between - started,
          passes + 1⟩), memory, between⟩ := by
  unfold poll
  rw [run_bind, h]
  change Search.run world (if _ then _ else _) memory between = _
  simp only [Bool.or_eq_true, decide_eq_true_eq, hup, if_true]
  rfl

/-- After a pass that finds nothing polling sleeps and goes on if there is time left. -/
theorem poll_goes_on
    (hup : ¬ (patience.singlePass = true
      ∨ 1000 * patience.timeoutSecs ≤ world.now between - started)) :
    let next := poll chain start patience pass started spare (passes + 1) after
    (∀ memory, (poll chain start patience pass started (spare + 1) passes p).run world memory state
        = next.run world memory (world.sleep patience.pollIntervalMs between))
      ∧ (poll chain start patience pass started (spare + 1) passes p).history world state
        = (pass p.unmarked).history world state ++ .slept patience.pollIntervalMs
          :: next.history world (world.sleep patience.pollIntervalMs between) := by
  refine ⟨fun memory => ?_, ?_⟩
  · conv_lhs => unfold poll
    rw [run_bind, h]
    change Search.run world (if _ then _ else _) memory between = _
    simp only [Bool.or_eq_true, decide_eq_true_eq, hup, if_false]
    rfl
  · conv_lhs => unfold poll
    rw [history_bind _ _ {}, h]
    change _ ++ Search.history world (if _ then _ else _) between = _
    simp only [Bool.or_eq_true, decide_eq_true_eq, hup, if_false]
    rfl

end Missing

/-- Polling that has slept once for each pass made before goes on for as long as it is to go on. -/
theorem poll_waits (hclock : world.GoesByClock clock) (hpass : PassOf engine goal pass)
    (hinterval : 1 ≤ patience.pollIntervalMs) {started : Nat}
    (hroom : started + 1000 * patience.timeoutSecs + patience.pollIntervalMs < UInt64.size) :
    ∀ (spare passes : Nat) (p : Progress) (state : σ),
      world.now state = started + passes * patience.pollIntervalMs →
      passes + 1 ≤ patience.mostPasses → patience.mostPasses ≤ passes + 1 + spare →
      Answered ((poll chain start patience pass started spare passes p).history world state) →
      ∃ n finding later, Passes world patience.pollIntervalMs pass n p state finding later
        ∧ 1 ≤ n ∧ passes + n ≤ patience.mostPasses
        ∧ (finding.1 = none → passes + n = patience.mostPasses)
        ∧ world.now later = started + (passes + n - 1) * patience.pollIntervalMs
        ∧ ∀ memory, (poll chain start patience pass started spare passes p).run world memory state
          = ⟨.ok (report chain start patience (passes + n) finding), memory, later⟩ := by
  intro spare
  induction spare using Nat.strong_induction_on with
  | _ spare ih =>
  intro passes p state hnow hmost hspare hanswered
  obtain ⟨answer, between, hrun, hbetween⟩ := (hpass.asks p).run_asks hclock state
  obtain ⟨⟨found, after⟩, rfl⟩ : ∃ finding, answer = .ok finding := by
    rw [poll, history_bind _ _ {}, answered_append] at hanswered
    obtain ⟨finding, hfinding⟩ := exists_ok_of_history (pass p.unmarked) {} state hanswered.1
    rw [hrun] at hfinding
    exact ⟨finding, hfinding⟩
  have hsame : world.now between = world.now state := by
    rw [hclock.now, hclock.now, hbetween]
  have helapsed : world.now between - started = passes * patience.pollIntervalMs := by omega
  have hup := Patience.isUp_iff hinterval hmost
  rw [← helapsed] at hup
  rcases found with _ | e
  · by_cases hstop : patience.singlePass = true
        ∨ 1000 * patience.timeoutSecs ≤ world.now between - started
    · have hlast : passes + 1 = patience.mostPasses := hup.1 hstop
      refine ⟨1, (none, after), between, .last hrun, le_rfl, hmost, fun _ => hlast, ?_,
        fun memory => ?_⟩
      · rw [Nat.add_sub_cancel]
        omega
      · rw [poll_ends_missing hrun started spare passes hstop, helapsed]
        simp only [report, Nat.add_sub_cancel]
    · have hmore : passes + 1 ≠ patience.mostPasses := fun h => hstop (hup.2 h)
      obtain ⟨spare, rfl⟩ : ∃ n, spare = n + 1 := Nat.exists_eq_succ_of_ne_zero (by omega)
      obtain ⟨hagain, hhistory⟩ := poll_goes_on hrun started spare passes hstop
      have hnext : world.now (world.sleep patience.pollIntervalMs between)
          = started + (passes + 1) * patience.pollIntervalMs := by
        rw [hclock.now_sleep (by omega), Nat.add_mul]
        omega
      rw [hhistory, answered_append] at hanswered
      have hlast := (List.forall_mem_cons.1 hanswered.2).2
      obtain ⟨n, finding, later, hpasses, hn, hle, hmissed, hlater, hrest⟩ := ih spare
        (Nat.lt_succ_self spare) (passes + 1) after _ hnext (by omega) (by omega) hlast
      rw [show passes + 1 + n = passes + (n + 1) by omega] at hle hmissed hlater hrest
      exact ⟨n + 1, finding, later, .again hrun hpasses, by omega, hle, hmissed, hlater,
        fun memory => (hagain memory).trans (hrest memory)⟩
  · refine ⟨1, (some e, after), between, .last hrun, le_rfl, hmost, fun hnone => ?_, ?_,
      fun memory => ?_⟩
    · cases hnone
    · rw [Nat.add_sub_cancel]
      omega
    · rw [poll, run_bind, hrun]
      rfl

/-- Polling that begins in a state: how many passes it makes, what the last of them comes to, and
the state that it leaves. -/
structure Waits (world : World σ E) (chain : Chain) (patience : Patience)
    (pass : Progress → Search E (Finding E)) (begun : σ) (passes : Nat) (finding : Finding E)
    (later : σ) : Prop where
  made : Passes world patience.pollIntervalMs pass passes (.start chain) begun finding later
  most : passes ≤ patience.mostPasses
  missed : finding.1 = none → passes = patience.mostPasses
  now : world.now later = world.now begun + (passes - 1) * patience.pollIntervalMs
  inTime : finding.1 = none → patience.singlePass = false →
    1000 * patience.timeoutSecs ≤ (passes - 1) * patience.pollIntervalMs
    ∧ (passes - 1) * patience.pollIntervalMs
      < 1000 * patience.timeoutSecs + patience.pollIntervalMs

theorem pollFromNow_waits (hclock : world.GoesByClock clock) (hpass : PassOf engine goal pass)
    (hinterval : 1 ≤ patience.pollIntervalMs) {begun : σ}
    (hroom : world.now begun + 1000 * patience.timeoutSecs + patience.pollIntervalMs
      < UInt64.size)
    (hanswered : Answered ((pollFromNow chain start patience pass).history world begun)) :
    ∃ passes finding later, Waits world chain patience pass begun passes finding later
      ∧ ∀ memory, (pollFromNow chain start patience pass).run world memory begun
        = ⟨.ok (report chain start patience passes finding), memory, later⟩ := by
  have hlt := Patience.mostPasses_lt hinterval
  have hle : patience.mostPasses - 1 ≤ (patience.mostPasses - 1) * patience.pollIntervalMs :=
    Nat.le_mul_of_pos_right _ hinterval
  have hpos : 1 ≤ patience.mostPasses := by
    unfold Patience.mostPasses
    split <;> omega
  have hlimit : passLimit = UInt64.size := rfl
  obtain ⟨n, finding, later, hmade, hn, hmost, hmissed, hnow, hrun⟩ := poll_waits hclock hpass
    hinterval hroom (passLimit - 1) 0 (.start chain) begun (by omega) (by omega) (by omega)
    hanswered
  simp only [Nat.zero_add] at hmost hmissed hnow hrun
  refine ⟨n, finding, later, ⟨hmade, hmost, hmissed, hnow, fun hnone hsingle => ?_⟩, hrun⟩
  rw [hmissed hnone]
  exact ⟨Patience.le_mostPasses hinterval hsingle, hlt⟩

end Search

/-! ## Requests -/

namespace Engine

open Search

variable {world : World σ E} {clock : σ → Clock} {engine : Engine E} {state : σ}
  {rootPath path : String} {chain rootChain : Chain} {timeoutSecs : Nat} {singlePass : Bool}

/-- How a request polls once it knows where to search: the levels, the patience, the pass, and the
state in which it begins. -/
inductive Polls (engine : Engine E) (world : World σ E) (state : σ) :
    Request → Chain → Nat → Patience → (Progress → Search E (Finding E)) → σ → Prop
  | root {path : String} {timeoutSecs : Nat} {singlePass : Bool} {chain : Chain}
      (hchain : readPath path = .ok chain) :
      Polls engine world state (.root path timeoutSecs singlePass) chain 0
        (engine.patience timeoutSecs singlePass) (rootPass engine.reach chain.rootGoal) state
  | descendant {rootPath path : String} {timeoutSecs : Nat} {singlePass : Bool} {chain : Chain}
      {root : E} {goal : Goal E} (hchain : readPath path = .ok chain)
      (hroot : engine.rootInUse world rootPath singlePass state = some root)
      (hgoal : goalBelow? engine.settings chain root = some goal) :
      Polls engine world state (.descendant rootPath path timeoutSecs singlePass) chain
        goal.position (engine.patience timeoutSecs singlePass)
        (descendantPass engine.reach root goal)
        (engine.stateWithRoot world rootPath singlePass state)

/-- A descendant request for which no root is found ends as the root request does. -/
theorem handle_of_root_missing (timeoutSecs : Nat) (hchain : readPath path = .ok chain)
    (hremembered : engine.memory.rootFor? rootPath = none) {missing : NotFound}
    (hmissing : (engine.handle world (engine.rootRequest rootPath singlePass) state).1
      = .ok (.notFound missing)) :
    engine.handle world (.descendant rootPath path timeoutSecs singlePass) state
      = engine.handle world (engine.rootRequest rootPath singlePass) state := by
  rcases hrootChain : readPath rootPath with error | rootChain
  · have hrefused : engine.program (engine.rootRequest rootPath singlePass) = .error error :=
      program_root_unreadable hrootChain
    rw [(handle_of_refused hrefused world state).1] at hmissing
    cases hmissing
  have hroot : engine.program (engine.rootRequest rootPath singlePass) = .ok _ :=
    program_root hrootChain
  have hprogram : engine.program (.descendant rootPath path timeoutSecs singlePass) = .ok _ :=
    program_not_remembered hchain hremembered hrootChain
  simp only [handle, hroot, hprogram] at hmissing ⊢
  rw [locateRootAndBelow, run_bind]
  rcases hrun : (engine.locateRoot rootChain engine.settings.rootRefreshTimeoutSecs
    singlePass).run world engine.memory state with ⟨answer, memory, later⟩
  rw [hrun] at hmissing
  obtain rfl : answer = .ok (.notFound missing) := hmissing
  rfl

theorem history_locateRoot (engine : Engine E) (world : World σ E) (chain : Chain)
    (timeoutSecs : Nat) (singlePass : Bool) (state : σ) :
    ∃ after, (engine.locateRoot chain timeoutSecs singlePass).history world state
      = (pollFromNow chain 0 (engine.patience timeoutSecs singlePass)
          (rootPass engine.reach chain.rootGoal)).history world state ++ after := by
  unfold locateRoot
  rw [history_bind _ _ {}]
  exact ⟨_, rfl⟩

theorem history_locateBelow (engine : Engine E) (world : World σ E) {root : E} {goal : Goal E}
    (hgoal : goalBelow? engine.settings chain root = some goal)
    (cachedRoot : Option (String × E)) (timeoutSecs : Nat) (singlePass : Bool) (state : σ) :
    ∃ after, (engine.locateBelow cachedRoot root chain timeoutSecs singlePass).history world state
      = (pollFromNow chain goal.position (engine.patience timeoutSecs singlePass)
          (descendantPass engine.reach root goal)).history world state ++ after := by
  unfold locateBelow
  simp only [hgoal]
  rw [history_bind _ _ {}]
  exact ⟨_, rfl⟩

namespace Polls

variable {request : Request} {start : Nat} {patience : Patience}
  {pass : Progress → Search E (Finding E)} {begun : σ}

theorem history (h : Polls engine world state request chain start patience pass begun) :
    ∃ before after, engine.history world request state
      = before ++ ((pollFromNow chain start patience pass).history world begun ++ after) := by
  cases h with
  | @root path timeoutSecs singlePass _ hchain =>
    obtain ⟨after, hhistory⟩ :=
      history_locateRoot engine world chain timeoutSecs singlePass state
    refine ⟨[], after, ?_⟩
    rw [history_of_program (program_root hchain), hhistory, List.nil_append]
  | @descendant rootPath path timeoutSecs singlePass _ root goal hchain hroot hgoal =>
    rcases hremembered : engine.memory.rootFor? rootPath with _ | remembered
    · rcases hrootChain : readPath rootPath with error | rootChain
      · rw [(rootInUse_of_unreadable hremembered hrootChain).1] at hroot
        cases hroot
      rw [(rootInUse_of_readable hremembered hrootChain).1] at hroot
      rw [history_of_program (program_not_remembered hchain hremembered hrootChain),
        stateWithRoot_of_readable hremembered hrootChain, locateRootAndBelow,
        history_bind _ _ engine.memory]
      rcases hrun : (engine.locateRoot rootChain engine.settings.rootRefreshTimeoutSecs
        singlePass).run world engine.memory state with
        ⟨error | located | missing, memory, later⟩ <;> rw [hrun] at hroot <;> cases hroot
      obtain ⟨after, hhistory⟩ := history_locateBelow engine world hgoal
        (some (rootChain.path, located.element)) timeoutSecs singlePass later
      exact ⟨_, after, congrArg (_ ++ ·) hhistory⟩
    · rw [(rootInUse_of_remembered hremembered).1] at hroot
      cases hroot
      obtain ⟨after, hhistory⟩ := history_locateBelow engine world hgoal
        engine.memory.cachedRoot timeoutSecs singlePass state
      refine ⟨[], after, ?_⟩
      rw [history_of_program (program_remembered hchain hremembered), hhistory, List.nil_append]
      simp only [stateWithRoot, hremembered]

theorem handle (h : Polls engine world state request chain start patience pass begun) :
    ∃ memory,
      (engine.handle world request state).1
        = ((pollFromNow chain start patience pass).run world memory begun).result
      ∧ (engine.handle world request state).2.2
        = ((pollFromNow chain start patience pass).run world memory begun).state := by
  cases h with
  | @root path timeoutSecs singlePass _ hchain =>
    obtain ⟨remembered, hrun⟩ :=
      run_locateRoot engine world chain timeoutSecs singlePass engine.memory state
    refine ⟨engine.memory, ?_, ?_⟩
    · rw [(handle_of_program (program_root hchain) world state).1, hrun]
    · rw [handle_state_of_program (program_root hchain), hrun]
  | @descendant rootPath path timeoutSecs singlePass _ root goal hchain hroot hgoal =>
    obtain ⟨cachedRoot, memory, later, hresult, -, rfl, hstate⟩ :=
      handle_descendant timeoutSecs hchain hroot
    obtain ⟨remembered, hrun⟩ :=
      run_locateBelow engine world hgoal cachedRoot timeoutSecs singlePass memory _
    rw [hrun] at hresult hstate
    exact ⟨memory, hresult, hstate⟩

end Polls

/-- Polling for a request takes as many passes and as much time as its patience allows, and what it
reports is what the last pass came to. -/
theorem Polls.waits {request : Request} {start : Nat} {patience : Patience}
    {pass : Progress → Search E (Finding E)} {begun : σ}
    (h : Polls engine world state request chain start patience pass begun)
    (hclock : world.GoesByClock clock) (hinterval : 1 ≤ engine.settings.pollIntervalMs)
    (hroom : world.now begun + 1000 * patience.timeoutSecs + patience.pollIntervalMs
      < UInt64.size)
    (hanswered : Answered (engine.history world request state)) :
    ∃ passes finding later, Waits world chain patience pass begun passes finding later
      ∧ (engine.handle world request state).1
        = .ok (report chain start patience passes finding)
      ∧ (engine.handle world request state).2.2 = later := by
  obtain ⟨before, after, hhistory⟩ := h.history
  obtain ⟨memory, hresult, hstate⟩ := h.handle
  have hpoll : Answered ((pollFromNow chain start patience pass).history world begun) := by
    rw [hhistory, answered_append, answered_append] at hanswered
    exact hanswered.2.1
  have hpass : (∃ goal, PassOf engine goal pass) ∧ 1 ≤ patience.pollIntervalMs := by
    cases h with
    | root hchain => exact ⟨⟨_, .root chain⟩, hinterval⟩
    | descendant hchain hroot hgoal => exact ⟨⟨_, .descendant hgoal⟩, hinterval⟩
  obtain ⟨⟨goal, hgoal⟩, hpatience⟩ := hpass
  obtain ⟨passes, finding, later, hwaits, hrun⟩ :=
    pollFromNow_waits hclock hgoal hpatience hroom hpoll
  rw [hrun] at hresult hstate
  exact ⟨passes, finding, later, hwaits, hresult, hstate⟩

/-- When the root is not remembered, polling for it comes first, with a patience of its own. -/
theorem root_waits (hclock : world.GoesByClock clock)
    (hinterval : 1 ≤ engine.settings.pollIntervalMs) (hchain : readPath path = .ok chain)
    (hremembered : engine.memory.rootFor? rootPath = none)
    (hrootChain : readPath rootPath = .ok rootChain)
    (hroom : world.now state + 1000 * engine.settings.rootRefreshTimeoutSecs
      + engine.settings.pollIntervalMs < UInt64.size)
    (hanswered : Answered
      (engine.history world (.descendant rootPath path timeoutSecs singlePass) state)) :
    let patience := engine.patience engine.settings.rootRefreshTimeoutSecs singlePass
    ∃ passes finding,
      Waits world rootChain patience (rootPass engine.reach rootChain.rootGoal) state passes
        finding (engine.stateWithRoot world rootPath singlePass state)
      ∧ engine.rootInUse world rootPath singlePass state = finding.1
      ∧ (finding.1 = none →
        (engine.handle world (.descendant rootPath path timeoutSecs singlePass) state).1
          = .ok (report rootChain 0 patience passes finding)
        ∧ (engine.handle world (.descendant rootPath path timeoutSecs singlePass) state).2.2
          = engine.stateWithRoot world rootPath singlePass state) := by
  have hroot : engine.program (engine.rootRequest rootPath singlePass) = .ok _ :=
    program_root hrootChain
  have hfirst : Answered (engine.history world (engine.rootRequest rootPath singlePass) state) := by
    rw [history_of_program (program_not_remembered hchain hremembered hrootChain),
      locateRootAndBelow, history_bind _ _ {}, answered_append] at hanswered
    rw [history_of_program hroot]
    exact hanswered.1
  obtain ⟨passes, finding, later, hwaits, hresult, hlater⟩ :=
    Polls.waits (.root hrootChain) hclock hinterval hroom hfirst
  have hstate : engine.stateWithRoot world rootPath singlePass state = later := by
    simp only [stateWithRoot, hremembered]
    exact hlater
  have hinuse : engine.rootInUse world rootPath singlePass state = finding.1 := by
    simp only [rootInUse, hremembered, rootRequest, hresult]
    rcases finding with ⟨_ | e, after⟩
    · rfl
    · rfl
  rw [hstate]
  refine ⟨passes, finding, hwaits, hinuse, fun hnone => ?_⟩
  obtain ⟨missing, hmissing⟩ : ∃ missing, report rootChain 0
      (engine.patience engine.settings.rootRefreshTimeoutSecs singlePass) passes finding
      = .notFound missing := by
    rcases finding with ⟨_ | e, after⟩
    · exact ⟨_, rfl⟩
    · cases hnone
  rw [handle_of_root_missing timeoutSecs hchain hremembered (hresult.trans (by rw [hmissing]))]
  exact ⟨hresult, hlater⟩

/-- Where no descent goes on for ever, some reach is enough for a request, and a reach that no rank
exceeds is. A request whose questions are answered polls for as long as its patience lasts, and so
does a descendant request, before, for a root that is not remembered. -/
theorem polling_in_time (hclock : world.GoesByClock clock) (hgrounded : world.Grounded)
    (engine : Engine E) (hinterval : 1 ≤ engine.settings.pollIntervalMs) (request : Request)
    (state : σ) :
    (∃ enough, ∀ reach, enough ≤ reach → { engine with reach }.ReachesAll world request state)
    ∧ (∀ rank, world.Ranked rank engine.reach → engine.ReachesAll world request state)
    ∧ (Answered (engine.history world request state) →
      (∀ chain start patience pass begun,
        Polls engine world state request chain start patience pass begun →
        world.now begun + 1000 * patience.timeoutSecs + patience.pollIntervalMs < UInt64.size →
        ∃ passes finding later, Waits world chain patience pass begun passes finding later
          ∧ (engine.handle world request state).1
            = .ok (report chain start patience passes finding)
          ∧ (engine.handle world request state).2.2 = later)
      ∧ ∀ rootPath path timeoutSecs singlePass chain rootChain,
        request = .descendant rootPath path timeoutSecs singlePass →
        readPath path = .ok chain → engine.memory.rootFor? rootPath = none →
        readPath rootPath = .ok rootChain →
        world.now state + 1000 * engine.settings.rootRefreshTimeoutSecs
          + engine.settings.pollIntervalMs < UInt64.size →
        let patience := engine.patience engine.settings.rootRefreshTimeoutSecs singlePass
        ∃ passes finding,
          Waits world rootChain patience (rootPass engine.reach rootChain.rootGoal) state passes
            finding (engine.stateWithRoot world rootPath singlePass state)
          ∧ engine.rootInUse world rootPath singlePass state = finding.1
          ∧ (finding.1 = none →
            (engine.handle world request state).1
              = .ok (report rootChain 0 patience passes finding)
            ∧ (engine.handle world request state).2.2
              = engine.stateWithRoot world rootPath singlePass state)) := by
  refine ⟨?_, fun rank hranked => reachesAll_of_ranked hranked request state,
    fun hanswered => ⟨fun chain start patience pass begun h hroom =>
      h.waits hclock hinterval hroom hanswered, ?_⟩⟩
  · obtain ⟨enough, -, hall⟩ := exists_reachesAll hgrounded.generations engine request state
    exact ⟨enough, hall⟩
  · rintro rootPath path timeoutSecs singlePass chain rootChain rfl hchain hremembered hrootChain
      hroom
    exact root_waits hclock hinterval hchain hremembered hrootChain hroom hanswered

/-- A window has no label: in a second there is time for five passes, 300 milliseconds apart. The
window itself is found at once. The reach of the engine is enough. -/
theorem polling_in_time_window :
    let engine := windowTree.engine { pollIntervalMs := 300 }
    let label : Chain := ⟨"Class=Label", Level.ofText "Class=Label", []⟩
    let window : Chain := ⟨"Class=Window", Level.ofText "Class=Window", []⟩
    let request : Request := .descendant "Class=Window" "Class=Label" 1 false
    engine.ReachesAll windowTree.world request {}
      ∧ (∃ finding, Waits windowTree.world label (engine.patience 1 false)
        (descendantPass engine.reach ⟨[0]⟩ ⟨some ⟨[0]⟩, 0, label.first, []⟩) {} 5 finding ⟨1200⟩)
      ∧ (∃ passes finding, Waits windowTree.world window (engine.patience 2 false)
          (rootPass engine.reach window.rootGoal) {} passes finding {}
        ∧ finding.1 = some ⟨[0]⟩)
      ∧ (engine.handle windowTree.world request {}).1
        = .ok (.notFound ⟨"Class=Label", 1, 1200, 5⟩) := by
  intro engine label window request
  have hlabel : readPath "Class=Label" = .ok label := by decide +kernel
  have hwindow : readPath "Class=Window" = .ok window := by decide +kernel
  have hroot : engine.rootInUse windowTree.world "Class=Window" false {} = some ⟨[0]⟩ := by
    decide +kernel
  have hgoal : goalBelow? engine.settings label ⟨[0]⟩
      = some ⟨some (⟨[0]⟩ : Place), 0, label.first, []⟩ := by decide +kernel
  have hbegun : engine.stateWithRoot windowTree.world "Class=Window" false {} = {} := by
    decide +kernel
  have hend : (engine.handle windowTree.world request {}).1
      = .ok (.notFound ⟨"Class=Label", 1, 1200, 5⟩) := by decide +kernel
  have htime : (engine.handle windowTree.world request {}).2.2 = ⟨1200⟩ := by decide +kernel
  have hmost : (engine.patience 1 false).mostPasses = 5 := by decide +kernel
  have hranked : windowTree.world.Ranked (fun spot => windowTree.rank spot.1) engine.reach :=
    Snapshot.ranked (Nat.le_refl _)
  obtain ⟨-, hreach, hwaits⟩ := polling_in_time windowTree.goesByClock hranked.grounded engine
    (by decide) request {}
  obtain ⟨hbelow, habove⟩ := hwaits (by decide +kernel)
  refine ⟨hreach _ hranked, ?_, ?_, hend⟩
  · obtain ⟨passes, ⟨_ | e, after⟩, later, hwaits, hresult, hlater⟩ :=
      hbelow _ _ _ _ _ (.descendant hlabel hroot hgoal) (by rw [hbegun]; decide +kernel)
    · obtain rfl : passes = 5 := (hwaits.missed rfl).trans hmost
      rw [hbegun, ← hlater, htime] at hwaits
      exact ⟨_, hwaits⟩
    · rw [hend] at hresult
      cases hresult
  · obtain ⟨passes, finding, hwaits, hfound, -⟩ := habove _ _ _ _ _ _ rfl hlabel rfl hwindow
      (by decide +kernel)
    rw [hbegun] at hwaits
    exact ⟨passes, finding, hwaits, hfound.symm.trans hroot⟩

end Engine

/-! ## A hall of mirrors -/

/-- A world of one room. What is listed below the room is the room itself. -/
def World.mirrors : World Clock Unit where
  answer query clock :=
    (.ok (match query with
      | .roots | .children _ => [()]
      | .superclasses _ => []
      | .className _ | .resolvedType _ => "Room"
      | .ident _ | .name _ => none
      | .text _ | .caption _ | .property .. => ""), clock)
  now clock := clock.elapsed.toNat
  sleep ms clock := clock.advance ms

open World (mirrors)

namespace Search

/-- A door below the room. -/
def door : Goal Unit :=
  ⟨some (), 1, Level.ofText "Class=Door", []⟩

def roomFacts : Facts :=
  ⟨"Room", ["Room"], "Room", none, none⟩

/-- The room is judged by its class. -/
theorem run_judge_room {goal : Goal Unit} {value : String} {satisfied : Bool}
    (h : goal.level.qualifiers = [⟨.className, value, false⟩])
    (hvalue : ("Room" == value) = satisfied) (p : Progress) (clock : Clock) :
    (judge goal () p).run mirrors {} clock
      = ⟨.ok (satisfied, if satisfied then (p.visit roomFacts).record goal.position
          else p.visit roomFacts), {}, clock⟩ := by
  unfold judge
  simp only [h]
  change Search.run mirrors ((if ("Room" == value) = true then _ else _) >>= _) {} clock = _
  rw [hvalue]
  cases satisfied with
  | true => rfl
  | false => rfl

/-- With every generation there is more to ask. -/
theorem le_length_history_door (reach : Nat) (p : Progress) (clock : Clock) :
    reach ≤ ((searchBelow reach () door p).history mirrors clock).length := by
  induction reach generalizing p with
  | zero => exact Nat.zero_le _
  | succ reach ih =>
    have hdeep : door.shallow = false := by decide +kernel
    have hlevel : door.level.qualifiers = [⟨.className, "Door", false⟩] := by decide +kernel
    have hmissed : ("Room" == "Door") = false := by decide
    have hlisted : (question (.children ())).run mirrors {} clock = ⟨.ok [()], {}, clock⟩ := rfl
    have hasked : ((question (.children ())).history mirrors clock).length = 1 := rfl
    have hagain := ih (p.visit roomFacts)
    unfold searchBelow
    rw [length_history_bind hlisted, hasked]
    unfold scan
    rw [length_history_bind (run_judge_room hlevel hmissed p clock)]
    simp only [Bool.false_eq_true, if_false, hdeep]
    rw [history_bind _ _ {}, List.length_append]
    omega

theorem le_length_history_rootPass {goal : Goal Unit} (hnext : goal.next? () = some door)
    (hlevel : goal.level.qualifiers = [⟨.className, "Room", false⟩]) (reach : Nat) (p : Progress)
    (clock : Clock) : reach ≤ ((rootPass reach goal p).history mirrors clock).length := by
  have hmatched : ("Room" == "Room") = true := by decide
  have hlisted : (question .roots).run mirrors {} clock = ⟨.ok [()], {}, clock⟩ := rfl
  unfold rootPass
  rw [length_history_bind hlisted, scan,
    length_history_bind (run_judge_room hlevel hmatched _ clock)]
  simp only [if_true, commit, hnext]
  have := le_length_history_door reach
    ((p.newScope.visit roomFacts).record goal.position).newScope clock
  omega

/-- Polling begins with a pass. -/
theorem length_history_le_pollFromNow (world : World σ E) (chain : Chain) (start : Nat)
    (patience : Patience) (pass : Progress → Search E (Finding E)) (state : σ) :
    ((pass (Progress.start chain).unmarked).history world state).length
      ≤ ((pollFromNow chain start patience pass).history world state).length := by
  have hnow : (now : Search E Nat).run world {} state = ⟨.ok (world.now state), {}, state⟩ := rfl
  rw [pollFromNow, length_history_bind hnow, poll, history_bind _ _ {}, List.length_append]
  omega

end Search

namespace Engine

open Search

/-- Every question is answered in a hall of mirrors, and yet no reach is enough to search for a
door: whatever the reach, the search would ask for more. Nor does polling begin for a path that
cannot be read. -/
theorem endless_descent :
    let engine : Engine Unit := { settings := {}, reach := 0 }
    let request : Request := .root "Class=Room;\\;Class=Door" 0 true
    mirrors.GoesByClock id
      ∧ 1 ≤ engine.settings.pollIntervalMs
      ∧ (∀ query clock, ∃ answer, mirrors.answer query clock = (.ok answer, clock))
      ∧ (∀ reach, reach ≤ ({ engine with reach }.history mirrors request {}).length)
      ∧ (∀ reach, ¬ { engine with reach }.ReachesAll mirrors request {})
      ∧ (engine.handle mirrors (.root "Class=Door;\\;" 0 true) {}).1
        = .error (.malformedPath "Class=Door;\\;" "level 2 is empty") := by
  intro engine request
  have hlonger : ∀ reach, reach ≤ ({ engine with reach }.history mirrors request {}).length := by
    intro reach
    let chain : Chain :=
      ⟨"Class=Room;\\;Class=Door", Level.ofText "Class=Room", [Level.ofText "Class=Door"]⟩
    have hchain : readPath "Class=Room;\\;Class=Door" = .ok chain := by decide +kernel
    have hlevel : chain.first.qualifiers = [⟨.className, "Room", false⟩] := by decide +kernel
    obtain ⟨after, hhistory⟩ :=
      history_locateRoot { engine with reach } mirrors chain 0 true ({} : Clock)
    rw [history_of_program (program_root hchain), hhistory, List.length_append]
    calc reach
      _ ≤ _ := le_length_history_rootPass rfl hlevel reach (Progress.start chain).unmarked {}
      _ ≤ _ := length_history_le_pollFromNow mirrors chain 0 _ _ {}
      _ ≤ _ := Nat.le_add_right _ _
  refine ⟨⟨fun _ => rfl, fun _ _ => rfl, fun _ _ => rfl⟩, by decide, fun query clock => ⟨_, rfl⟩,
    hlonger, fun reach hall => ?_, by decide +kernel⟩
  -- with a reach as large as the number of its events, an engine has more of them
  obtain ⟨most, hmost⟩ : ∃ most, most = ({ engine with reach }.history mirrors request {}).length :=
    ⟨_, rfl⟩
  have hmore := hlonger (max reach (most + 1))
  rw [(hall (max reach (most + 1)) (Nat.le_max_left _ _)).2, ← hmost] at hmore
  omega

end Engine

end Locator
