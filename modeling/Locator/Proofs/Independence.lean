import Locator.Proofs.Repeating

/-!
# Passes over a tree that changes

A tree may change while a request polls it. Where it is unchanged within a pass, each pass is over
one of a succession of snapshots, and a request for relative levels makes its passes as if each was
the only one: as long as a single pass over the snapshot in hand finds nothing it goes on, until the
time is up, and it ends as the first single pass that does not (`passes_independent`). What earlier
passes counted and marked has no part in that.
-/

namespace Locator

/-! ## A succession of snapshots -/

/-- Which of a succession of snapshots is shown, and the time. -/
structure Showing where
  shown : Nat
  clock : Clock

/-- The world that shows one snapshot after the other, the next each time that a search sleeps. -/
def Snapshot.succession (trees : Nat → Snapshot) : World Showing Place where
  answer query s := ((trees s.shown).answer query, s)
  now s := s.clock.elapsed.toNat
  sleep ms s := ⟨s.shown + 1, s.clock.advance ms⟩

namespace Snapshot

variable (trees : Nat → Snapshot)

theorem succession_answers (s : Showing) : (succession trees).Answers s (trees s.shown).answer :=
  fun _ => rfl

theorem shown_sleeps (ms : Nat) : ∀ (n : Nat) (s : Showing),
    (((succession trees).sleep ms)^[n] s).shown = s.shown + n
  | 0, _ => rfl
  | n + 1, s => by
    rw [Function.iterate_succ_apply, shown_sleeps ms n]
    change s.shown + 1 + n = _
    omega

end Snapshot

/-! ## Single passes -/

namespace Engine

variable {E : Type}

def fresh (engine : Engine E) : Engine E :=
  { engine with memory := {} }

/-- The engine, if it remembers a root and nothing else. -/
def holding (engine : Engine E) (rootPath : String) (root : E) : Engine E :=
  { engine with memory := { cachedRoot := some (rootPath, root) } }

theorem rootFor?_holding (engine : Engine E) (rootPath : String) (root : E) :
    (engine.holding rootPath root).memory.rootFor? rootPath = some root := by
  simp only [holding, Memory.rootFor?, Option.bind_some, beq_self_eq_true, if_true]

end Engine

/-- What a single pass for a root comes to over a snapshot. -/
def Engine.rootAlone (engine : Engine Place) (path : String) (timeoutSecs : Nat) (tree : Snapshot)
    (time : Clock) : Except Error (Outcome Place) :=
  (engine.fresh.handle tree.world (.root path timeoutSecs true) time).1

/-- What a single pass for a descendant of a root in hand comes to over a snapshot. -/
def Engine.belowAlone (engine : Engine Place) (rootPath : String) (root : Place) (path : String)
    (timeoutSecs : Nat) (tree : Snapshot) (time : Clock) : Except Error (Outcome Place) :=
  ((engine.holding rootPath root).handle tree.world
    (.descendant rootPath path timeoutSecs true) time).1

/-- A search that ends as single passes do. Before the last snapshot that it was shown a single pass
finds nothing, and over the last a single pass ends in the same way, after one pass for each
snapshot. Nothing is found only when the time is up, or when no more passes can be counted. -/
structure EndsAsAlone (alone : Nat → Except Error (Outcome Place)) (timeoutSecs : Nat)
    (first : Showing) (answer : Except Error (Outcome Place)) (last : Showing) : Prop where
  le : first.shown ≤ last.shown
  missed : ∀ k, first.shown ≤ k → k < last.shown → ∃ missing, alone k = .ok (.notFound missing)
  same : SameEnd Outcome.SameInScope answer (alone last.shown)
  passes : ∀ outcome, answer = .ok outcome → ∃ single, alone last.shown = .ok single
    ∧ outcome.passes = single.passes + (last.shown - first.shown)
  stopped : ∀ missing, answer = .ok (.notFound missing) →
    1000 * timeoutSecs ≤ last.clock.elapsed.toNat - first.clock.elapsed.toNat
      ∨ missing.passes = passLimit

theorem EndsAsAlone.of_found {alone : Nat → Except Error (Outcome Place)} {timeoutSecs : Nat}
    {first : Showing} {located : Located Place}
    (h : alone first.shown = .ok (.found located)) :
    EndsAsAlone alone timeoutSecs first (.ok (.found located)) first where
  le := Nat.le_refl _
  missed k hk hlt := absurd hlt (Nat.not_lt.2 hk)
  same := by
    rw [h]
    exact .ok (.found rfl rfl)
  passes := by
    rintro _ ⟨⟩
    exact ⟨_, h, by rw [Nat.sub_self]; rfl⟩
  stopped := by rintro _ ⟨⟩

section Ends

open Search

variable {pass : Progress → Search Place (Finding Place)} {chain : Chain} {start : Nat}
  {patience : Patience}

/-- What a single pass reports is what a first pass comes to. -/
theorem Search.Ends.reports_single {σ : Type} {world : World σ Place}
    {come : σ → Except Error (Finding Place)} {started spare more : Nat} {state later : σ}
    {answer : Except Error (Outcome Place)}
    (h : Ends world come chain start patience started spare 0 state more answer later)
    (hsingle : patience.singlePass = true) :
    Reports chain start (come state) answer
      ∧ ∀ outcome, answer = .ok outcome → outcome.passes = 1 := by
  obtain rfl := h.single hsingle
  obtain rfl : later = state := h.later_eq
  exact ⟨h.reports, h.passes_eq⟩

theorem Search.Ends.asAlone {trees : Nat → Snapshot} {first last : Showing} {more : Nat}
    {answer : Except Error (Outcome Place)}
    (h : Ends (Snapshot.succession trees) (fun s => firstPass pass chain (trees s.shown).answer)
      chain start patience first.clock.elapsed.toNat (passLimit - 1) 0 first more answer last)
    (hpolls : patience.singlePass = false) {alone : Nat → Except Error (Outcome Place)}
    (halone : ∀ k, Reports chain start (firstPass pass chain (trees k).answer) (alone k)
      ∧ ∀ outcome, alone k = .ok outcome → outcome.passes = 1) :
    EndsAsAlone alone patience.timeoutSecs first answer last := by
  have hlast : last.shown = first.shown + more := by
    rw [h.later_eq, Snapshot.shown_sleeps]
  have hsame : SameEnd Outcome.SameInScope answer (alone last.shown) :=
    h.reports.same (halone last.shown).1
  refine ⟨by omega, fun k hk hlt => ?_, hsame, fun outcome houtcome => ?_,
    fun missing hmissing => ?_⟩
  · obtain ⟨after, hcome⟩ := h.missed (k - first.shown) (by omega)
    rw [Snapshot.shown_sleeps, Nat.add_sub_cancel' hk] at hcome
    exact (hcome ▸ (halone k).1).eq_of_missed
  · obtain ⟨single, hsingle, -⟩ := (houtcome ▸ hsame).exists_of_ok
    refine ⟨single, hsingle, ?_⟩
    rw [h.passes_eq outcome houtcome, (halone last.shown).2 single hsingle, hlast]
    omega
  · have hpasses : missing.passes = 0 + more + 1 := h.passes_eq _ hmissing
    rcases h.stopped missing hmissing with hsingle | helapsed | hmore
    · rw [hpolls] at hsingle
      cases hsingle
    · exact .inl helapsed
    · refine .inr ?_
      rw [hpasses, hmore, Nat.zero_add]
      exact Nat.sub_add_cancel (by decide)

end Ends

/-! ## Requests -/

section Requests

variable {engine : Engine Place} {path : String} {chain : Chain}
  (hchain : Engine.readPath path = .ok chain)
include hchain

theorem Engine.rootAlone_eq (timeoutSecs : Nat) (tree : Snapshot) (time : Clock) :
    engine.rootAlone path timeoutSecs tree time
      = ((Search.pollFromNow chain 0 (engine.patience timeoutSecs true)
          (Search.rootPass engine.reach chain.rootGoal)).run tree.world {} time).result := by
  have hprogram : engine.fresh.program (.root path timeoutSecs true) = .ok _ :=
    program_root hchain
  obtain ⟨remembered, hrun⟩ :=
    run_locateRoot engine.fresh tree.world chain timeoutSecs true engine.fresh.memory time
  rw [rootAlone, (handle_of_program hprogram tree.world time).1, hrun]
  rfl

theorem Engine.belowAlone_eq {root : Place} {goal : Goal Place}
    (hgoal : goalBelow? engine.settings chain root = some goal) (rootPath : String)
    (timeoutSecs : Nat) (tree : Snapshot) (time : Clock) :
    engine.belowAlone rootPath root path timeoutSecs tree time
      = ((Search.pollFromNow chain goal.position (engine.patience timeoutSecs true)
          (Search.descendantPass engine.reach root goal)).run tree.world
            (engine.holding rootPath root).memory time).result := by
  have hprogram : (engine.holding rootPath root).program
      (.descendant rootPath path timeoutSecs true) = .ok _ :=
    program_remembered hchain (engine.rootFor?_holding rootPath root)
  obtain ⟨remembered, hrun⟩ := run_locateBelow (engine.holding rootPath root) tree.world hgoal
    (engine.holding rootPath root).memory.cachedRoot timeoutSecs true
    (engine.holding rootPath root).memory time
  rw [belowAlone, (handle_of_program hprogram tree.world time).1, hrun]
  rfl

theorem Engine.belowAlone_nothing {root : Place}
    (hgoal : goalBelow? engine.settings chain root = none) (rootPath : String) (timeoutSecs : Nat)
    (tree : Snapshot) (time : Clock) :
    engine.belowAlone rootPath root path timeoutSecs tree time = .ok (.found ⟨root, [], 0⟩) := by
  have hprogram : (engine.holding rootPath root).program
      (.descendant rootPath path timeoutSecs true) = .ok _ :=
    program_remembered hchain (engine.rootFor?_holding rootPath root)
  obtain ⟨remembered, hrun⟩ := run_locateBelow_nothing (engine.holding rootPath root) tree.world
    hgoal _ timeoutSecs true _ time
  rw [belowAlone, (handle_of_program hprogram tree.world time).1, hrun]

end Requests

/-- A request for relative levels that polls a tree ends as the single passes over the snapshots
that it is shown, whatever its own passes before the last have counted and marked. A descendant
request does so from the snapshot that is shown when its root is in hand. -/
theorem passes_independent {engine : Engine Place} {path : String} {chain : Chain}
    (hchain : Engine.readPath path = .ok chain) (hrelative : chain.Relative)
    (trees : Nat → Snapshot) (timeoutSecs aloneSecs : Nat) (time : Clock) (first : Showing) :
    (let ending :=
      engine.handle (Snapshot.succession trees) (.root path timeoutSecs false) first
    EndsAsAlone (fun k => engine.rootAlone path aloneSecs (trees k) time) timeoutSecs first
      ending.1 ending.2.2)
    ∧ ∀ rootPath root,
      engine.rootInUse (Snapshot.succession trees) rootPath false first = some root →
      let ending := engine.handle (Snapshot.succession trees)
        (.descendant rootPath path timeoutSecs false) first
      EndsAsAlone (fun k => engine.belowAlone rootPath root path aloneSecs (trees k) time)
        timeoutSecs (engine.stateWithRoot (Snapshot.succession trees) rootPath false first)
        ending.1 ending.2.2 := by
  refine ⟨?_, fun rootPath root hroot => ?_⟩
  · have hprogram : engine.program (.root path timeoutSecs false) = .ok _ :=
      Engine.program_root hchain
    dsimp only
    rw [(Engine.handle_of_program hprogram _ _).1, Engine.handle_state_of_program hprogram]
    obtain ⟨more, hends⟩ := Engine.locateRoot_ends (Snapshot.succession_answers trees)
      engine hrelative timeoutSecs false engine.memory first
    refine hends.asAlone rfl fun k => ?_
    rw [Engine.rootAlone_eq hchain]
    obtain ⟨more, hends⟩ := Search.pollFromNow_ends (trees k).world_answers
      (Search.PassOf.root chain) hrelative chain 0 (engine.patience aloneSecs true) time
    exact (hends {}).reports_single rfl
  · obtain ⟨cachedRoot, memory, later, hanswer, -, hlater, hstate⟩ :=
      Engine.handle_descendant timeoutSecs hchain hroot
    dsimp only
    rw [hanswer, hstate, ← hlater]
    rcases hgoal : Engine.goalBelow? engine.settings chain root with _ | goal
    · obtain ⟨remembered, hrun⟩ := Engine.run_locateBelow_nothing engine
        (Snapshot.succession trees) hgoal cachedRoot timeoutSecs false memory later
      rw [hrun]
      exact .of_found (Engine.belowAlone_nothing hchain hgoal rootPath aloneSecs _ time)
    · obtain ⟨more, hends⟩ :=
        Engine.locateBelow_ends (Snapshot.succession_answers trees) engine hrelative
          hgoal cachedRoot timeoutSecs false memory later
      refine hends.asAlone rfl fun k => ?_
      rw [Engine.belowAlone_eq hchain hgoal]
      obtain ⟨more, hends⟩ := Search.pollFromNow_ends (trees k).world_answers
        (Search.PassOf.descendant hgoal) (Engine.relative_of_goalBelow hgoal hrelative)
        chain goal.position (engine.patience aloneSecs true) time
      exact (hends _).reports_single rfl

/-- A window that is empty at first, and filled when it is looked at again. -/
def fillingWindow : Nat → Snapshot
  | 0 => { roots := [{ className := "Window" }] }
  | _ + 1 => windowTree

/-- The button is found by the second pass, as by a single pass over the filled window. -/
theorem passes_independent_window :
    let world := Snapshot.succession fillingWindow
    let ending := (windowTree.engine {}).handle world
      (.descendant "Class=Window" "Class=Button;Index=1" 5 false) ⟨0, {}⟩
    EndsAsAlone
        (fun k => (windowTree.engine {}).belowAlone "Class=Window" ⟨[0]⟩ "Class=Button;Index=1" 0
          (fillingWindow k) {})
        5 ((windowTree.engine {}).stateWithRoot world "Class=Window" false ⟨0, {}⟩)
        ending.1 ending.2.2
      ∧ Engine.elementOf ending.1 = some ⟨[0, 0, 0]⟩ ∧ ending.2.2.shown = 1 := by
  have hroot : (windowTree.engine {}).rootInUse (Snapshot.succession fillingWindow) "Class=Window"
      false ⟨0, {}⟩ = some ⟨[0]⟩ := by decide +kernel
  have hchain : Engine.readPath "Class=Button;Index=1"
      = .ok ⟨"Class=Button;Index=1", Level.ofText "Class=Button;Index=1", []⟩ := by decide +kernel
  have hrelative : Chain.Relative
      ⟨"Class=Button;Index=1", Level.ofText "Class=Button;Index=1", []⟩ := by
    unfold Chain.Relative Level.Relative
    decide +kernel
  exact ⟨(passes_independent hchain hrelative fillingWindow 5 0 {} ⟨0, {}⟩).2 _ _ hroot,
    by decide +kernel, by decide +kernel⟩

end Locator
