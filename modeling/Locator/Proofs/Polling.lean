import Locator.Engine
import Locator.Proofs.Scanning

/-!
# Polling a snapshot

Polling goes in rounds. Each is one pass of a scan, from blank marks and in a new scope (`Round`),
whatever the rounds before it left behind. All that is visited is visited in rounds, and the element
that is found is what the last round found, with the levels as that round marked them
(`poll_inRounds`).
-/

namespace Locator

def Round (tree : Snapshot) (chain : Chain) (goal : Goal Place) (result : Option Place)
    (after : Progress) (vs : List (Visit Place)) : Prop :=
  ∃ counters : Counters,
    Scan tree goal (tree.under goal.anchor) ⟨counters.newScope, .blank chain⟩ result after vs

theorem Marks.clear_eq_blank {marks : Marks} {chain : Chain}
    (h : marks.byLevel.length = chain.levels.length) : marks.clear = .blank chain := by
  simp only [clear, blank, List.map_const', h]

namespace Search

variable {tree : Snapshot}

/-- A pass over a snapshot goes by a scan in a new scope, or it is refused. -/
def IsPass (tree : Snapshot) (pass : Progress → Search Place (Finding Place)) (goal : Goal Place) :
    Prop :=
  ∀ clock progress,
    GoesBy tree clock (pass progress) goal (tree.under goal.anchor) progress.newScope
    ∨ Refused tree.world clock (pass progress)

theorem rootPass_isPass {reach : Nat} (hreach : tree.height ≤ reach) {goal : Goal Place}
    (hanchor : goal.anchor = none) : IsPass tree (rootPass reach goal) goal := by
  intro clock progress
  rw [hanchor]
  cases hlisted : tree.unlisted with
  | false => exact .inl (rootPass_goesBy hlisted hreach goal progress)
  | true =>
    exact .inr (Refused.bind _ (refuses (Snapshot.answer_roots_of_unlisted hlisted)))

theorem descendantPass_isPass {reach : Nat} (hreach : tree.height ≤ reach) {goal : Goal Place}
    {root : Place} (hanchor : goal.anchor = some root) :
    IsPass tree (descendantPass reach root goal) goal := by
  intro clock progress
  rw [hanchor]
  cases hlisted : tree.unlisted with
  | false =>
    rcases hroot : tree.node? root with _ | node
    · refine .inr ?_
      unfold descendantPass searchBelow
      exact Refused.bind _ (refuses (Snapshot.answer_children_of_stale hlisted hroot))
    · exact .inl (descendantPass_goesBy hlisted hreach hroot goal progress)
  | true =>
    refine .inr ?_
    unfold descendantPass searchBelow
    exact Refused.bind _ (refuses (Snapshot.answer_children_of_unlisted hlisted root))

/-- The passes that an engine makes in search of a goal: over the roots for a chain, or below a root
for what is to be searched for there. -/
inductive PassOf {E : Type} (engine : Engine E) :
    Goal E → (Progress → Search E (Finding E)) → Prop
  | root (chain : Chain) :
      PassOf engine chain.rootGoal (rootPass engine.reach chain.rootGoal)
  | descendant {chain : Chain} {root : E} {goal : Goal E}
      (hgoal : Engine.goalBelow? engine.settings chain root = some goal) :
      PassOf engine goal (descendantPass engine.reach root goal)

theorem PassOf.isPass {engine : Engine Place} (hreach : tree.height ≤ engine.reach)
    {goal : Goal Place} {pass : Progress → Search Place (Finding Place)}
    (h : PassOf engine goal pass) : IsPass tree pass goal := by
  cases h with
  | root chain => exact rootPass_isPass hreach rfl
  | descendant hgoal =>
    exact descendantPass_isPass hreach (Goal.ofLevels?_eq_some.1 hgoal).1

/-! ## Polling -/

section Poll

variable {E σ : Type} {world : World σ E} {state : σ} {chain : Chain} {start : Nat}
  {patience : Patience} {pass : Progress → Search E (Finding E)} {started spare passes : Nat}
  {progress after : Progress} {vs : List (Visit E)}

theorem poll_found {e : E}
    (h : Returns world state (pass progress.unmarked) (some e, after) vs) :
    Returns world state (poll chain start patience pass started spare passes progress)
      (.found ⟨e, chain.matchesFrom start after.marks, passes + 1⟩) vs := by
  rw [← List.append_nil vs]
  unfold poll
  exact h.bind (.pure _)

/-- Polling ends without an element when a pass was the only one to make, took too long or was the
last that can be counted. -/
theorem poll_missed
    (h : Returns world state (pass progress.unmarked) (none, after) vs)
    (hup : patience.singlePass = true ∨ 1000 * patience.timeoutSecs ≤ world.now state - started
      ∨ spare = 0) :
    Returns world state (poll chain start patience pass started spare passes progress)
      (.notFound
        ⟨chain.path, patience.timeoutSecs, world.now state - started, passes + 1⟩) vs := by
  rw [← List.append_nil vs]
  unfold poll
  refine h.bind (Returns.now.bind ?_)
  by_cases hstop : patience.singlePass = true
      ∨ 1000 * patience.timeoutSecs ≤ world.now state - started
  · simp only [Bool.or_eq_true, decide_eq_true_eq, hstop, if_true]
    exact .pure _
  · obtain rfl : spare = 0 := by tauto
    simp only [ite_self]
    exact .pure _

theorem poll_again
    (h : Returns world state (pass progress.unmarked) (none, after) vs)
    (hgo : ¬ (patience.singlePass = true
      ∨ 1000 * patience.timeoutSecs ≤ world.now state - started)) :
    (poll chain start patience pass started (spare + 1) passes progress).visits world state
        = vs ++ (poll chain start patience pass started spare (passes + 1) after).visits world
            (world.sleep patience.pollIntervalMs state)
      ∧ ∀ memory,
        (poll chain start patience pass started (spare + 1) passes progress).run world memory state
          = (poll chain start patience pass started spare (passes + 1) after).run world memory
              (world.sleep patience.pollIntervalMs state) := by
  constructor
  · conv_lhs => unfold poll
    rw [h.visits_bind]
    change vs ++ Search.visits world (if _ then _ else _) state = _
    simp only [Bool.or_eq_true, decide_eq_true_eq, hgo, if_false]
    rfl
  · intro memory
    conv_lhs => unfold poll
    rw [h.run_bind]
    change Search.run world (if _ then _ else _) memory state = _
    simp only [Bool.or_eq_true, decide_eq_true_eq, hgo, if_false]
    rfl

theorem pollFromNow_singlePass {result : Option E} (start : Nat) (patience : Patience)
    (hsingle : patience.singlePass = true)
    (h : Returns world state (pass (Progress.start chain).unmarked) (result, after) vs) :
    ∃ outcome, Returns world state (pollFromNow chain start patience pass) outcome vs
      ∧ outcome.located?.map (·.element) = result := by
  unfold pollFromNow
  cases result with
  | some e => exact ⟨_, Returns.now.bind (poll_found h), rfl⟩
  | none => exact ⟨_, Returns.now.bind (poll_missed h (.inl hsingle)), rfl⟩

/-- Polling with passes that all come to the same comes to that. -/
theorem poll_steady {result : Option E}
    (h : ∀ state progress, ∃ after vs, Returns world state (pass progress) (result, after) vs)
    (spare passes : Nat) (progress : Progress) (memory : Memory E) (state : σ) :
    ∃ outcome, ((poll chain start patience pass started spare passes progress).run world memory
        state).result = .ok outcome ∧ outcome.located?.map (·.element) = result := by
  induction spare using Nat.strong_induction_on generalizing passes progress state with
  | _ spare ih =>
  obtain ⟨after, vs, hpass⟩ := h state progress.unmarked
  cases result with
  | some e =>
    exact ⟨_, by rw [(poll_found hpass).run memory], rfl⟩
  | none =>
    by_cases hstop : patience.singlePass = true
        ∨ 1000 * patience.timeoutSecs ≤ world.now state - started
    · exact ⟨_, by rw [(poll_missed hpass (hstop.imp_right .inl)).run memory], rfl⟩
    rcases spare with _ | spare
    · exact ⟨_, by rw [(poll_missed hpass (.inr (.inr rfl))).run memory], rfl⟩
    · rw [(poll_again hpass hstop).2 memory]
      exact ih spare (Nat.lt_succ_self spare) (passes + 1) after _

end Poll

/-- A program that searches in rounds: what it visits it visits in its rounds, and what it finds
its last round found. -/
structure InRounds (tree : Snapshot) (clock : Clock) (chain : Chain) (start : Nat)
    (goal : Goal Place) (program : Search Place (Outcome Place)) :
    Prop where
  visits : ∀ v ∈ program.visits tree.world clock, ∃ result after vs,
    Round tree chain goal result after vs
      ∧ v ∈ vs ∧ vs <:+: program.visits tree.world clock
  found : ∀ memory located,
    (program.run tree.world memory clock).result = .ok (.found located) →
      ∃ earlier vs after, program.visits tree.world clock = earlier ++ vs
        ∧ Round tree chain goal (some located.element) after vs
        ∧ located.levels = chain.matchesFrom start after.marks

variable {chain : Chain} {start : Nat} {goal : Goal Place}

theorem InRounds.last {clock : Clock} {program : Search Place (Outcome Place)}
    {result : Option Place} {outcome : Outcome Place} {after : Progress} {vs : List (Visit Place)}
    (hround : Round tree chain goal result after vs)
    (hreturns : Returns tree.world clock program outcome vs)
    (hfound : ∀ located, outcome = .found located →
      result = some located.element ∧ located.levels = chain.matchesFrom start after.marks) :
    InRounds tree clock chain start goal program where
  visits v hv := by
    rw [hreturns.visits] at hv ⊢
    exact ⟨result, after, vs, hround, hv, List.infix_refl vs⟩
  found memory located h := by
    obtain ⟨rfl, hlevels⟩ := hfound located (hreturns.eq_of_run h).symm
    exact ⟨[], vs, after, hreturns.visits, hround, hlevels⟩

theorem InRounds.again {clock later : Clock} {program rest : Search Place (Outcome Place)}
    {after : Progress} {vs : List (Visit Place)}
    (hround : Round tree chain goal none after vs)
    (hvisits : program.visits tree.world clock = vs ++ rest.visits tree.world later)
    (hrun : ∀ memory, (program.run tree.world memory clock).result
      = (rest.run tree.world memory later).result)
    (h : InRounds tree later chain start goal rest) :
    InRounds tree clock chain start goal program where
  visits v hv := by
    rw [hvisits] at hv ⊢
    rcases List.mem_append.1 hv with hv | hv
    · exact ⟨none, after, vs, hround, hv, (List.prefix_append vs _).isInfix⟩
    · obtain ⟨result, after, ws, hround, hv, hws⟩ := h.visits v hv
      exact ⟨result, after, ws, hround, hv, hws.trans (List.suffix_append vs _).isInfix⟩
  found memory located hfound := by
    rw [hrun] at hfound
    obtain ⟨earlier, ws, after, hrest, hround, hlevels⟩ := h.found memory located hfound
    exact ⟨vs ++ earlier, ws, after, by rw [hvisits, hrest, List.append_assoc], hround, hlevels⟩

theorem InRounds.refused {clock : Clock} {program : Search Place (Outcome Place)}
    (h : Refused tree.world clock program) :
    InRounds tree clock chain start goal program where
  visits v hv := by
    obtain ⟨-, -, hvisits⟩ := h
    rw [hvisits] at hv
    exact absurd hv List.not_mem_nil
  found memory located hfound := absurd hfound h.not_ok

/-- Polling goes round after round, each from blank marks. -/
theorem poll_inRounds {pass : Progress → Search Place (Finding Place)} (patience : Patience)
    (hpass : IsPass tree pass goal) (started spare passes : Nat) (progress : Progress)
    (time : Clock) (hm : progress.marks.byLevel.length = chain.levels.length) :
    InRounds tree time chain start goal
      (poll chain start patience pass started spare passes progress) := by
  induction spare using Nat.strong_induction_on generalizing passes progress time with
  | _ spare ih =>
  rcases hpass time progress.unmarked with ⟨result, after, vs, hrun, hscan⟩ | hrefused
  · have hround : Round tree chain goal result after vs :=
      ⟨progress.counters, Marks.clear_eq_blank hm ▸ hscan⟩
    have hafter : after.marks.byLevel.length = chain.levels.length := by
      rw [hscan.length_marks]
      exact (List.length_map _).trans hm
    cases result with
    | some e =>
      refine .last hround (poll_found hrun) fun _ h => ?_
      cases h
      exact ⟨rfl, rfl⟩
    | none =>
      by_cases hstop : patience.singlePass = true
          ∨ 1000 * patience.timeoutSecs ≤ tree.world.now time - started
      · exact .last hround (poll_missed hrun (by tauto)) nofun
      rcases spare with _ | spare
      · exact .last hround (poll_missed hrun (by tauto)) nofun
      · obtain ⟨hvisits, hagain⟩ := poll_again hrun hstop
        exact .again hround hvisits (fun memory => by rw [hagain])
          (ih spare (Nat.lt_succ_self spare) (passes + 1) after _ hafter)
  · refine .refused ?_
    unfold poll
    exact hrefused.bind _

theorem pollFromNow_inRounds {pass : Progress → Search Place (Finding Place)}
    (patience : Patience) (hpass : IsPass tree pass goal) (time : Clock) :
    InRounds tree time chain start goal (pollFromNow chain start patience pass) := by
  have h : InRounds tree time chain start goal
      (poll chain start patience pass (tree.world.now time) (passLimit - 1) 0 (.start chain)) :=
    poll_inRounds patience hpass _ _ 0 (.start chain) time (List.length_map _)
  exact ⟨h.visits, h.found⟩

theorem InRounds.andRemember {time : Clock} {program : Search Place (Outcome Place)}
    (h : InRounds tree time chain start goal program)
    {next : Outcome Place → Search Place (Outcome Place)}
    (hnext : ∀ outcome memory time,
      ((next outcome).run tree.world memory time).result = .ok outcome
        ∧ (next outcome).visits tree.world time = []) :
    InRounds tree time chain start goal (program >>= next) := by
  have hvisits : (program >>= next).visits tree.world time = program.visits tree.world time := by
    rw [visits_bind program next {}]
    split
    · rw [(hnext _ {} _).2, List.append_nil]
    · exact List.append_nil _
  refine ⟨fun v => by rw [hvisits]; exact h.visits v, fun memory located hfound => ?_⟩
  rw [hvisits]
  refine h.found memory located ?_
  rw [run_bind] at hfound
  rcases hrun : program.run tree.world memory time with ⟨error | outcome, memory', time'⟩
  · simp only [hrun] at hfound
    cases hfound
  · simp only [hrun, (hnext _ _ _).1] at hfound
    exact hfound

end Search

end Locator
