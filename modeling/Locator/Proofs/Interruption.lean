import Locator.Proofs.Chains
import Locator.Proofs.Commitment
import Locator.Proofs.Histories

/-!
# A question that fails

A request ends at once when one of its questions is not answered. Up to that question it does what
it does when the question is answered, and after it nothing: it asks no more, does not sleep, and
leaves the memory as it was just before (`interrupted_request`). As a search remembers what it
located only when it is over, that is the memory from before the request, but for a root that a
descendant request has already located on its own.
-/

namespace Locator

variable {E α β σ : Type}

/-! ## A world in which one question fails -/

/-- The world in which the question number `k` fails. Its state counts the questions. -/
def World.failingAt (world : World σ E) (k : Nat) (error : Error) : World (Nat × σ) E where
  answer query := fun (asked, state) =>
    if asked + 1 = k then (.error error, (asked + 1, state))
    else
      let (answer, state) := world.answer query state
      (answer, (asked + 1, state))
  now := fun (_, state) => world.now state
  sleep ms := fun (asked, state) => (asked, world.sleep ms state)

/-- What comes of a program of which the question number `k` fails, after some others: it ends with
the error there, and up to there it does what it would have done. -/
structure Interrupted (world : World σ E) (k : Nat) (error : Error) (asked : Nat) (state : σ)
    (program : Search E α) (before : List (Event E)) (query : Query E) (after : List (Event E)) :
    Prop where
  undisturbed : program.history world state = before ++ .asked query :: after
  number : asked + (questions before).length + 1 = k
  history : program.history (world.failingAt k error) (asked, state)
    = before ++ [.asked query, .failed error]
  run : ∀ memory, ∃ later, program.run (world.failingAt k error) memory (asked, state)
    = ⟨.error error, memory.after before, (k, later)⟩

theorem Search.interrupted (world : World σ E) {k : Nat} (error : Error)
    (program : Search E α) : ∀ (asked : Nat) (state : σ), asked < k →
      k ≤ asked + (questions (program.history world state)).length →
      ∃ before query after, Interrupted world k error asked state program before query after := by
  induction program with
  | done answer =>
    intro asked state hasked hlong
    exact absurd hlong (Nat.not_le.2 hasked)
  | ask query go ih =>
    intro asked state hasked hlong
    rcases Nat.eq_or_lt_of_le (Nat.succ_le_of_lt hasked) with rfl | hk
    · -- this is the question that fails
      have hfails : (world.failingAt (asked + 1) error).answer query (asked, state)
          = (.error error, (asked + 1, state)) := if_pos rfl
      obtain ⟨after, hundisturbed⟩ : ∃ after,
          (ask query go).history world state = .asked query :: after := history_ask query go state
      refine ⟨[], query, after, hundisturbed, rfl, ?_, fun memory => ⟨state, ?_⟩⟩
      · simp only [history, hfails, List.nil_append]
      · simp only [Search.run, hfails]
        rfl
    · have hasks : (world.failingAt k error).answer query (asked, state)
          = ((world.answer query state).1, (asked + 1, (world.answer query state).2)) :=
        if_neg hk.ne
      rcases h : world.answer query state with ⟨refusal | answer, state'⟩
      · -- an undisturbed program asks nothing after a question that is refused
        simp only [history, h, questions_asked, questions_failed, questions_nil,
          List.length_singleton] at hlong
        exact absurd hlong (Nat.not_le.2 hk)
      · simp only [history, h, questions_asked, List.length_cons] at hlong
        rw [h] at hasks
        obtain ⟨before, other, after, hrest⟩ := ih answer (asked + 1) state' hk (by omega)
        refine ⟨.asked query :: before, other, after, ?_, ?_, ?_, fun memory => ?_⟩
        · simp only [history, h, hrest.undisturbed, List.cons_append]
        · have := hrest.number
          rw [questions_asked, List.length_cons]
          omega
        · simp only [history, hasks, hrest.history, List.cons_append]
        · obtain ⟨later, hrun⟩ := hrest.run memory
          exact ⟨later, by simp only [Search.run, hasks, hrun]; rfl⟩
  | clock go ih =>
    intro asked state hasked hlong
    obtain ⟨before, query, after, h⟩ := ih (world.now state) asked state hasked hlong
    exact ⟨before, query, after, h.undisturbed, h.number, h.history, h.run⟩
  | sleep ms program ih =>
    intro asked state hasked hlong
    obtain ⟨before, query, after, h⟩ := ih asked (world.sleep ms state) hasked hlong
    exact ⟨.slept ms :: before, query, after, congrArg (_ :: ·) h.undisturbed, h.number,
      congrArg (_ :: ·) h.history, h.run⟩
  | remember remembered program ih =>
    intro asked state hasked hlong
    obtain ⟨before, query, after, h⟩ := ih asked state hasked hlong
    exact ⟨.remembered remembered :: before, query, after, congrArg (_ :: ·) h.undisturbed,
      h.number, congrArg (_ :: ·) h.history, fun _ => h.run remembered⟩
  | visit v program ih =>
    intro asked state hasked hlong
    obtain ⟨before, query, after, h⟩ := ih asked state hasked hlong
    exact ⟨before, query, after, h.undisturbed, h.number, h.history, h.run⟩

/-! ## What is remembered while a request asks -/

/-- Nothing is asked after something is remembered. -/
def RemembersLast (events : List (Event E)) : Prop :=
  ∀ before query after, events = before ++ .asked query :: after →
    ∀ event ∈ before, event.memory? = none

theorem RemembersLast.of_append {quiet tail : List (Event E)}
    (hquiet : ∀ event ∈ quiet, event.memory? = none) (htail : questions tail = []) :
    RemembersLast (quiet ++ tail) := by
  intro before query after h event hevent
  rcases List.append_eq_append_iff.1 h with ⟨rest, -, hrest⟩ | ⟨rest, rfl, -⟩
  · rw [hrest, questions_append, questions_asked] at htail
    simp at htail
  · exact hquiet event (List.mem_append_left rest hevent)

namespace Search

variable {world : World σ E} {chain : Chain} {start : Nat} {patience : Patience}
  {pass : Progress → Search E (Finding E)} {started : Nat}

/-- Polling remembers nothing: what it finds is remembered when it is over. -/
theorem poll_quiet {engine : Engine E} {goal : Goal E} (hpass : PassOf engine goal pass)
    (spare passes : Nat) (p : Progress) (state : σ) :
    ∀ event ∈ (poll chain start patience pass started spare passes p).history world state,
      event.memory? = none := by
  induction spare using Nat.strong_induction_on generalizing passes p state with
  | _ spare ih =>
  intro event hevent
  rw [poll, history_bind _ _ {}] at hevent
  rcases List.mem_append.1 hevent with hevent | hevent
  · exact (hpass.asks p).history_quiet state event hevent
  rcases hrun : (pass p.unmarked).run world {} state with
    ⟨error | ⟨_ | e, after⟩, memory, state'⟩ <;> rw [hrun] at hevent
  · exact absurd hevent List.not_mem_nil
  · change event ∈ Search.history world (if _ then _ else _) state' at hevent
    split at hevent
    · exact absurd hevent List.not_mem_nil
    · rcases spare with _ | spare
      · exact absurd hevent List.not_mem_nil
      · rcases List.mem_cons.1 hevent with rfl | hevent
        · rfl
        · exact ih spare (Nat.lt_succ_self spare) _ _ _ event hevent
  · exact absurd hevent List.not_mem_nil

end Search

namespace Engine

variable {world : World σ E} {engine : Engine E} {chain : Chain} {state : σ}

theorem andRemember_remembersLast {start : Nat} {patience : Patience}
    {pass : Progress → Search E (Finding E)} {goal : Goal E}
    (hpass : Search.PassOf engine goal pass) {next : Outcome E → Search E (Outcome E)}
    (hnext : ∀ outcome state, questions ((next outcome).history world state) = []) :
    RemembersLast
      ((Search.pollFromNow chain start patience pass >>= next).history world state) := by
  rw [Search.history_bind _ _ {}]
  refine .of_append (Search.poll_quiet hpass _ _ _ _) ?_
  split
  · exact hnext _ _
  · rfl

theorem locateRoot_remembersLast (timeoutSecs : Nat) (singlePass : Bool) :
    RemembersLast ((engine.locateRoot chain timeoutSecs singlePass).history world state) := by
  unfold locateRoot
  refine andRemember_remembersLast (.root chain) ?_
  rintro (located | missing) state
  · rfl
  · rfl

theorem locateBelow_remembersLast (cachedRoot : Option (String × E)) (root : E)
    (timeoutSecs : Nat) (singlePass : Bool) :
    RemembersLast
      ((engine.locateBelow cachedRoot root chain timeoutSecs singlePass).history world state) := by
  unfold locateBelow
  rcases hgoal : goalBelow? engine.settings chain root with _ | goal
  · -- the root itself is the answer, and nothing is asked
    have hnothing : RemembersLast ([] ++ [Event.remembered ⟨cachedRoot, []⟩]) :=
      .of_append nofun rfl
    exact hnothing
  · refine andRemember_remembersLast (.descendant hgoal) ?_
    rintro (located | missing) state
    · rfl
    · rfl

/-- A root that is located is remembered under its recognition string. -/
theorem memory_locateRoot {rootPath : String} (hchain : readPath rootPath = .ok chain)
    {timeoutSecs : Nat} {singlePass : Bool} {memory : Memory E} {located : Located E}
    (h : ((engine.locateRoot chain timeoutSecs singlePass).run world memory state).result
      = .ok (.found located)) :
    ((engine.locateRoot chain timeoutSecs singlePass).run world memory state).memory
      = ⟨some (rootPath, located.element), located.levels⟩ := by
  unfold locateRoot at h ⊢
  rw [Search.run_bind] at h ⊢
  rcases hrun : (Search.pollFromNow chain 0 (engine.patience timeoutSecs singlePass)
      (Search.rootPass engine.reach chain.rootGoal)).run world memory state with
    ⟨error | located' | missing, memory', state'⟩ <;> rw [hrun] at h
  · cases h
  · cases h
    rw [← (readPath_eq_ok.1 hchain).1]
    rfl
  · cases h

/-- By the end of some events a descendant request has located its root on its own, and remembers
it. -/
inductive RootLocated (engine : Engine E) (world : World σ E) (state : σ) :
    Request → List (Event E) → Memory E → Prop
  | intro {rootPath path : String} {timeoutSecs : Nat} {singlePass : Bool} {located : Located E}
      {events : List (Event E)} (hforgotten : engine.memory.rootFor? rootPath = none)
      (hfound : (engine.handle world (engine.rootRequest rootPath singlePass) state).1
        = .ok (.found located))
      (hover : engine.history world (engine.rootRequest rootPath singlePass) state <+: events) :
      RootLocated engine world state (.descendant rootPath path timeoutSecs singlePass) events
        ⟨some (rootPath, located.element), located.levels⟩

/-- The search for a root and then below it remembers the root when it asks for what is below. -/
theorem memory_with_root {rootPath path : String} {rootChain : Chain} {timeoutSecs : Nat}
    {singlePass : Bool} (hremembered : engine.memory.rootFor? rootPath = none)
    (hrootChain : readPath rootPath = .ok rootChain) {before : List (Event E)} {query : Query E}
    {after : List (Event E)}
    (h : (engine.locateRootAndBelow rootChain chain timeoutSecs singlePass).history world state
      = before ++ .asked query :: after) :
    engine.memory.after before = engine.memory
      ∨ RootLocated engine world state (.descendant rootPath path timeoutSecs singlePass) before
        (engine.memory.after before) := by
  have hroot : engine.program (engine.rootRequest rootPath singlePass) = .ok _ :=
    program_root hrootChain
  rw [locateRootAndBelow, Search.history_bind _ _ engine.memory] at h
  have hlast : RemembersLast ((engine.locateRoot rootChain
      engine.settings.rootRefreshTimeoutSecs singlePass).history world state) :=
    locateRoot_remembersLast _ _
  rcases append_eq_split h with ⟨rest, hbefore, -⟩ | ⟨rest, rfl, hrest⟩
  · exact .inl (Memory.after_of_quiet (hlast before query rest hbefore) engine.memory)
  rw [Memory.after_append, ← Search.run_memory _ engine.memory state]
  have hhandle := (handle_of_program hroot world state).1
  have hover : engine.history world (engine.rootRequest rootPath singlePass) state
      <+: (engine.locateRoot rootChain engine.settings.rootRefreshTimeoutSecs
        singlePass).history world state ++ rest := by
    rw [history_of_program hroot]
    exact List.prefix_append _ _
  have hnothing : rest ++ Event.asked query :: after ≠ [] :=
    List.append_ne_nil_of_right_ne_nil rest (List.cons_ne_nil _ _)
  rcases hrun : (engine.locateRoot rootChain engine.settings.rootRefreshTimeoutSecs
    singlePass).run world engine.memory state with ⟨error | located | missing, memory, later⟩ <;>
    rw [hrun] at hrest
  · exact absurd hrest.symm hnothing
  · -- the search below the root remembers nothing before it is over
    have hmemory := memory_locateRoot hrootChain (congrArg Ending.result hrun)
    rw [hrun] at hmemory hhandle
    rw [Memory.after_of_quiet (locateBelow_remembersLast _ _ _ _ _ _ _ hrest), hmemory]
    exact .inr (.intro hremembered hhandle hover)
  · exact absurd hrest.symm hnothing

/-- What is remembered when a request asks is what was remembered before the request, but for a
root that it has located on its own. -/
theorem memory_while_asking {request : Request} {before : List (Event E)} {query : Query E}
    {after : List (Event E)}
    (h : engine.history world request state = before ++ .asked query :: after) :
    engine.memory.after before = engine.memory
      ∨ RootLocated engine world state request before (engine.memory.after before) := by
  have hsettled {program : Search E (Outcome E)} (hprogram : engine.program request = .ok program)
      (hlast : RemembersLast (program.history world state)) :
      engine.memory.after before = engine.memory :=
    Memory.after_of_quiet (hlast before query after (history_of_program hprogram world state ▸ h))
      engine.memory
  rcases hprogram : engine.program request with error | program
  · simp only [history, hprogram] at h
    simp at h
  rcases request with ⟨path, timeoutSecs, singlePass⟩ | ⟨rootPath, path, timeoutSecs, singlePass⟩
  · obtain ⟨chain, hchain, hlocate⟩ := bind_eq_ok.1 hprogram
    cases hlocate
    exact .inl (hsettled hprogram (locateRoot_remembersLast timeoutSecs singlePass))
  obtain ⟨chain, hchain, hlocate⟩ := bind_eq_ok.1 hprogram
  rcases hremembered : engine.memory.rootFor? rootPath with _ | root
  · rw [hremembered] at hlocate
    obtain ⟨rootChain, hrootChain, hlocate⟩ := bind_eq_ok.1 hlocate
    cases hlocate
    rw [history_of_program hprogram] at h
    exact memory_with_root hremembered hrootChain h
  · rw [hremembered] at hlocate
    cases hlocate
    exact .inl (hsettled hprogram (locateBelow_remembersLast _ _ _ _))

/-- When a question of a request fails, the request ends with that error. It has done until then
what it does when the question is answered, and does nothing more. The memory is as it was when the
question was asked. -/
theorem interrupted_request (engine : Engine E) (world : World σ E) (request : Request)
    (state : σ) (error : Error) (k : Nat) (hfirst : 1 ≤ k)
    (hasked : k ≤ (questions (engine.history world request state)).length) :
    ∃ before query after,
      engine.history world request state = before ++ .asked query :: after
      ∧ (questions before).length + 1 = k
      ∧ engine.history (world.failingAt k error) request (0, state)
        = before ++ [.asked query, .failed error]
      ∧ (∃ later, engine.handle (world.failingAt k error) request (0, state)
        = (.error error, { engine with memory := engine.memory.after before }, (k, later)))
      ∧ (engine.memory.after before = engine.memory
        ∨ RootLocated engine world state request before (engine.memory.after before)) := by
  rcases hprogram : engine.program request with refusal | program
  · simp only [history, hprogram, questions_nil, List.length_nil] at hasked
    omega
  rw [history_of_program hprogram] at hasked
  obtain ⟨before, query, after, h⟩ :=
    program.interrupted world error 0 state hfirst (by omega)
  have hundisturbed : engine.history world request state = before ++ .asked query :: after := by
    rw [history_of_program hprogram, h.undisturbed]
  obtain ⟨later, hrun⟩ := h.run engine.memory
  refine ⟨before, query, after, hundisturbed, by have := h.number; omega, ?_, ⟨later, ?_⟩,
    memory_while_asking hundisturbed⟩
  · rw [history_of_program hprogram, h.history]
  · simp only [handle, hprogram, hrun]

/-- The eighth question, which is about the panel, fails: the window is remembered. -/
theorem interrupted_request_window :
    ∃ before query after later,
      (windowTree.engine {}).history windowTree.world
          (.descendant "Class=Window" "Class=Button" 0 true) {} = before ++ .asked query :: after
      ∧ (windowTree.engine {}).handle (windowTree.world.failingAt 8 Snapshot.unreachable)
          (.descendant "Class=Window" "Class=Button" 0 true) (0, {})
        = (.error Snapshot.unreachable,
          { windowTree.engine {} with memory := (windowTree.engine {}).memory.after before },
          (8, later))
      ∧ ((windowTree.engine {}).memory.after before).cachedRoot
        = some ("Class=Window", ⟨[0]⟩) := by
  have hasked : 8 ≤ (questions ((windowTree.engine {}).history windowTree.world
      (.descendant "Class=Window" "Class=Button" 0 true) {})).length := by decide +kernel
  have hcached : ((windowTree.engine {}).handle
      (windowTree.world.failingAt 8 Snapshot.unreachable)
      (.descendant "Class=Window" "Class=Button" 0 true) (0, {})).2.1.memory.cachedRoot
      = some ("Class=Window", ⟨[0]⟩) := by decide +kernel
  obtain ⟨before, query, after, hsplit, -, -, ⟨later, hhandle⟩, -⟩ :=
    interrupted_request (windowTree.engine {}) windowTree.world _ {} Snapshot.unreachable 8
      (by decide) hasked
  rw [hhandle] at hcached
  exact ⟨before, query, after, later, hsplit, hhandle, hcached⟩

end Engine

end Locator
