import Locator.Proofs.Independence
import Locator.Proofs.Waiting

/-!
# What single passes answer

Where the tree and the way to ask it never change, a request that makes single passes is answered by
first passes alone. So its answer is a function of the answers to all questions (`Engine.once`): the
state of the world has no part in it, nor has what the engine remembers, if the root that it
remembers is the one that it would locate again (`Engine.Faithful`).
-/

namespace Locator

open Search

variable {E σ : Type}

def Request.singlePass : Request → Bool
  | .root _ _ singlePass | .descendant _ _ _ singlePass => singlePass

theorem Memory.rootFor?_eq_some {memory : Memory E} {path : String} {root : E} :
    memory.rootFor? path = some root ↔ memory.cachedRoot = some (path, root) := by
  rcases h : memory.cachedRoot with _ | ⟨cached, element⟩ <;> simp [rootFor?, h]

/-! ## One pass -/

theorem Search.pollFromNow_once {engine : Engine E} {goal : Goal E}
    {pass : Progress → Search E (Finding E)} (h : PassOf engine goal pass) {world : World σ E}
    {state : σ} {answers : Oracle E} (hanswers : world.Answers state answers) (chain : Chain)
    (start : Nat) {patience : Patience} (hsingle : patience.singlePass = true)
    (memory : Memory E) :
    (pollFromNow chain start patience pass).run world memory state
      = ⟨(firstPass pass chain answers).map (report chain start patience 1), memory, state⟩ := by
  have hrun := h.run_first hanswers chain
  change (poll chain start patience pass (world.now state) (passLimit - 1) 0
    (.start chain)).run world memory state = _
  rcases hfirst : firstPass pass chain answers with error | ⟨result, after⟩ <;> rw [hfirst] at hrun
  · unfold poll
    rw [run_bind, hrun]
    rfl
  have hreturns : Returns world state (pass (Progress.start chain).unmarked) (result, after) _ :=
    ⟨hrun, rfl⟩
  cases result with
  | some e => exact (poll_found hreturns).run memory
  | none =>
    rw [(poll_missed hreturns (.inl hsingle)).run memory, Nat.sub_self]
    simp only [Except.map, report, Nat.zero_add, Nat.sub_self, Nat.zero_mul]

/-- What is remembered after a root was looked for by a recognition string. -/
def Memory.afterRoot (memory : Memory E) (path : String) : Except Error (Outcome E) → Memory E
  | .ok (.found located) => ⟨some (path, located.element), located.levels⟩
  | .ok (.notFound _) | .error _ => memory

namespace Engine

variable {engine : Engine E} {world : World σ E} {answers : Oracle E} {chain : Chain}
  {timeoutSecs : Nat} {state : σ}

/-! ## One request -/

/-- What a single pass for a root answers. -/
def rootOnce (engine : Engine E) (answers : Oracle E) (chain : Chain) (timeoutSecs : Nat) :
    Except Error (Outcome E) :=
  (firstPass (rootPass engine.reach chain.rootGoal) chain answers).map
    (report chain 0 (engine.patience timeoutSecs true) 1)

/-- What a single pass below a root answers. -/
def belowOnce (engine : Engine E) (answers : Oracle E) (root : E) (chain : Chain)
    (timeoutSecs : Nat) : Except Error (Outcome E) :=
  match goalBelow? engine.settings chain root with
  | none => .ok (.found ⟨root, [], 0⟩)
  | some goal =>
    (firstPass (descendantPass engine.reach root goal) chain answers).map
      (report chain goal.position (engine.patience timeoutSecs true) 1)

/-- What a single pass below a root answers, once a single pass for the root has answered. -/
def afterRootOnce (engine : Engine E) (answers : Oracle E) (chain : Chain) (timeoutSecs : Nat) :
    Outcome E → Except Error (Outcome E)
  | .found located => engine.belowOnce answers located.element chain timeoutSecs
  | .notFound missing => .ok (.notFound missing)

/-- What an engine that remembers nothing answers to a request, if it makes single passes. -/
def once (engine : Engine E) (answers : Oracle E) : Request → Except Error (Outcome E)
  | .root path timeoutSecs _ => do
    let chain ← readPath path
    engine.rootOnce answers chain timeoutSecs
  | .descendant rootPath path timeoutSecs _ => do
    let chain ← readPath path
    let rootChain ← readPath rootPath
    let outcome ← engine.rootOnce answers rootChain engine.settings.rootRefreshTimeoutSecs
    engine.afterRootOnce answers chain timeoutSecs outcome

section Once

variable {path rootPath : String} {rootChain : Chain} {singlePass : Bool} {error : Error}

theorem once_root (hchain : readPath path = .ok chain) :
    engine.once answers (.root path timeoutSecs singlePass)
      = engine.rootOnce answers chain timeoutSecs := by
  simp only [once, hchain]
  rfl

theorem once_descendant (hchain : readPath path = .ok chain)
    (hrootChain : readPath rootPath = .ok rootChain) :
    engine.once answers (.descendant rootPath path timeoutSecs singlePass)
      = engine.rootOnce answers rootChain engine.settings.rootRefreshTimeoutSecs
        >>= engine.afterRootOnce answers chain timeoutSecs := by
  simp only [once, hchain, hrootChain]
  rfl

theorem once_root_unreadable (h : readPath path = .error error) :
    engine.once answers (.root path timeoutSecs singlePass) = .error error := by
  simp only [once, h]
  rfl

theorem once_descendant_unreadable (h : readPath path = .error error) :
    engine.once answers (.descendant rootPath path timeoutSecs singlePass) = .error error := by
  simp only [once, h]
  rfl

theorem once_root_of_descendant_unreadable (hchain : readPath path = .ok chain)
    (h : readPath rootPath = .error error) :
    engine.once answers (.descendant rootPath path timeoutSecs singlePass) = .error error := by
  simp only [once, hchain, h]
  rfl

end Once

theorem run_rootOnce (hanswers : world.Answers state answers) (memory : Memory E) :
    (engine.locateRoot chain timeoutSecs true).run world memory state
      = ⟨engine.rootOnce answers chain timeoutSecs,
          memory.afterRoot chain.path (engine.rootOnce answers chain timeoutSecs),
          state⟩ := by
  unfold locateRoot
  rw [run_bind, pollFromNow_once (.root chain) hanswers chain 0 rfl, ← rootOnce]
  rcases engine.rootOnce answers chain timeoutSecs with error | located | missing
  · rfl
  · rfl
  · rfl

/-- What is remembered of a root stays as it is. -/
theorem run_belowOnce (hanswers : world.Answers state answers) {root : E} (memory : Memory E) :
    ∃ levels, (engine.locateBelow memory.cachedRoot root chain timeoutSecs true).run world memory
        state
      = ⟨engine.belowOnce answers root chain timeoutSecs, { memory with lastLevels := levels },
          state⟩ := by
  unfold locateBelow belowOnce
  rcases hgoal : goalBelow? engine.settings chain root with _ | goal
  · exact ⟨[], rfl⟩
  dsimp only
  rw [run_bind, pollFromNow_once (.descendant hgoal) hanswers chain goal.position rfl]
  rcases (firstPass (descendantPass engine.reach root goal) chain answers).map
    (report chain goal.position (engine.patience timeoutSecs true) 1) with
    error | located | missing
  · exact ⟨memory.lastLevels, rfl⟩
  · exact ⟨located.levels, rfl⟩
  · exact ⟨memory.lastLevels, rfl⟩

/-! ## What is remembered -/

/-- A single pass finds a root by a recognition string. -/
def Locates (engine : Engine E) (answers : Oracle E) (path : String) (root : E) : Prop :=
  ∃ chain after, readPath path = .ok chain
    ∧ firstPass (rootPass engine.reach chain.rootGoal) chain answers = .ok (some root, after)

/-- The root that is remembered is the one that would be located again. -/
def Faithful (engine : Engine E) (answers : Oracle E) : Prop :=
  ∀ path root, engine.memory.cachedRoot = some (path, root) → engine.Locates answers path root

theorem Locates.rootOnce {path : String} {root : E} (h : engine.Locates answers path root)
    (timeoutSecs : Nat) : ∃ chain located, readPath path = .ok chain
      ∧ engine.rootOnce answers chain timeoutSecs = .ok (.found located)
      ∧ located.element = root := by
  obtain ⟨chain, after, hchain, hfirst⟩ := h
  refine ⟨chain, ⟨root, chain.matchesFrom 0 after.marks, 1⟩, hchain, ?_, rfl⟩
  rw [Engine.rootOnce, hfirst]
  rfl

theorem locates_of_rootOnce {path : String} (hchain : readPath path = .ok chain)
    {located : Located E}
    (h : engine.rootOnce answers chain timeoutSecs = .ok (.found located)) :
    engine.Locates answers path located.element := by
  rw [rootOnce] at h
  rcases hfirst : firstPass (rootPass engine.reach chain.rootGoal) chain answers with
    error | ⟨_ | root, after⟩ <;> rw [hfirst] at h
  · cases h
  · cases h
  · cases h
    exact ⟨chain, after, hchain, hfirst⟩

theorem faithful_fresh (engine : Engine E) (answers : Oracle E) :
    engine.fresh.Faithful answers := fun _ _ h => nomatch h

/-- After a root was looked for, an engine remembers the root that it would locate again. -/
theorem Faithful.afterRoot {path : String} (h : engine.Faithful answers)
    (hchain : readPath path = .ok chain) (timeoutSecs : Nat) :
    Faithful { engine with
      memory := engine.memory.afterRoot path (engine.rootOnce answers chain timeoutSecs) }
      answers := by
  rcases hroot : engine.rootOnce answers chain timeoutSecs with error | located | missing
  · exact h
  · rintro _ _ ⟨⟩
    exact locates_of_rootOnce hchain hroot
  · exact h

/-! ## A request to an engine that remembers -/

/-- A single pass comes to its answer, and leaves the same engine but for what it remembers, which
is faithful again. -/
structure AnswersOnce (engine : Engine E) (answers : Oracle E) (request : Request) (state : σ)
    (ending : Except Error (Outcome E) × Engine E × σ) : Prop where
  answer : ending.1 = engine.once answers request
  fresh : ending.2.1.fresh = engine.fresh
  faithful : ending.2.1.Faithful answers
  state : ending.2.2 = state

theorem AnswersOnce.of_refused {request : Request} {error : Error}
    (hprogram : engine.program request = .error error)
    (honce : engine.once answers request = .error error) (h : engine.Faithful answers) :
    engine.AnswersOnce answers request state (engine.handle world request state) := by
  simp only [handle, hprogram]
  exact ⟨honce.symm, rfl, h, rfl⟩

theorem AnswersOnce.of_program {request : Request} {program : Search E (Outcome E)}
    (hprogram : engine.program request = .ok program) {memory : Memory E}
    (hrun : program.run world engine.memory state
      = ⟨engine.once answers request, memory, state⟩)
    (h : Faithful { engine with memory := memory } answers) :
    engine.AnswersOnce answers request state (engine.handle world request state) := by
  simp only [handle, hprogram, hrun]
  exact ⟨rfl, rfl, h, rfl⟩

/-- To search below a root leaves the root that is remembered as it is. -/
theorem Faithful.run_belowOnce (h : engine.Faithful answers)
    (hanswers : world.Answers state answers) (root : E) (chain : Chain) (timeoutSecs : Nat) :
    ∃ memory, (engine.locateBelow engine.memory.cachedRoot root chain timeoutSecs true).run world
        engine.memory state = ⟨engine.belowOnce answers root chain timeoutSecs, memory, state⟩
      ∧ Faithful { engine with memory := memory } answers := by
  obtain ⟨levels, hrun⟩ := Engine.run_belowOnce hanswers engine.memory
  exact ⟨_, hrun, h⟩

/-- To search for a root, and then below it, remembers the root. -/
theorem Faithful.run_rootAndBelowOnce (h : engine.Faithful answers)
    (hanswers : world.Answers state answers) {rootPath : String} {rootChain : Chain}
    (hrootChain : readPath rootPath = .ok rootChain) (chain : Chain) (timeoutSecs : Nat) :
    ∃ memory, (engine.locateRootAndBelow rootChain chain timeoutSecs true).run world engine.memory
        state
      = ⟨engine.rootOnce answers rootChain engine.settings.rootRefreshTimeoutSecs
          >>= engine.afterRootOnce answers chain timeoutSecs, memory, state⟩
      ∧ Faithful { engine with memory := memory } answers := by
  have hafter := h.afterRoot hrootChain engine.settings.rootRefreshTimeoutSecs
  unfold locateRootAndBelow
  rw [run_bind, run_rootOnce hanswers, (readPath_eq_ok.1 hrootChain).1]
  rcases hroot : engine.rootOnce answers rootChain engine.settings.rootRefreshTimeoutSecs with
    error | located | missing <;> rw [hroot] at hafter
  · exact ⟨_, rfl, hafter⟩
  · exact hafter.run_belowOnce hanswers located.element chain timeoutSecs
  · exact ⟨_, rfl, hafter⟩

section Answers

variable (h : engine.Faithful answers) (hanswers : world.Answers state answers)
include h hanswers

theorem Faithful.answersOnce_root (path : String) (timeoutSecs : Nat) :
    engine.AnswersOnce answers (.root path timeoutSecs true) state
      (engine.handle world (.root path timeoutSecs true) state) := by
  rcases hchain : readPath path with error | chain
  · exact .of_refused (program_root_unreadable hchain) (once_root_unreadable hchain) h
  · refine .of_program (program_root hchain) ?_ (h.afterRoot hchain timeoutSecs)
    rw [run_rootOnce hanswers, (readPath_eq_ok.1 hchain).1, once_root hchain]

theorem Faithful.answersOnce_descendant (rootPath path : String) (timeoutSecs : Nat) :
    engine.AnswersOnce answers (.descendant rootPath path timeoutSecs true) state
      (engine.handle world (.descendant rootPath path timeoutSecs true) state) := by
  rcases hchain : readPath path with error | chain
  · exact .of_refused (program_descendant_unreadable hchain) (once_descendant_unreadable hchain) h
  rcases hremembered : engine.memory.rootFor? rootPath with _ | root
  · rcases hrootChain : readPath rootPath with error | rootChain
    · exact .of_refused (program_root_of_descendant_unreadable hchain hremembered hrootChain)
        (once_root_of_descendant_unreadable hchain hrootChain) h
    obtain ⟨memory, hrun, hfaithful⟩ :=
      h.run_rootAndBelowOnce hanswers hrootChain chain timeoutSecs
    rw [← once_descendant hchain hrootChain] at hrun
    exact .of_program (program_not_remembered hchain hremembered hrootChain) hrun hfaithful
  -- the root that is remembered is what a single pass would come to again
  · obtain ⟨rootChain, located, hrootChain, hlocated, rfl⟩ :=
      (h _ _ (Memory.rootFor?_eq_some.1 hremembered)).rootOnce
        engine.settings.rootRefreshTimeoutSecs
    obtain ⟨memory, hrun, hfaithful⟩ :=
      h.run_belowOnce hanswers located.element chain timeoutSecs
    refine .of_program (program_remembered hchain hremembered) ?_ hfaithful
    rw [hrun, once_descendant hchain hrootChain, hlocated]
    rfl

/-- A single pass answers in the same way whatever root is remembered, as long as it is the one that
would be located again. -/
theorem Faithful.answersOnce {request : Request} (hsingle : request.singlePass = true) :
    engine.AnswersOnce answers request state (engine.handle world request state) := by
  cases request with
  | root path timeoutSecs singlePass =>
    obtain rfl : singlePass = true := hsingle
    exact h.answersOnce_root hanswers path timeoutSecs
  | descendant rootPath path timeoutSecs singlePass =>
    obtain rfl : singlePass = true := hsingle
    exact h.answersOnce_descendant hanswers rootPath path timeoutSecs

end Answers

theorem fresh_handle (hanswers : world.Answers state answers) {request : Request}
    (hsingle : request.singlePass = true) :
    (engine.fresh.handle world request state).1 = engine.once answers request :=
  ((engine.faithful_fresh answers).answersOnce hanswers hsingle).answer

end Engine

/-! ## One request after the other -/

/-- What can be done with an engine: to ask for an element, in the state that the world has by then,
or to let the engine forget its root. -/
inductive Operation (σ : Type)
  | locate (request : Request) (state : σ)
  | forgetRoot

/-- To ask for a single pass, or to forget. -/
def Operation.isSingle : Operation σ → Bool
  | locate request _ => request.singlePass
  | forgetRoot => true

namespace Engine

variable {world : World σ E} {answers : Oracle E} {engine : Engine E}

def perform (world : World σ E) (engine : Engine E) : Operation σ → Engine E
  | .locate request state => (engine.handle world request state).2.1
  | .forgetRoot => engine.forgetRoot

def performAll (world : World σ E) (engine : Engine E) (operations : List (Operation σ)) :
    Engine E :=
  operations.foldl (perform world) engine

section Still

variable (hstill : ∀ state, world.Answers state answers)
include hstill

theorem Faithful.perform (h : engine.Faithful answers) {operation : Operation σ}
    (hsingle : operation.isSingle = true) :
    (engine.perform world operation).Faithful answers
      ∧ (engine.perform world operation).fresh = engine.fresh := by
  cases operation with
  | locate request state =>
    have honce := h.answersOnce (hstill state) hsingle
    exact ⟨honce.faithful, honce.fresh⟩
  | forgetRoot => exact ⟨fun _ _ h => (nomatch h), rfl⟩

theorem Faithful.performAll (operations : List (Operation σ))
    (hsingle : ∀ operation ∈ operations, operation.isSingle = true)
    (h : engine.Faithful answers) :
    (engine.performAll world operations).Faithful answers
      ∧ (engine.performAll world operations).fresh = engine.fresh := by
  induction operations generalizing engine with
  | nil => exact ⟨h, rfl⟩
  | cons operation operations ih =>
    obtain ⟨hfirst, hrest⟩ := List.forall_mem_cons.1 hsingle
    obtain ⟨hfaithful, hfresh⟩ := h.perform hstill hfirst
    obtain ⟨hfaithful', hfresh'⟩ := ih hrest hfaithful
    exact ⟨hfaithful', hfresh'.trans hfresh⟩

/-- A single pass answers as a fresh engine does, whatever single passes were asked for before, and
however they ended. -/
theorem answers_as_fresh (engine : Engine E) (operations : List (Operation σ))
    (hoperations : ∀ operation ∈ operations, operation.isSingle = true) {request : Request}
    (hrequest : request.singlePass = true) (state first : σ) :
    ((engine.fresh.performAll world operations).handle world request state).1
      = (engine.fresh.handle world request first).1 := by
  obtain ⟨hfaithful, hsame⟩ :=
    (engine.faithful_fresh answers).performAll hstill operations hoperations
  rw [(hfaithful.answersOnce (hstill state) hrequest).answer, fresh_handle (hstill first) hrequest]
  -- what an engine answers once does not depend on what it remembers
  change (engine.fresh.performAll world operations).fresh.once answers request
    = engine.fresh.once answers request
  rw [hsame]
  rfl

end Still

/-- The panel is located and its button found as by a fresh engine, after a path that is malformed,
a root that is missing, a search below another root that fails, and a success that leaves the panel
remembered. -/
theorem answers_as_fresh_window :
    let engine := (windowTree.engine {}).performAll windowTree.world
      [.locate (.root "bogus" 0 true) {}, .locate (.root "Class=Button" 0 true) {},
        .locate (.descendant "Class=Window" "Class=Missing" 0 true) ⟨5⟩, .forgetRoot,
        .locate (.descendant "Class=Window;\\;Class=Panel" "Class=Button" 0 true) {}]
    let request : Request := .descendant "Class=Window;\\;Class=Panel" "Class=Button" 0 true
    engine.memory.cachedRoot = some ("Class=Window;\\;Class=Panel", ⟨[0, 0]⟩)
      ∧ (engine.handle windowTree.world request ⟨7⟩).1
        = ((windowTree.engine {}).handle windowTree.world request {}).1
      ∧ elementOf ((windowTree.engine {}).handle windowTree.world request {}).1
        = some ⟨[0, 0, 0]⟩ :=
  ⟨by decide +kernel,
    answers_as_fresh windowTree.world_answers (windowTree.engine {}) _ (by decide) rfl _ _,
    by decide +kernel⟩

end Engine

end Locator
