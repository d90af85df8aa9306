import Locator.Proofs.CachedRoots

/-!
# Requests that are refused

A request that has a recognition string that is no chain is refused before anything is asked. The
string of a root that is remembered is not read again; but it was read when the root was located, so
it is a chain (`Engine.RemembersChain`). So a request is refused just when one of its strings is no
chain, whatever is remembered. In a world that fails as an adapter does there is no other way to be
malformed (`Engine.malformed_path`).
-/

namespace Locator

open Search

variable {E α σ : Type}

/-! ## Errors of a world -/

/-- What goes wrong in a world is a failure of the adapter. -/
def World.FailsAsAdapter (world : World σ E) : Prop :=
  ∀ query state error, (world.answer query state).1 = .error error → error.isAdapterFailure = true

/-- A program that fails does so with an error of the world. -/
theorem Search.exists_refusal {world : World σ E} {error : Error} (program : Search E α) :
    ∀ (memory : Memory E) (state : σ), (program.run world memory state).result = .error error →
      ∃ query state, (world.answer query state).1 = .error error := by
  induction program with
  | done answer => exact nofun
  | ask query go ih =>
    intro memory state herror
    rcases h : world.answer query state with ⟨refusal | answer, later⟩
    · simp only [run, h] at herror
      cases herror
      exact ⟨query, state, congrArg Prod.fst h⟩
    · simp only [run, h] at herror
      exact ih answer memory later herror
  | clock _ ih => exact fun memory state => ih (world.now state) memory state
  | sleep ms _ ih => exact fun memory state => ih memory (world.sleep ms state)
  | remember remembered _ ih => exact fun _ state => ih remembered state
  | visit _ _ ih => exact ih

namespace Snapshot

variable {tree : Snapshot} {place : Place} {error : Error}

theorem isAdapterFailure_of_checkListed (h : tree.checkListed = .error error) :
    error.isAdapterFailure = true := by
  unfold checkListed at h
  split at h <;> cases h
  rfl

theorem isAdapterFailure_of_node (h : tree.node place = .error error) :
    error.isAdapterFailure = true := by
  unfold node at h
  split at h <;> cases h
  rfl

theorem world_failsAsAdapter (tree : Snapshot) : tree.world.FailsAsAdapter := by
  intro query clock error h
  change tree.answer query = .error error at h
  have hread {α : Type} {place : Place} {f : Node → α}
      (h : (tree.node place >>= fun node => pure (f node)) = .error error) :
      error.isAdapterFailure = true := by
    rcases bind_eq_error.1 h with hnode | ⟨node, -, ⟨⟩⟩
    exact isAdapterFailure_of_node hnode
  cases query with
  | roots =>
    rcases bind_eq_error.1 h with hlisted | ⟨-, -, ⟨⟩⟩
    exact isAdapterFailure_of_checkListed hlisted
  | children place =>
    rcases bind_eq_error.1 h with hlisted | ⟨-, -, hnode⟩
    · exact isAdapterFailure_of_checkListed hlisted
    · exact hread hnode
  | className | superclasses | resolvedType | ident | name | text | caption | property =>
    exact hread h

end Snapshot

/-! ## Recognition strings of a request -/

/-- The recognition strings of a request, in the order in which they are read. -/
def Request.paths : Request → List String
  | .root path _ _ => [path]
  | .descendant rootPath path _ _ => [path, rootPath]

/-- The first recognition string of a request that is no chain. -/
def Request.malformed? (request : Request) : Option String :=
  request.paths.find? fun path => !(Chain.ofText path).isOk

namespace Engine

variable {world : World σ E} {engine : Engine E} {request : Request} {path rootPath : String}

theorem readPath_eq_error {error : Error} :
    readPath path = .error error
      ↔ ∃ fault, Chain.ofText path = .error fault ∧ error = .malformedPath path fault.message := by
  rw [readPath]
  rcases Chain.ofText path with fault | chain
  · simp [Except.mapError, eq_comm]
  · simp [Except.mapError]

/-- A request that is refused before anything is asked has a recognition string that is no chain,
and the first of them is what the error says. -/
theorem malformed?_of_refused {error : Error} (h : engine.program request = .error error) :
    ∃ text fault, request.malformed? = some text ∧ Chain.ofText text = .error fault
      ∧ error = .malformedPath text fault.message := by
  cases request with
  | root path timeoutSecs singlePass =>
    rcases bind_eq_error.1 h with hpath | ⟨chain, -, ⟨⟩⟩
    obtain ⟨fault, hfault, herror⟩ := readPath_eq_error.1 hpath
    refine ⟨path, fault, ?_, hfault, herror⟩
    simp only [Request.malformed?, Request.paths, List.find?, hfault]
    rfl
  | descendant rootPath path timeoutSecs singlePass =>
    rcases bind_eq_error.1 h with hpath | ⟨chain, hchain, hroot⟩
    · obtain ⟨fault, hfault, herror⟩ := readPath_eq_error.1 hpath
      refine ⟨path, fault, ?_, hfault, herror⟩
      simp only [Request.malformed?, Request.paths, List.find?, hfault]
      rfl
    · split at hroot
      · cases hroot
      rcases bind_eq_error.1 hroot with hrootPath | ⟨rootChain, -, ⟨⟩⟩
      obtain ⟨fault, hfault, herror⟩ := readPath_eq_error.1 hrootPath
      refine ⟨rootPath, fault, ?_, hfault, herror⟩
      rw [readPath, mapError_eq_ok] at hchain
      simp only [Request.malformed?, Request.paths, List.find?, hchain, hfault]
      rfl

/-- The recognition string of the root that is remembered is a chain. -/
def RemembersChain (engine : Engine E) : Prop :=
  ∀ path root, engine.memory.rootFor? path = some root → ∃ chain, readPath path = .ok chain

theorem RemembersChain.perform (h : engine.RemembersChain) (operation : Operation σ) :
    (engine.perform world operation).RemembersChain := by
  intro path root hremembered
  cases operation with
  | forgetRoot => cases hremembered
  | locate request state =>
    have hcached := cachedRoot_handle world engine request state
    change (engine.handle world request state).2.1.memory.rootFor? path = _ at hremembered
    rw [Memory.rootFor?_eq_some, hcached] at hremembered
    rcases hroot : engine.rootLocated? world request state with _ | located <;>
      rw [hroot] at hremembered
    · exact h path root (Memory.rootFor?_eq_some.2 hremembered)
    · cases hremembered
      exact rootPath_readable hroot

theorem RemembersChain.performAll (h : engine.RemembersChain) (operations : List (Operation σ)) :
    (engine.performAll world operations).RemembersChain := by
  induction operations generalizing engine with
  | nil => exact h
  | cons operation operations ih => exact ih (h.perform operation)

/-- A recognition string that is no chain is refused, also for a root that would be remembered. -/
theorem refused_of_malformed (hremembers : engine.RemembersChain) (hpath : path ∈ request.paths)
    {fault : PathFault} (hfault : Chain.ofText path = .error fault) :
    ∃ error, engine.program request = .error error := by
  have hunreadable : readPath path = .error (.malformedPath path fault.message) :=
    readPath_eq_error.2 ⟨fault, hfault, rfl⟩
  cases request with
  | root text timeoutSecs singlePass =>
    obtain rfl := List.mem_singleton.1 hpath
    exact ⟨_, program_root_unreadable hunreadable⟩
  | descendant rootPath text timeoutSecs singlePass =>
    rcases hchain : readPath text with error | chain
    · exact ⟨error, program_descendant_unreadable hchain⟩
    rcases List.mem_pair.1 hpath with rfl | rfl
    · rw [hchain] at hunreadable
      cases hunreadable
    rcases hremembered : engine.memory.rootFor? path with _ | root
    · exact ⟨_, program_root_of_descendant_unreadable hchain hremembered hunreadable⟩
    · obtain ⟨rootChain, hrootChain⟩ := hremembers path root hremembered
      rw [hrootChain] at hunreadable
      cases hunreadable

/-- A request ends as malformed just when one of its recognition strings is no chain, whether or not
its root is remembered. The error is about the first such string. Then nothing was asked, no time
was spent, and nothing that is remembered has changed. -/
theorem malformed_path (hworld : world.FailsAsAdapter) (engine : Engine E)
    (operations : List (Operation σ)) (request : Request) (state : σ) :
    let after := engine.fresh.performAll world operations
    let ending := after.handle world request state
    ((∃ text reason, ending.1 = .error (.malformedPath text reason))
        ↔ ∃ path ∈ request.paths, ∃ fault, Chain.ofText path = .error fault)
      ∧ ∀ text reason, ending.1 = .error (.malformedPath text reason) →
        (request.malformed? = some text
          ∧ ∃ fault, Chain.ofText text = .error fault ∧ reason = fault.message)
        ∧ after.history world request state = [] ∧ ending.2 = (after, state) := by
  intro after ending
  have hremembers : after.RemembersChain := RemembersChain.performAll nofun operations
  rcases hprogram : after.program request with error | program
  · obtain ⟨text, fault, hmalformed, hfault, rfl⟩ := malformed?_of_refused hprogram
    have hending : ending = (.error (.malformedPath text fault.message), after, state) :=
      handle_eq_of_refused hprogram world state
    refine ⟨iff_of_true ⟨_, _, congrArg Prod.fst hending⟩
      ⟨text, List.mem_of_find?_eq_some hmalformed, fault, hfault⟩, fun _ _ herror => ?_⟩
    rw [hending] at herror
    cases herror
    exact ⟨⟨hmalformed, fault, hfault, rfl⟩, by simp only [history, hprogram],
      congrArg Prod.snd hending⟩
  · -- the program runs, and if it fails then because the world does
    have hnever : ∀ text reason, ending.1 ≠ .error (.malformedPath text reason) := by
      intro text reason herror
      rw [(handle_of_program hprogram world state).1] at herror
      obtain ⟨query, state', hrefusal⟩ := program.exists_refusal _ _ herror
      cases hworld query state' _ hrefusal
    refine ⟨iff_of_false ?_ ?_, fun text reason h => absurd h (hnever text reason)⟩
    · rintro ⟨text, reason, h⟩
      exact hnever text reason h
    rintro ⟨path, hpath, fault, hfault⟩
    obtain ⟨error, hrefused⟩ := refused_of_malformed hremembers hpath hfault
    rw [hprogram] at hrefused
    cases hrefused

/-- A path below the window is refused while the window is remembered; a path that is a chain is
not. -/
theorem malformed_path_window :
    let engine := windowTree.engine {}
    let operations : List (Operation Clock) :=
      [.locate (.root "bogus" 0 true) {},
        .locate (.descendant "Class=Window" "Class=Button" 0 true) {}]
    let after := engine.fresh.performAll windowTree.world operations
    let request : Request := .descendant "Class=Window" "Class=Panel;\\;bogus" 0 true
    after.memory.rootFor? "Class=Window" = some ⟨[0]⟩
      ∧ (after.handle windowTree.world request ⟨5⟩).1 = .error (.malformedPath
        "Class=Panel;\\;bogus" "level 2 ('bogus') has no recognized qualifier")
      ∧ after.history windowTree.world request ⟨5⟩ = []
      ∧ (after.handle windowTree.world request ⟨5⟩).2 = (after, ⟨5⟩)
      ∧ ¬∃ text reason, (after.handle windowTree.world (.root "Class=Missing" 0 true) ⟨5⟩).1
        = .error (.malformedPath text reason) := by
  intro engine operations after request
  have hrefused : (after.handle windowTree.world request ⟨5⟩).1 = .error (.malformedPath
      "Class=Panel;\\;bogus" "level 2 ('bogus') has no recognized qualifier") := by
    decide +kernel
  have hchain : ¬∃ path ∈ ["Class=Missing"], ∃ fault, Chain.ofText path = .error fault := by
    rintro ⟨path, hpath, fault, hfault⟩
    obtain rfl := List.mem_singleton.1 hpath
    have hreadable : (Chain.ofText "Class=Missing").isOk = true := by decide +kernel
    rw [hfault] at hreadable
    cases hreadable
  obtain ⟨-, heffects⟩ := malformed_path windowTree.world_failsAsAdapter engine operations request
    ⟨5⟩
  obtain ⟨-, hhistory, hending⟩ := heffects _ _ hrefused
  exact ⟨by decide +kernel, hrefused, hhistory, hending,
    fun h => hchain ((malformed_path windowTree.world_failsAsAdapter engine operations
      (.root "Class=Missing" 0 true) ⟨5⟩).1.1 h)⟩

end Engine

end Locator
