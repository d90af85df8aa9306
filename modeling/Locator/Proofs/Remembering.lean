import Locator.Proofs.Interruption
import Locator.Proofs.SinglePasses

/-!
# What an engine remembers

The memory of an engine is changed by the lookups that locate something: a root, also one that a
descendant request locates on the way, and what a request is answered with. The journal of a run
lists these lookups in order, with the times at which the root was forgotten, and what is remembered
after the run is what its journal says (`memory_performAll`).

So the levels that are remembered are those of the last lookup in the journal (`last_levels`). They
are those of the last request that was answered with an element, as long as no descendant request
strands: locates its root on the way and then nothing below it (`stranded_levels`).
-/

namespace Locator

open Search

variable {E σ : Type}

/-! ## Journals -/

/-- What changes the memory of an engine. -/
inductive Entry (E : Type)
  /-- A root was located by a recognition string. -/
  | root (path : String) (located : Located E)
  /-- A request was answered with what it located. -/
  | answer (located : Located E)
  | forgotten
  deriving DecidableEq

namespace Entry

def located? : Entry E → Option (Located E)
  | root _ located | answer located => some located
  | forgotten => none

def answer? : Entry E → Option (Located E)
  | answer located => some located
  | root .. | forgotten => none

def note (memory : Memory E) : Entry E → Memory E
  | root path located => ⟨some (path, located.element), located.levels⟩
  | answer located => { memory with lastLevels := located.levels }
  | forgotten => memory.forgetRoot

end Entry

/-- What is remembered after the entries of a journal. -/
def Memory.recollect (memory : Memory E) (journal : List (Entry E)) : Memory E :=
  journal.foldl Entry.note memory

theorem Memory.recollect_append (memory : Memory E) (journal later : List (Entry E)) :
    memory.recollect (journal ++ later) = (memory.recollect journal).recollect later :=
  List.foldl_append

/-- The levels of the last of some lookups, if there is one. -/
def lastLevelsOr (levels : List LevelMatch) (lookups : List (Located E)) : List LevelMatch :=
  (lookups.getLast?.map (·.levels)).getD levels

theorem lastLevelsOr_cons (levels : List LevelMatch) (located : Located E)
    (lookups : List (Located E)) :
    lastLevelsOr levels (located :: lookups) = lastLevelsOr located.levels lookups := by
  rw [lastLevelsOr, lastLevelsOr, List.getLast?_cons]
  cases lookups.getLast? <;> rfl

theorem lastLevelsOr_append (levels : List LevelMatch) (lookups later : List (Located E)) :
    lastLevelsOr levels (lookups ++ later) = lastLevelsOr (lastLevelsOr levels lookups) later := by
  rw [lastLevelsOr, lastLevelsOr, lastLevelsOr, List.getLast?_append]
  cases later.getLast? <;> rfl

theorem Memory.lastLevels_recollect (journal : List (Entry E)) (memory : Memory E) :
    (memory.recollect journal).lastLevels
      = lastLevelsOr memory.lastLevels (journal.filterMap Entry.located?) := by
  induction journal generalizing memory with
  | nil => rfl
  | cons entry journal ih =>
    rw [recollect, List.foldl_cons]
    refine (ih (entry.note memory)).trans ?_
    cases entry with
    | root path located => exact (lastLevelsOr_cons _ located _).symm
    | answer located => exact (lastLevelsOr_cons _ located _).symm
    | forgotten => rfl

/-! ## What a request adds -/

def Request.rootPath : Request → String
  | .root path _ _ => path
  | .descendant rootPath _ _ _ => rootPath

namespace Engine

variable {world : World σ E} {engine : Engine E} {chain : Chain} {timeoutSecs : Nat}
  {singlePass : Bool} {memory : Memory E} {state : σ}

/-- What a request is answered with. -/
def locatedBy (answer : Except Error (Outcome E)) : Option (Located E) :=
  answer.toOption.bind Outcome.located?

/-- The root request that comes with a request: itself, or for a descendant request the one that
locates its root. That is not made for a root that is remembered, nor if the path below it cannot be
read. -/
def rootLookup? (engine : Engine E) : Request → Option Request
  | .root path timeoutSecs singlePass => some (.root path timeoutSecs singlePass)
  | .descendant rootPath path _ singlePass =>
    match readPath path, engine.memory.rootFor? rootPath with
    | .ok _, none => some (engine.rootRequest rootPath singlePass)
    | .ok _, some _ | .error _, _ => none

/-- The root that a request locates, for its answer or on the way to it. -/
def rootLocated? (engine : Engine E) (world : World σ E) (request : Request) (state : σ) :
    Option (Located E) :=
  (engine.rootLookup? request).bind fun lookup => locatedBy (engine.handle world lookup state).1

/-- The entries that an operation adds to the journal. -/
def entries (world : World σ E) (engine : Engine E) : Operation σ → List (Entry E)
  | .locate request state =>
    ((engine.rootLocated? world request state).map (.root request.rootPath)).toList
      ++ ((locatedBy (engine.handle world request state).1).map .answer).toList
  | .forgetRoot => [.forgotten]

/-- The lookups that locate something while operations are performed, and when the root is
forgotten. -/
def journal (world : World σ E) : Engine E → List (Operation σ) → List (Entry E)
  | _, [] => []
  | engine, operation :: operations =>
    engine.entries world operation ++ journal world (engine.perform world operation) operations

/-- A search that polls and then notes what it located remembers that, and otherwise nothing. -/
theorem memory_andNote {goal : Goal E} {pass : Progress → Search E (Finding E)}
    (hpass : PassOf engine goal pass) {start : Nat} {patience : Patience}
    {next : Outcome E → Search E (Outcome E)} (entry : Located E → Entry E)
    (hfound : ∀ located state, (next (.found located)).run world memory state
      = ⟨.ok (.found located), (entry located).note memory, state⟩)
    (hmissing : ∀ missing state, (next (.notFound missing)).run world memory state
      = ⟨.ok (.notFound missing), memory, state⟩) :
    ((pollFromNow chain start patience pass >>= next).run world memory state).memory
      = memory.recollect ((locatedBy ((pollFromNow chain start patience pass >>= next).run world
          memory state).result).map entry).toList := by
  have hquiet : ((pollFromNow chain start patience pass).run world memory state).memory
      = memory := by
    rw [run_memory]
    exact Memory.after_of_quiet (poll_quiet hpass _ _ _ _) memory
  rw [run_bind]
  rcases hrun : (pollFromNow chain start patience pass).run world memory state with
    ⟨error | located | missing, remembered, later⟩ <;> rw [hrun] at hquiet <;>
    obtain rfl : remembered = memory := hquiet
  · rfl
  · simp only [hfound]
    rfl
  · simp only [hmissing]
    rfl

theorem run_locateRoot_memory (world : World σ E) (engine : Engine E) (chain : Chain)
    (timeoutSecs : Nat) (singlePass : Bool) (memory : Memory E) (state : σ) :
    ((engine.locateRoot chain timeoutSecs singlePass).run world memory state).memory
      = memory.recollect ((locatedBy ((engine.locateRoot chain timeoutSecs singlePass).run world
          memory state).result).map (.root chain.path)).toList := by
  unfold locateRoot
  exact memory_andNote (.root chain) (.root chain.path) (fun _ _ => rfl) fun _ _ => rfl

theorem run_locateBelow_memory (world : World σ E) (engine : Engine E) (root : E) (chain : Chain)
    (timeoutSecs : Nat) (singlePass : Bool) (memory : Memory E) (state : σ) :
    ((engine.locateBelow memory.cachedRoot root chain timeoutSecs singlePass).run world memory
        state).memory
      = memory.recollect ((locatedBy ((engine.locateBelow memory.cachedRoot root chain timeoutSecs
          singlePass).run world memory state).result).map .answer).toList := by
  unfold locateBelow
  rcases hgoal : goalBelow? engine.settings chain root with _ | goal
  · rfl
  · exact memory_andNote (.descendant hgoal) .answer (fun _ _ => rfl) fun _ _ => rfl

section RootLookup

variable {rootPath path : String} {error : Error}

theorem rootLocated?_root (path : String) (timeoutSecs : Nat) (singlePass : Bool) (state : σ) :
    engine.rootLocated? world (.root path timeoutSecs singlePass) state
      = locatedBy (engine.handle world (.root path timeoutSecs singlePass) state).1 :=
  rfl

theorem rootLocated?_of_unreadable (h : readPath path = .error error) :
    engine.rootLocated? world (.descendant rootPath path timeoutSecs singlePass) state = none := by
  simp only [rootLocated?, rootLookup?, h]
  rfl

theorem rootLocated?_of_remembered {root : E} (h : engine.memory.rootFor? rootPath = some root) :
    engine.rootLocated? world (.descendant rootPath path timeoutSecs singlePass) state = none := by
  rcases hchain : readPath path with error | chain
  · exact rootLocated?_of_unreadable hchain
  · simp only [rootLocated?, rootLookup?, hchain, h]
    rfl

theorem rootLocated?_of_not_remembered (hchain : readPath path = .ok chain)
    (h : engine.memory.rootFor? rootPath = none) :
    engine.rootLocated? world (.descendant rootPath path timeoutSecs singlePass) state
      = locatedBy (engine.handle world (engine.rootRequest rootPath singlePass) state).1 := by
  simp only [rootLocated?, rootLookup?, hchain, h]
  rfl

theorem rootPath_readable {request : Request} {located : Located E}
    (h : engine.rootLocated? world request state = some located) :
    ∃ chain, readPath request.rootPath = .ok chain := by
  have hroot (path : String) (timeoutSecs : Nat) (singlePass : Bool)
      (h : locatedBy (engine.handle world (.root path timeoutSecs singlePass) state).1
        = some located) : ∃ chain, readPath path = .ok chain := by
    rcases hchain : readPath path with error | chain
    · rw [(handle_of_refused (program_root_unreadable hchain) world state).1] at h
      cases h
    · exact ⟨chain, rfl⟩
  cases request with
  | root path timeoutSecs singlePass => exact hroot path timeoutSecs singlePass h
  | descendant rootPath path timeoutSecs singlePass =>
    rcases hchain : readPath path with error | chain
    · rw [rootLocated?_of_unreadable hchain] at h
      cases h
    rcases hremembered : engine.memory.rootFor? rootPath with _ | root
    · rw [rootLocated?_of_not_remembered hchain hremembered] at h
      exact hroot rootPath _ singlePass h
    · rw [rootLocated?_of_remembered hremembered] at h
      cases h

end RootLookup

theorem memory_handle_of_program {request : Request} {program : Search E (Outcome E)}
    (h : engine.program request = .ok program) (world : World σ E) (state : σ) :
    (engine.handle world request state).2.1.memory
      = (program.run world engine.memory state).memory := by
  simp only [handle, h]

/-- A request that is refused changes nothing. -/
theorem handle_eq_of_refused {request : Request} {error : Error}
    (h : engine.program request = .error error) (world : World σ E) (state : σ) :
    engine.handle world request state = (.error error, engine, state) := by
  simp only [handle, h]

/-- The search for a root and then below it remembers first the root and then the answer. -/
theorem run_locateRootAndBelow_memory (world : World σ E) (engine : Engine E)
    (rootChain chain : Chain) (timeoutSecs : Nat) (singlePass : Bool) (memory : Memory E)
    (state : σ) :
    let rootSearch := engine.locateRoot rootChain engine.settings.rootRefreshTimeoutSecs singlePass
    let whole := engine.locateRootAndBelow rootChain chain timeoutSecs singlePass
    (whole.run world memory state).memory
      = memory.recollect
          (((locatedBy (rootSearch.run world memory state).result).map
              (.root rootChain.path)).toList
            ++ ((locatedBy (whole.run world memory state).result).map .answer).toList) := by
  intro rootSearch whole
  have hroot : (rootSearch.run world memory state).memory = _ :=
    run_locateRoot_memory world engine rootChain _ singlePass memory state
  have hwhole : whole.run world memory state = _ := run_bind rootSearch _ memory state
  rcases hrun : rootSearch.run world memory state with
    ⟨error | located | missing, remembered, later⟩ <;> rw [hrun] at hroot hwhole
  · rw [hwhole]
    exact hroot
  · have hbelow := run_locateBelow_memory world engine located.element chain timeoutSecs
      singlePass remembered later
    obtain rfl : remembered = ⟨some (rootChain.path, located.element), located.levels⟩ := hroot
    rw [hwhole]
    exact hbelow
  · rw [hwhole]
    exact hroot

section Perform

variable {rootPath path : String}

theorem entries_of_refused {request : Request} {error : Error}
    (h : engine.program request = .error error)
    (hroot : engine.rootLocated? world request state = none) :
    engine.entries world (.locate request state) = [] := by
  simp only [entries, hroot, handle_eq_of_refused h]
  rfl

theorem memory_handle_root (world : World σ E) (engine : Engine E) (path : String)
    (timeoutSecs : Nat) (singlePass : Bool) (state : σ) :
    (engine.handle world (.root path timeoutSecs singlePass) state).2.1.memory
      = engine.memory.recollect
          (engine.entries world (.locate (.root path timeoutSecs singlePass) state)) := by
  rcases hchain : readPath path with error | chain
  · have hprogram : engine.program (.root path timeoutSecs singlePass) = .error error :=
      program_root_unreadable hchain
    have hroot : engine.rootLocated? world (.root path timeoutSecs singlePass) state = none := by
      rw [rootLocated?_root, handle_eq_of_refused hprogram]
      rfl
    rw [handle_eq_of_refused hprogram, entries_of_refused hprogram hroot]
    rfl
  have hprogram : engine.program (.root path timeoutSecs singlePass) = .ok _ := program_root hchain
  have hmemory := run_locateRoot_memory world engine chain timeoutSecs singlePass
    engine.memory state
  rw [memory_handle_of_program hprogram, hmemory, entries, rootLocated?_root,
    (handle_of_program hprogram world state).1, (readPath_eq_ok.1 hchain).1]
  -- the answer has the levels of the root, which are remembered already
  rcases locatedBy ((engine.locateRoot chain timeoutSecs singlePass).run world engine.memory
    state).result with _ | located
  · rfl
  · rfl

theorem memory_handle_descendant (world : World σ E) (engine : Engine E) (rootPath path : String)
    (timeoutSecs : Nat) (singlePass : Bool) (state : σ) :
    (engine.handle world (.descendant rootPath path timeoutSecs singlePass) state).2.1.memory
      = engine.memory.recollect
          (engine.entries world
            (.locate (.descendant rootPath path timeoutSecs singlePass) state)) := by
  rcases hchain : readPath path with error | chain
  · have hprogram : engine.program (.descendant rootPath path timeoutSecs singlePass)
        = .error error := program_descendant_unreadable hchain
    rw [handle_eq_of_refused hprogram, entries_of_refused hprogram
      (rootLocated?_of_unreadable hchain)]
    rfl
  rcases hremembered : engine.memory.rootFor? rootPath with _ | root
  · rcases hrootChain : readPath rootPath with error | rootChain
    · have hprogram : engine.program (.descendant rootPath path timeoutSecs singlePass)
          = .error error := program_root_of_descendant_unreadable hchain hremembered hrootChain
      have hrefused : engine.program (engine.rootRequest rootPath singlePass) = .error error :=
        program_root_unreadable hrootChain
      have hroot : engine.rootLocated? world
          (.descendant rootPath path timeoutSecs singlePass) state = none := by
        rw [rootLocated?_of_not_remembered hchain hremembered, handle_eq_of_refused hrefused]
        rfl
      rw [handle_eq_of_refused hprogram, entries_of_refused hprogram hroot]
      rfl
    have hprogram : engine.program (.descendant rootPath path timeoutSecs singlePass) = .ok _ :=
      program_not_remembered hchain hremembered hrootChain
    have hlookup : engine.program (engine.rootRequest rootPath singlePass) = .ok _ :=
      program_root hrootChain
    have hmemory := run_locateRootAndBelow_memory world engine rootChain chain timeoutSecs
      singlePass engine.memory state
    rw [memory_handle_of_program hprogram, hmemory, entries,
      rootLocated?_of_not_remembered hchain hremembered,
      (handle_of_program hlookup world state).1, (handle_of_program hprogram world state).1,
      (readPath_eq_ok.1 hrootChain).1]
    rfl
  · have hprogram : engine.program (.descendant rootPath path timeoutSecs singlePass) = .ok _ :=
      program_remembered hchain hremembered
    have hmemory := run_locateBelow_memory world engine root chain timeoutSecs
      singlePass engine.memory state
    rw [memory_handle_of_program hprogram, hmemory, entries,
      rootLocated?_of_remembered hremembered, (handle_of_program hprogram world state).1]
    rfl

/-- What is remembered after an operation is what its entries say. -/
theorem memory_perform (world : World σ E) (engine : Engine E) (operation : Operation σ) :
    (engine.perform world operation).memory
      = engine.memory.recollect (engine.entries world operation) := by
  rcases operation with ⟨⟨path, timeoutSecs, singlePass⟩ |
    ⟨rootPath, path, timeoutSecs, singlePass⟩, state⟩ | _
  · exact memory_handle_root world engine path timeoutSecs singlePass state
  · exact memory_handle_descendant world engine rootPath path timeoutSecs singlePass state
  · rfl

end Perform

/-- What is remembered after some operations is what the journal says. -/
theorem memory_performAll (world : World σ E) (engine : Engine E)
    (operations : List (Operation σ)) :
    (engine.performAll world operations).memory
      = engine.memory.recollect (engine.journal world operations) := by
  induction operations generalizing engine with
  | nil => rfl
  | cons operation operations ih =>
    rw [journal, Memory.recollect_append, ← memory_perform]
    exact ih (engine.perform world operation)

/-! ## Levels -/

/-- A request locates its root on the way and then is answered with nothing. -/
def strands (world : World σ E) (engine : Engine E) : Operation σ → Bool
  | .locate request state =>
    (engine.rootLocated? world request state).isSome
      && (locatedBy (engine.handle world request state).1).isNone
  | .forgetRoot => false

def neverStrands (world : World σ E) : Engine E → List (Operation σ) → Bool
  | _, [] => true
  | engine, operation :: operations =>
    !engine.strands world operation
      && neverStrands world (engine.perform world operation) operations

theorem located_entries (world : World σ E) (engine : Engine E) (request : Request) (state : σ) :
    (engine.entries world (.locate request state)).filterMap Entry.located?
      = (engine.rootLocated? world request state).toList
        ++ (locatedBy (engine.handle world request state).1).toList := by
  rw [entries, List.filterMap_append]
  congr 1
  · cases engine.rootLocated? world request state <;> rfl
  · cases locatedBy (engine.handle world request state).1 <;> rfl

theorem answer_entries (world : World σ E) (engine : Engine E) (request : Request) (state : σ) :
    (engine.entries world (.locate request state)).filterMap Entry.answer?
      = (locatedBy (engine.handle world request state).1).toList := by
  rw [entries, List.filterMap_append]
  cases engine.rootLocated? world request state <;>
    cases locatedBy (engine.handle world request state).1 <;> rfl

/-- An operation that does not strand leaves the levels of its answer, if it has one. -/
theorem lastLevels_entries {operation : Operation σ}
    (h : engine.strands world operation = false) (levels : List LevelMatch) :
    lastLevelsOr levels ((engine.entries world operation).filterMap Entry.located?)
      = lastLevelsOr levels ((engine.entries world operation).filterMap Entry.answer?) := by
  cases operation with
  | forgetRoot => rfl
  | locate request state =>
    rw [located_entries, answer_entries]
    rw [strands] at h
    rcases hroot : engine.rootLocated? world request state with _ | root
    · rfl
    rcases hanswer : locatedBy (engine.handle world request state).1 with _ | located
    · rw [hroot, hanswer] at h
      cases h
    · rfl

theorem lastLevels_of_neverStrands {operations : List (Operation σ)}
    (h : engine.neverStrands world operations = true) (levels : List LevelMatch) :
    lastLevelsOr levels ((engine.journal world operations).filterMap Entry.located?)
      = lastLevelsOr levels ((engine.journal world operations).filterMap Entry.answer?) := by
  induction operations generalizing engine levels with
  | nil => rfl
  | cons operation operations ih =>
    rw [neverStrands, Bool.and_eq_true, Bool.not_eq_true'] at h
    rw [journal, List.filterMap_append, List.filterMap_append, lastLevelsOr_append,
      lastLevelsOr_append, lastLevels_entries h.1, ih h.2]

/-- The levels that are remembered are those of the last lookup that located something. A request
leaves the levels of its answer, or of the root that it located on the way if there is no answer, or
else the levels from before. So they are those of the last answer as long as no request strands. -/
theorem last_levels (world : World σ E) (engine : Engine E) (operations : List (Operation σ)) :
    let after := engine.fresh.performAll world operations
    let journal := engine.fresh.journal world operations
    after.memory.lastLevels = lastLevelsOr [] (journal.filterMap Entry.located?)
      ∧ (∀ request state, (after.handle world request state).2.1.memory.lastLevels
        = lastLevelsOr after.memory.lastLevels
            ((after.rootLocated? world request state).toList
              ++ (locatedBy (after.handle world request state).1).toList))
      ∧ (engine.fresh.neverStrands world operations = true →
        after.memory.lastLevels = lastLevelsOr [] (journal.filterMap Entry.answer?)) := by
  intro after journal
  have hrun : after.memory.lastLevels = lastLevelsOr [] (journal.filterMap Entry.located?) := by
    rw [memory_performAll, Memory.lastLevels_recollect]
    rfl
  refine ⟨hrun, fun request state => ?_, fun hstrands => ?_⟩
  · have hmemory := memory_perform world after (.locate request state)
    rw [← located_entries, ← Memory.lastLevels_recollect, ← hmemory]
    rfl
  · rw [hrun]
    exact lastLevels_of_neverStrands hstrands []

/-- After a button was located, a path that is malformed, a root that is missing, a search that
finds nothing below the remembered root and a root that is forgotten leave its levels. -/
theorem last_levels_window :
    let engine := windowTree.engine {}
    let operations : List (Operation Clock) :=
      [.locate (.root "Class=Window;\\;Class=Panel" 0 true) {},
        .locate (.descendant "Class=Window" "Class=Button" 0 true) {},
        .locate (.root "bogus" 0 true) {}, .locate (.root "Class=Button" 0 true) {},
        .locate (.descendant "Class=Window" "Class=Missing" 0 true) ⟨5⟩, .forgetRoot]
    engine.fresh.neverStrands windowTree.world operations = true
      ∧ (engine.fresh.performAll windowTree.world operations).memory.lastLevels
        = lastLevelsOr []
            ((engine.fresh.journal windowTree.world operations).filterMap Entry.answer?)
      ∧ (engine.fresh.performAll windowTree.world operations).memory.lastLevels.map (·.level)
        = ["Class=Button"] := by
  intro engine operations
  have hstrands : engine.fresh.neverStrands windowTree.world operations = true := by
    decide +kernel
  exact ⟨hstrands, (last_levels windowTree.world engine operations).2.2 hstrands,
    by decide +kernel⟩

end Engine

/-- Two windows side by side. -/
def twinTree : Snapshot where
  roots := [{ className := "A" }, { className := "B" }]

/-- A request that finds nothing below a root that it located on the way: the levels of the root
take the place of those of the last request that was answered. -/
theorem stranded_levels :
    let engine := ((twinTree.engine {}).performAll twinTree.world
      [.locate (.root "Class=A" 0 true) {}])
    let ending := engine.handle twinTree.world (.descendant "Class=B" "Class=C" 0 true) {}
    engine.memory.lastLevels.map (·.level) = ["Class=A"]
      ∧ ending.1 = .ok (.notFound ⟨"Class=C", 0, 0, 1⟩)
      ∧ ending.2.1.memory.lastLevels.map (·.level) = ["Class=B"] := by
  decide +kernel

end Locator
