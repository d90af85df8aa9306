import Locator.Proofs.Polling

/-!
# Requests to a snapshot

A root request polls among the roots. A descendant request polls below the root in use, which is the
one that is remembered or else the one that a root request locates first (`handle_descendant`,
`handle_without_root`). So all that a request visits it visits in rounds (`visits_request`), and the
element it finds is what its last round found (`found_request`).
-/

namespace Locator

namespace Engine

/-! ## The root in use -/

section Any

variable {E σ : Type} {world : World σ E} {state : σ} {engine : Engine E}
  {rootPath path : String} {chain : Chain} {timeoutSecs : Nat} {singlePass : Bool}

def visits (engine : Engine E) (world : World σ E) (request : Request) (state : σ) :
    List (Visit E) :=
  match engine.program request with
  | .error _ => []
  | .ok program => program.visits world state

def elementOf (answer : Except Error (Outcome E)) : Option E :=
  (answer.toOption.bind Outcome.located?).map (·.element)

theorem elementOf_eq_some {answer : Except Error (Outcome E)} {e : E} :
    elementOf answer = some e ↔ ∃ located, answer = .ok (.found located) ∧ located.element = e := by
  rcases answer with error | located | missing
  · exact ⟨nofun, nofun⟩
  · constructor
    · exact fun h => ⟨located, rfl, Option.some.inj h⟩
    · rintro ⟨located, h, rfl⟩
      cases h
      rfl
  · exact ⟨nofun, nofun⟩

theorem elementOf_of_ok {answer : Except Error (Outcome E)} {outcome : Outcome E}
    (h : answer = .ok outcome) : outcome.located?.map (·.element) = elementOf answer := by
  rw [h]
  rfl

def rootRequest (engine : Engine E) (rootPath : String) (singlePass : Bool) : Request :=
  .root rootPath engine.settings.rootRefreshTimeoutSecs singlePass

/-- The root that a descendant request starts from: the one that is remembered, or else the one
that is located first. -/
def rootInUse (engine : Engine E) (world : World σ E) (rootPath : String) (singlePass : Bool)
    (state : σ) : Option E :=
  match engine.memory.rootFor? rootPath with
  | some root => some root
  | none => elementOf (engine.handle world (engine.rootRequest rootPath singlePass) state).1

def rootVisits (engine : Engine E) (world : World σ E) (rootPath : String) (singlePass : Bool)
    (state : σ) : List (Visit E) :=
  match engine.memory.rootFor? rootPath with
  | some _ => []
  | none => engine.visits world (engine.rootRequest rootPath singlePass) state

/-- The state of the world in which the search below the root in use begins. -/
def stateWithRoot (engine : Engine E) (world : World σ E) (rootPath : String) (singlePass : Bool)
    (state : σ) : σ :=
  match engine.memory.rootFor? rootPath with
  | some _ => state
  | none => (engine.handle world (engine.rootRequest rootPath singlePass) state).2.2

theorem handle_of_program {request : Request} {program : Search E (Outcome E)}
    (h : engine.program request = .ok program) (world : World σ E) (state : σ) :
    (engine.handle world request state).1 = (program.run world engine.memory state).result
      ∧ engine.visits world request state = program.visits world state := by
  simp only [handle, visits, h, and_self]

theorem handle_state_of_program {request : Request} {program : Search E (Outcome E)}
    (h : engine.program request = .ok program) (world : World σ E) (state : σ) :
    (engine.handle world request state).2.2 = (program.run world engine.memory state).state := by
  simp only [handle, h]

theorem handle_of_refused {request : Request} {error : Error}
    (h : engine.program request = .error error) (world : World σ E) (state : σ) :
    (engine.handle world request state).1 = .error error
      ∧ engine.visits world request state = [] := by
  simp only [handle, visits, h, and_self]

theorem program_root (h : readPath path = .ok chain) :
    engine.program (.root path timeoutSecs singlePass)
      = .ok (engine.locateRoot chain timeoutSecs singlePass) := by
  simp only [program, h]
  rfl

theorem program_root_unreadable {error : Error} (h : readPath path = .error error) :
    engine.program (.root path timeoutSecs singlePass) = .error error := by
  simp only [program, h]
  rfl

theorem program_descendant_unreadable {error : Error} (h : readPath path = .error error) :
    engine.program (.descendant rootPath path timeoutSecs singlePass) = .error error := by
  simp only [program, h]
  rfl

theorem program_remembered {root : E} (hchain : readPath path = .ok chain)
    (h : engine.memory.rootFor? rootPath = some root) :
    engine.program (.descendant rootPath path timeoutSecs singlePass)
      = .ok (engine.locateBelow engine.memory.cachedRoot root chain timeoutSecs singlePass) := by
  simp only [program, hchain, h]
  rfl

theorem program_not_remembered {rootChain : Chain} (hchain : readPath path = .ok chain)
    (h : engine.memory.rootFor? rootPath = none) (hrootChain : readPath rootPath = .ok rootChain) :
    engine.program (.descendant rootPath path timeoutSecs singlePass)
      = .ok (engine.locateRootAndBelow rootChain chain timeoutSecs singlePass) := by
  simp only [program, hchain, h, hrootChain]
  rfl

theorem program_root_of_descendant_unreadable {error : Error} (hchain : readPath path = .ok chain)
    (h : engine.memory.rootFor? rootPath = none) (hrootPath : readPath rootPath = .error error) :
    engine.program (.descendant rootPath path timeoutSecs singlePass) = .error error := by
  simp only [program, hchain, h, hrootPath]
  rfl

theorem rootInUse_of_remembered {root : E} (h : engine.memory.rootFor? rootPath = some root) :
    engine.rootInUse world rootPath singlePass state = some root
      ∧ engine.rootVisits world rootPath singlePass state = [] := by
  simp only [rootInUse, rootVisits, h, and_self]

theorem stateWithRoot_of_readable (h : engine.memory.rootFor? rootPath = none)
    (hpath : readPath rootPath = .ok chain) :
    engine.stateWithRoot world rootPath singlePass state
      = ((engine.locateRoot chain engine.settings.rootRefreshTimeoutSecs singlePass).run world
          engine.memory state).state := by
  have hprogram : engine.program (engine.rootRequest rootPath singlePass) = .ok _ :=
    program_root hpath
  simp only [stateWithRoot, h, handle_state_of_program hprogram]

theorem rootInUse_of_unreadable {error : Error} (h : engine.memory.rootFor? rootPath = none)
    (hpath : readPath rootPath = .error error) :
    engine.rootInUse world rootPath singlePass state = none
      ∧ engine.rootVisits world rootPath singlePass state = [] := by
  have hprogram : engine.program (engine.rootRequest rootPath singlePass) = .error error :=
    program_root_unreadable hpath
  obtain ⟨hhandle, hvisits⟩ := handle_of_refused hprogram world state
  simp only [rootInUse, rootVisits, h, hhandle, hvisits, and_true]
  rfl

theorem rootInUse_of_readable (h : engine.memory.rootFor? rootPath = none)
    (hpath : readPath rootPath = .ok chain) :
    engine.rootInUse world rootPath singlePass state
        = elementOf ((engine.locateRoot chain engine.settings.rootRefreshTimeoutSecs
            singlePass).run world engine.memory state).result
      ∧ engine.rootVisits world rootPath singlePass state
        = (engine.locateRoot chain engine.settings.rootRefreshTimeoutSecs singlePass).visits world
            state := by
  have hprogram : engine.program (engine.rootRequest rootPath singlePass) = .ok _ :=
    program_root hpath
  obtain ⟨hhandle, hvisits⟩ := handle_of_program hprogram world state
  simp only [rootInUse, rootVisits, h, hhandle, hvisits, and_self]

/-- A descendant request with a root in use searches below that root, whatever was done before to
locate it. -/
theorem handle_descendant {root : E} (timeoutSecs : Nat) (hchain : readPath path = .ok chain)
    (hroot : engine.rootInUse world rootPath singlePass state = some root) :
    ∃ cachedRoot memory later,
      (engine.handle world (.descendant rootPath path timeoutSecs singlePass) state).1
        = ((engine.locateBelow cachedRoot root chain timeoutSecs singlePass).run world memory
            later).result
      ∧ engine.visits world (.descendant rootPath path timeoutSecs singlePass) state
        = engine.rootVisits world rootPath singlePass state
          ++ (engine.locateBelow cachedRoot root chain timeoutSecs singlePass).visits world
              later
      ∧ later = engine.stateWithRoot world rootPath singlePass state
      ∧ (engine.handle world (.descendant rootPath path timeoutSecs singlePass) state).2.2
        = ((engine.locateBelow cachedRoot root chain timeoutSecs singlePass).run world memory
            later).state := by
  rcases hremembered : engine.memory.rootFor? rootPath with _ | remembered
  · rcases hrootChain : readPath rootPath with error | rootChain
    · rw [(rootInUse_of_unreadable hremembered hrootChain).1] at hroot
      cases hroot
    obtain ⟨hinuse, hrootVisits⟩ := rootInUse_of_readable hremembered hrootChain
    rw [hinuse] at hroot
    have hprogram : engine.program (.descendant rootPath path timeoutSecs singlePass) = .ok _ :=
      program_not_remembered hchain hremembered hrootChain
    obtain ⟨hhandle, hvisits⟩ := handle_of_program hprogram world state
    rw [hhandle, hvisits, hrootVisits, handle_state_of_program hprogram,
      stateWithRoot_of_readable hremembered hrootChain]
    unfold locateRootAndBelow
    rw [Search.run_bind, Search.visits_bind _ _ engine.memory]
    rcases hrun : (engine.locateRoot rootChain engine.settings.rootRefreshTimeoutSecs
      singlePass).run world engine.memory state with ⟨error | located | missing, memory, later⟩
    · rw [hrun] at hroot
      cases hroot
    · rw [hrun] at hroot
      cases hroot
      exact ⟨_, memory, later, rfl, rfl, rfl, rfl⟩
    · rw [hrun] at hroot
      cases hroot
  · obtain ⟨hinuse, hrootVisits⟩ := rootInUse_of_remembered hremembered
    rw [hinuse] at hroot
    cases hroot
    have hprogram : engine.program (.descendant rootPath path timeoutSecs singlePass) = .ok _ :=
      program_remembered hchain hremembered
    obtain ⟨hhandle, hvisits⟩ := handle_of_program hprogram world state
    refine ⟨_, _, _, hhandle, by rw [hvisits, hrootVisits, List.nil_append], ?_,
      handle_state_of_program hprogram world state⟩
    simp only [stateWithRoot, hremembered]

/-- A descendant request without a root in use finds nothing, and visits nothing more than what was
visited to locate one. -/
theorem handle_without_root (timeoutSecs : Nat) (hchain : readPath path = .ok chain)
    (hroot : engine.rootInUse world rootPath singlePass state = none) :
    (∀ located, (engine.handle world (.descendant rootPath path timeoutSecs singlePass) state).1
        ≠ .ok (.found located))
      ∧ engine.visits world (.descendant rootPath path timeoutSecs singlePass) state
        = engine.rootVisits world rootPath singlePass state := by
  rcases hremembered : engine.memory.rootFor? rootPath with _ | remembered
  · rcases hrootChain : readPath rootPath with error | rootChain
    · obtain ⟨hhandle, hvisits⟩ := handle_of_refused
        (program_root_of_descendant_unreadable hchain hremembered hrootChain) world state
      rw [hhandle, hvisits, (rootInUse_of_unreadable hremembered hrootChain).2]
      exact ⟨nofun, rfl⟩
    obtain ⟨hinuse, hrootVisits⟩ := rootInUse_of_readable hremembered hrootChain
    rw [hinuse] at hroot
    obtain ⟨hhandle, hvisits⟩ :=
      handle_of_program (program_not_remembered hchain hremembered hrootChain) world state
    rw [hhandle, hvisits, hrootVisits]
    unfold locateRootAndBelow
    rw [Search.run_bind, Search.visits_bind _ _ engine.memory]
    rcases hrun : (engine.locateRoot rootChain engine.settings.rootRefreshTimeoutSecs
      singlePass).run world engine.memory state with ⟨error | located | missing, memory, later⟩
    · exact ⟨nofun, List.append_nil _⟩
    · rw [hrun] at hroot
      cases hroot
    · exact ⟨nofun, List.append_nil _⟩
  · rw [(rootInUse_of_remembered hremembered).1] at hroot
    cases hroot

end Any

/-! ## Rounds -/

section Rounds

variable {tree : Snapshot} {engine : Engine Place} {request : Request} {time : Clock}
  {chain : Chain} {timeoutSecs : Nat} {singlePass : Bool}

/-- What a request searches for: the levels of a chain from a position on, the first of them among
the roots or below the root in use. -/
inductive Searches (engine : Engine Place) (tree : Snapshot) (time : Clock) :
    Request → Chain → Option Place → Nat → Prop
  | root {path : String} {timeoutSecs : Nat} {singlePass : Bool} {chain : Chain}
      (hchain : readPath path = .ok chain) :
      Searches engine tree time (.root path timeoutSecs singlePass) chain none 0
  | descendant {rootPath path : String} {timeoutSecs : Nat} {singlePass : Bool} {chain : Chain}
      {root : Place} (hchain : readPath path = .ok chain)
      (hroot : engine.rootInUse tree.world rootPath singlePass time = some root) :
      Searches engine tree time (.descendant rootPath path timeoutSecs singlePass) chain (some root)
        (firstSearched engine.settings chain)

variable (hreach : tree.height ≤ engine.reach)
include hreach

theorem locateRoot_inRounds (chain : Chain) (timeoutSecs : Nat) (singlePass : Bool) (time : Clock) :
    Search.InRounds tree time chain 0 chain.rootGoal
      (engine.locateRoot chain timeoutSecs singlePass) := by
  unfold locateRoot
  refine (Search.pollFromNow_inRounds _ (Search.rootPass_isPass hreach rfl) time).andRemember ?_
  rintro (located | missing) memory time
  · exact ⟨rfl, rfl⟩
  · exact ⟨rfl, rfl⟩

theorem locateBelow_inRounds (cachedRoot : Option (String × Place)) {root : Place}
    {goal : Goal Place} (hgoal : goalBelow? engine.settings chain root = some goal)
    (timeoutSecs : Nat) (singlePass : Bool) (time : Clock) :
    Search.InRounds tree time chain goal.position goal
      (engine.locateBelow cachedRoot root chain timeoutSecs singlePass) := by
  have hanchor : goal.anchor = some root := (Goal.ofLevels?_eq_some.1 hgoal).1
  unfold locateBelow
  rw [hgoal]
  refine (Search.pollFromNow_inRounds _ (Search.descendantPass_isPass hreach hanchor)
    time).andRemember ?_
  rintro (located | missing) memory time
  · exact ⟨rfl, rfl⟩
  · exact ⟨rfl, rfl⟩

theorem visits_root {path : String} {v : Visit Place}
    (hv : v ∈ engine.visits tree.world (.root path timeoutSecs singlePass) time) :
    ∃ chain result after vs, readPath path = .ok chain
      ∧ Round tree chain chain.rootGoal result after vs ∧ v ∈ vs
      ∧ vs <:+: engine.visits tree.world (.root path timeoutSecs singlePass) time := by
  rcases hchain : readPath path with error | chain
  · rw [(handle_of_refused (program_root_unreadable hchain) tree.world time).2] at hv
    exact absurd hv List.not_mem_nil
  · rw [(handle_of_program (program_root hchain) tree.world time).2] at hv ⊢
    obtain ⟨result, after, vs, h⟩ :=
      (locateRoot_inRounds hreach chain timeoutSecs singlePass time).visits v hv
    exact ⟨chain, result, after, vs, rfl, h⟩

theorem rootVisits_rounds {rootPath : String} {v : Visit Place}
    (hv : v ∈ engine.rootVisits tree.world rootPath singlePass time) :
    ∃ chain result after vs, Round tree chain chain.rootGoal result after vs ∧ v ∈ vs
      ∧ vs <:+: engine.rootVisits tree.world rootPath singlePass time := by
  unfold rootVisits at hv ⊢
  rcases hremembered : engine.memory.rootFor? rootPath with _ | remembered
  · rw [hremembered] at hv
    obtain ⟨chain, result, after, vs, -, h⟩ := visits_root hreach hv
    exact ⟨chain, result, after, vs, h⟩
  · rw [hremembered] at hv
    exact absurd hv List.not_mem_nil

theorem visits_locateBelow {cachedRoot : Option (String × Place)} {root : Place} {v : Visit Place}
    (hv : v ∈ (engine.locateBelow cachedRoot root chain timeoutSecs singlePass).visits
      tree.world time) :
    ∃ goal result after vs, goalBelow? engine.settings chain root = some goal
      ∧ Round tree chain goal result after vs ∧ v ∈ vs
      ∧ vs <:+: (engine.locateBelow cachedRoot root chain timeoutSecs singlePass).visits
          tree.world time := by
  rcases hgoal : goalBelow? engine.settings chain root with _ | goal
  · simp only [locateBelow, hgoal] at hv
    exact absurd hv List.not_mem_nil
  · obtain ⟨result, after, vs, h⟩ :=
      (locateBelow_inRounds hreach cachedRoot hgoal timeoutSecs singlePass time).visits v hv
    exact ⟨goal, result, after, vs, rfl, h⟩

theorem found_locateBelow {cachedRoot : Option (String × Place)} {root : Place}
    {memory : Memory Place} {located : Located Place}
    (hfound : ((engine.locateBelow cachedRoot root chain timeoutSecs singlePass).run tree.world
      memory time).result = .ok (.found located)) :
    (some root = some located.element ∧ chain.levels.drop (firstSearched engine.settings chain) = []
      ∧ located.levels = [])
    ∨ ∃ goal earlier vs after, goalBelow? engine.settings chain root = some goal
      ∧ (engine.locateBelow cachedRoot root chain timeoutSecs singlePass).visits tree.world time
        = earlier ++ vs
      ∧ Round tree chain goal (some located.element) after vs
      ∧ located.levels = chain.matchesFrom (firstSearched engine.settings chain) after.marks := by
  rcases hgoal : goalBelow? engine.settings chain root with _ | goal
  · simp only [locateBelow, hgoal] at hfound
    cases hfound
    exact .inl ⟨rfl, Goal.ofLevels?_eq_none.1 hgoal, rfl⟩
  · obtain ⟨earlier, vs, after, h⟩ :=
      (locateBelow_inRounds hreach cachedRoot hgoal timeoutSecs singlePass time).found
        memory located hfound
    rw [(Goal.ofLevels?_eq_some.1 hgoal).2.1] at h
    exact .inr ⟨goal, earlier, vs, after, rfl, h⟩

/-- All that a request visits it visits in rounds: in search of a root, or of what the request
names. -/
theorem visits_request {v : Visit Place} (hv : v ∈ engine.visits tree.world request time) :
    ∃ chain goal result after vs, Round tree chain goal result after vs ∧ v ∈ vs
      ∧ vs <:+: engine.visits tree.world request time
      ∧ (goal = chain.rootGoal ∨ ∃ anchor start,
          engine.Searches tree time request chain anchor start
            ∧ Goal.ofLevels? anchor start (chain.levels.drop start) = some goal) := by
  rcases request with ⟨path, timeoutSecs, singlePass⟩ | ⟨rootPath, path, timeoutSecs, singlePass⟩
  · obtain ⟨chain, result, after, vs, -, hround, hmem, hinfix⟩ := visits_root hreach hv
    exact ⟨chain, _, result, after, vs, hround, hmem, hinfix, .inl rfl⟩
  rcases hchain : readPath path with error | chain
  · rw [(handle_of_refused (program_descendant_unreadable hchain) tree.world time).2] at hv
    exact absurd hv List.not_mem_nil
  rcases hroot : engine.rootInUse tree.world rootPath singlePass time with _ | root
  · rw [(handle_without_root timeoutSecs hchain hroot).2] at hv ⊢
    obtain ⟨rootChain, result, after, vs, hround, hmem, hinfix⟩ := rootVisits_rounds hreach hv
    exact ⟨rootChain, _, result, after, vs, hround, hmem, hinfix, .inl rfl⟩
  obtain ⟨cachedRoot, memory, later, -, hvisits, -⟩ := handle_descendant timeoutSecs hchain hroot
  rw [hvisits] at hv ⊢
  rcases List.mem_append.1 hv with hv | hv
  · obtain ⟨rootChain, result, after, vs, hround, hmem, hinfix⟩ := rootVisits_rounds hreach hv
    exact ⟨rootChain, _, result, after, vs, hround, hmem,
      hinfix.trans (List.prefix_append _ _).isInfix, .inl rfl⟩
  · obtain ⟨goal, result, after, vs, hgoal, hround, hmem, hinfix⟩ := visits_locateBelow hreach hv
    exact ⟨chain, goal, result, after, vs, hround, hmem,
      hinfix.trans (List.suffix_append _ _).isInfix,
      .inr ⟨some root, _, .descendant hchain hroot, hgoal⟩⟩

/-- What a request finds is what its last round found, or the root in use if there is nothing to
search for below it. -/
theorem found_request {located : Located Place}
    (hfound : (engine.handle tree.world request time).1 = .ok (.found located)) :
    ∃ chain anchor start, engine.Searches tree time request chain anchor start
      ∧ ((anchor = some located.element ∧ chain.levels.drop start = [] ∧ located.levels = [])
        ∨ ∃ goal earlier vs after,
          Goal.ofLevels? anchor start (chain.levels.drop start) = some goal
          ∧ engine.visits tree.world request time = earlier ++ vs
          ∧ Round tree chain goal (some located.element) after vs
          ∧ located.levels = chain.matchesFrom start after.marks) := by
  rcases request with ⟨path, timeoutSecs, singlePass⟩ | ⟨rootPath, path, timeoutSecs, singlePass⟩
  · rcases hchain : readPath path with error | chain
    · rw [(handle_of_refused (program_root_unreadable hchain) tree.world time).1] at hfound
      cases hfound
    · obtain ⟨hhandle, hvisits⟩ := handle_of_program (program_root hchain) tree.world time
      rw [hhandle] at hfound
      rw [hvisits]
      obtain ⟨earlier, vs, after, h⟩ :=
        (locateRoot_inRounds hreach chain timeoutSecs singlePass time).found _ _ hfound
      exact ⟨chain, none, 0, .root hchain, .inr ⟨_, earlier, vs, after, rfl, h⟩⟩
  rcases hchain : readPath path with error | chain
  · rw [(handle_of_refused (program_descendant_unreadable hchain) tree.world time).1] at hfound
    cases hfound
  rcases hroot : engine.rootInUse tree.world rootPath singlePass time with _ | root
  · exact absurd hfound ((handle_without_root timeoutSecs hchain hroot).1 located)
  obtain ⟨cachedRoot, memory, later, hhandle, hvisits, -⟩ :=
    handle_descendant timeoutSecs hchain hroot
  rw [hhandle] at hfound
  refine ⟨chain, some root, _, .descendant hchain hroot, ?_⟩
  rcases found_locateBelow hreach hfound with h | ⟨goal, earlier, vs, after, hgoal, hbelow, h⟩
  · exact .inl h
  · exact .inr ⟨goal, _, vs, after, hgoal, by rw [hvisits, hbelow, ← List.append_assoc], h⟩

end Rounds

/-! ## A single pass -/

section SinglePass

variable {tree : Snapshot} {engine : Engine Place} (hlisted : tree.unlisted = false)
  (hreach : tree.height ≤ engine.reach) {root : Place} {node : Node}
  (hroot : tree.node? root = some node) {chain : Chain} {goal : Goal Place}
  (hgoal : goalBelow? engine.settings chain root = some goal)
  (cachedRoot : Option (String × Place)) (timeoutSecs : Nat) (memory : Memory Place) (time : Clock)
include hlisted hreach hroot hgoal

/-- A single pass is one scan, from counters that have counted nothing. -/
theorem locateBelow_scan :
    ∃ result after vs,
      Scan tree goal (tree.children root) (Progress.start chain).unmarked.newScope result after vs
      ∧ ∃ outcome,
        ((engine.locateBelow cachedRoot root chain timeoutSecs true).run tree.world memory
          time).result = .ok outcome ∧ outcome.located?.map (·.element) = result := by
  have hpass : Search.GoesBy tree time
      (Search.descendantPass engine.reach root goal (Progress.start chain).unmarked) goal
      (tree.children root) (Progress.start chain).unmarked.newScope :=
    Search.descendantPass_goesBy hlisted hreach hroot goal _
  obtain ⟨result, after, vs, hrun, hscan⟩ := hpass
  obtain ⟨outcome, hpoll, houtcome⟩ :=
    Search.pollFromNow_singlePass goal.position (engine.patience timeoutSecs true) rfl hrun
  refine ⟨result, after, vs, hscan, outcome, ?_, houtcome⟩
  unfold locateBelow
  simp only [hgoal]
  rw [hpoll.run_bind]
  cases outcome <;> rfl

theorem locateBelow_singlePass :
    ∃ result after vs, Round tree chain goal result after vs
      ∧ ∃ outcome,
        ((engine.locateBelow cachedRoot root chain timeoutSecs true).run tree.world memory
          time).result = .ok outcome ∧ outcome.located?.map (·.element) = result := by
  have hanchor : goal.anchor = some root := (Goal.ofLevels?_eq_some.1 hgoal).1
  obtain ⟨result, after, vs, hscan, hends⟩ :=
    locateBelow_scan hlisted hreach hroot hgoal cachedRoot timeoutSecs memory time
  refine ⟨result, after, vs, ⟨{}, ?_⟩, hends⟩
  rw [hanchor, ← Marks.clear_eq_blank (List.length_map _)]
  exact hscan

end SinglePass

end Engine

/-- A window with a panel, in which there is a button, and a button beside the panel. -/
def windowTree : Snapshot where
  roots :=
    [{ className := "Window"
       children :=
        [{ className := "Panel", children := [{ className := "Button" }] },
          { className := "Button" }] }]

end Locator
