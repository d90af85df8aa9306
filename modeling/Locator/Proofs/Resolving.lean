import Locator.Proofs.Refusing
import Locator.Proofs.Selecting
import Locator.Report

/-!
# Every place resolves

A snapshot that does not change and whose elements can be listed answers every question that a
search asks, since a search only asks about elements that it was told of. So no request fails but
for a recognition string that cannot be read, what is found and what is remembered is in the
snapshot, and what is found can be reported (`Engine.resolves_always`).

The invariant is that the root which is remembered is in the snapshot (`Memory.Resolves`). Programs
that keep it and come to an answer pass through composition (`Search.Succeeds.bind`).
-/

namespace Locator

open Search

variable {α β : Type} {tree : Snapshot}

/-- The element that was found is in the snapshot. -/
def Outcome.Resolves (tree : Snapshot) (outcome : Outcome Place) : Prop :=
  ∀ located, outcome = .found located → (tree.node? located.element).isSome

theorem Outcome.resolves_notFound {missing : NotFound} :
    (Outcome.notFound missing).Resolves tree :=
  nofun

/-- The root that is remembered is in the snapshot. -/
def Memory.Resolves (tree : Snapshot) (memory : Memory Place) : Prop :=
  ∀ path root, memory.cachedRoot = some (path, root) → (tree.node? root).isSome

namespace Search

/-- A program comes to a good answer and leaves a memory whose root is in the snapshot, if it is
started with one. -/
def Succeeds (tree : Snapshot) (program : Search Place α) (good : α → Prop) : Prop :=
  ∀ memory time, Memory.Resolves tree memory → ∃ answer after later,
    program.run tree.world memory time = ⟨.ok answer, after, later⟩
      ∧ good answer ∧ Memory.Resolves tree after

namespace Succeeds

variable {program : Search Place α} {good : α → Prop} {better : β → Prop}

theorem done {answer : α} (h : good answer) : Succeeds tree (.done answer) good :=
  fun memory time hmemory => ⟨answer, memory, time, rfl, h, hmemory⟩

theorem clock {go : Nat → Search Place α} (h : ∀ now, Succeeds tree (go now) good) :
    Succeeds tree (.clock go) good :=
  fun memory time hmemory => h _ memory time hmemory

theorem sleep {ms : Nat} (h : Succeeds tree program good) :
    Succeeds tree (.sleep ms program) good :=
  fun memory time hmemory => h memory (tree.world.sleep ms time) hmemory

theorem remember {remembered : Memory Place} (hremembered : remembered.Resolves tree)
    (h : Succeeds tree program good) : Succeeds tree (.remember remembered program) good :=
  fun _ time _ => h remembered time hremembered

theorem bind (h : Succeeds tree program good) {next : α → Search Place β}
    (hnext : ∀ answer, good answer → Succeeds tree (next answer) better) :
    Succeeds tree (program >>= next) better := by
  intro memory time hmemory
  obtain ⟨answer, between, later, hrun, hgood, hbetween⟩ := h memory time hmemory
  rw [run_bind, hrun]
  exact hnext answer hgood between later hbetween

theorem of_returns (h : ∀ time, ∃ answer vs,
    Returns tree.world time program answer vs ∧ good answer) : Succeeds tree program good := by
  intro memory time hmemory
  obtain ⟨answer, vs, hreturns, hgood⟩ := h time
  exact ⟨answer, memory, time, hreturns.run memory, hgood, hmemory⟩

end Succeeds

/-! ## Polling -/

/-- A pass finds nothing that is not in the snapshot. -/
def Finding.Resolves (tree : Snapshot) (finding : Finding Place) : Prop :=
  ∀ e, finding.1 = some e → (tree.node? e).isSome

theorem PassOf.succeeds {engine : Engine Place} {goal : Goal Place}
    {pass : Progress → Search Place (Finding Place)} (h : PassOf engine goal pass)
    (hlisted : tree.unlisted = false) (hreach : tree.height ≤ engine.reach)
    (hthere : ∀ root, goal.anchor = some root → (tree.node? root).isSome) (p : Progress) :
    Succeeds tree (pass p) (Finding.Resolves tree) := by
  refine .of_returns fun time => ?_
  obtain ⟨result, after, vs, hreturns, hscan⟩ := h.goesBy hlisted hreach hthere p time
  exact ⟨(result, after), vs, hreturns, hscan.isSome_of_found⟩

section Poll

variable {pass : Progress → Search Place (Finding Place)}
  (hpass : ∀ p, Succeeds tree (pass p) (Finding.Resolves tree)) (chain : Chain) (start : Nat)
  (patience : Patience)
include hpass

theorem poll_succeeds (started spare passes : Nat) (p : Progress) :
    Succeeds tree (poll chain start patience pass started spare passes p)
      (Outcome.Resolves tree) := by
  induction spare using Nat.strong_induction_on generalizing passes p with
  | _ spare ih =>
  unfold poll
  refine (hpass p.unmarked).bind ?_
  rintro ⟨found, after⟩ hfound
  cases found with
  | some e =>
    refine .done ?_
    rintro _ ⟨⟩
    exact hfound e rfl
  | none =>
    refine .clock fun now => ?_
    change Succeeds tree (if _ then _ else _) _
    split
    · exact .done Outcome.resolves_notFound
    · rcases spare with _ | spare
      · exact .done Outcome.resolves_notFound
      · exact .sleep (ih spare (Nat.lt_succ_self spare) (passes + 1) after)

theorem pollFromNow_succeeds :
    Succeeds tree (pollFromNow chain start patience pass) (Outcome.Resolves tree) :=
  .clock fun now => poll_succeeds hpass chain start patience now _ 0 _

end Poll

end Search

/-! ## Requests -/

namespace Engine

variable {engine : Engine Place} {request : Request}

/-- The root that an engine remembers is in the snapshot, and the engine reaches all that is. -/
structure Resolves (tree : Snapshot) (engine : Engine Place) : Prop where
  reach : tree.height ≤ engine.reach
  memory : engine.memory.Resolves tree

section Listed

variable (hlisted : tree.unlisted = false)
include hlisted

theorem locateRoot_succeeds (hreach : tree.height ≤ engine.reach) (chain : Chain)
    (timeoutSecs : Nat) (singlePass : Bool) :
    Succeeds tree (engine.locateRoot chain timeoutSecs singlePass) (Outcome.Resolves tree) := by
  unfold locateRoot
  have hpass := (PassOf.root chain).succeeds hlisted hreach nofun
  refine (pollFromNow_succeeds hpass chain 0 _).bind fun outcome houtcome => ?_
  cases outcome with
  | found located =>
    refine .remember ?_ (.done houtcome)
    rintro _ _ ⟨⟩
    exact houtcome located rfl
  | notFound missing => exact .done houtcome

theorem locateBelow_succeeds (hreach : tree.height ≤ engine.reach)
    {cachedRoot : Option (String × Place)} (hcached : Memory.Resolves tree ⟨cachedRoot, []⟩)
    {root : Place} (hroot : (tree.node? root).isSome) (chain : Chain) (timeoutSecs : Nat)
    (singlePass : Bool) :
    Succeeds tree (engine.locateBelow cachedRoot root chain timeoutSecs singlePass)
      (Outcome.Resolves tree) := by
  unfold locateBelow
  rcases hgoal : goalBelow? engine.settings chain root with _ | goal
  · refine .remember hcached (.done ?_)
    rintro _ ⟨⟩
    exact hroot
  have hanchor : goal.anchor = some root := (Goal.ofLevels?_eq_some.1 hgoal).1
  have hpass := (PassOf.descendant hgoal).succeeds hlisted hreach fun e he =>
    Option.some.inj (hanchor.symm.trans he) ▸ hroot
  refine (pollFromNow_succeeds hpass chain goal.position _).bind fun outcome houtcome => ?_
  cases outcome with
  | found located => exact .remember hcached (.done houtcome)
  | notFound missing => exact .done houtcome

theorem locateRootAndBelow_succeeds (hreach : tree.height ≤ engine.reach)
    (rootChain chain : Chain) (timeoutSecs : Nat) (singlePass : Bool) :
    Succeeds tree (engine.locateRootAndBelow rootChain chain timeoutSecs singlePass)
      (Outcome.Resolves tree) := by
  unfold locateRootAndBelow
  refine (locateRoot_succeeds hlisted hreach rootChain _ singlePass).bind
    fun outcome houtcome => ?_
  cases outcome with
  | found located =>
    have hroot := houtcome located rfl
    refine locateBelow_succeeds hlisted hreach ?_ hroot chain timeoutSecs singlePass
    rintro _ _ ⟨⟩
    exact hroot
  | notFound missing => exact .done houtcome

theorem Resolves.program (h : engine.Resolves tree) {program : Search Place (Outcome Place)}
    (hprogram : engine.program request = .ok program) :
    Succeeds tree program (Outcome.Resolves tree) := by
  cases request with
  | root path timeoutSecs singlePass =>
    rcases hchain : readPath path with error | chain
    · rw [program_root_unreadable hchain] at hprogram
      cases hprogram
    · rw [program_root hchain] at hprogram
      cases hprogram
      exact locateRoot_succeeds hlisted h.reach chain timeoutSecs singlePass
  | descendant rootPath path timeoutSecs singlePass =>
    rcases hchain : readPath path with error | chain
    · rw [program_descendant_unreadable hchain] at hprogram
      cases hprogram
    rcases hremembered : engine.memory.rootFor? rootPath with _ | root
    · rcases hrootChain : readPath rootPath with error | rootChain
      · rw [program_root_of_descendant_unreadable hchain hremembered hrootChain] at hprogram
        cases hprogram
      · rw [program_not_remembered hchain hremembered hrootChain] at hprogram
        cases hprogram
        exact locateRootAndBelow_succeeds hlisted h.reach rootChain chain timeoutSecs singlePass
    · rw [program_remembered hchain hremembered] at hprogram
      cases hprogram
      have hroot := h.memory rootPath root (Memory.rootFor?_eq_some.1 hremembered)
      exact locateBelow_succeeds hlisted h.reach h.memory hroot chain timeoutSecs singlePass

/-- A request leaves an engine whose root is in the snapshot. It is refused for a recognition string
that cannot be read, or else it comes to an outcome that is in the snapshot. -/
theorem Resolves.handle (h : engine.Resolves tree) (request : Request) (time : Clock) :
    (engine.handle tree.world request time).2.1.Resolves tree
      ∧ ((∃ path fault, engine.program request = .error (.malformedPath path fault)
          ∧ (engine.handle tree.world request time).1 = .error (.malformedPath path fault))
        ∨ ∃ program outcome, engine.program request = .ok program
          ∧ (engine.handle tree.world request time).1 = .ok outcome ∧ outcome.Resolves tree) := by
  rcases hprogram : engine.program request with error | program
  · obtain ⟨path, fault, -, -, rfl⟩ := malformed?_of_refused hprogram
    rw [handle_eq_of_refused hprogram]
    exact ⟨h, .inl ⟨path, fault.message, rfl, rfl⟩⟩
  · obtain ⟨outcome, after, later, hrun, houtcome, hafter⟩ :=
      h.program hlisted hprogram engine.memory time h.memory
    simp only [Engine.handle, hprogram, hrun]
    exact ⟨⟨h.reach, hafter⟩, .inr ⟨program, outcome, rfl, rfl, houtcome⟩⟩

theorem Resolves.perform (h : engine.Resolves tree) (operation : Operation Clock) :
    (engine.perform tree.world operation).Resolves tree := by
  cases operation with
  | locate request time => exact (h.handle hlisted request time).1
  | forgetRoot => exact ⟨h.reach, nofun⟩

theorem Resolves.performAll (operations : List (Operation Clock)) (h : engine.Resolves tree) :
    (engine.performAll tree.world operations).Resolves tree := by
  induction operations generalizing engine with
  | nil => exact h
  | cons operation operations ih => exact ih (h.perform hlisted operation)

end Listed

end Engine

/-! ## Questions -/

/-- Where the answers never change, the questions of a program that all were answered have an
answer. -/
theorem Search.exists_answer_of_answered {σ E : Type} {world : World σ E} {answers : Oracle E}
    (hstill : ∀ state, world.Answers state answers) (program : Search E α) :
    ∀ state, Answered (program.history world state) →
      ∀ query ∈ questions (program.history world state), ∃ answer, answers query = .ok answer := by
  induction program with
  | done _ => exact fun _ _ query hquery => absurd hquery List.not_mem_nil
  | ask query go ih =>
    intro state hall
    rcases hanswer : answers query with error | answer
    · simp only [history, hstill state query, hanswer] at hall
      cases hall (.failed error) (by simp)
    · simp only [history, hstill state query, hanswer, Answered, List.forall_mem_cons,
        questions_asked] at hall ⊢
      exact ⟨⟨answer, rfl⟩, ih answer state hall.2⟩
  | clock _ ih => exact fun state => ih (world.now state) state
  | sleep _ _ ih => exact fun state hall => ih _ (List.forall_mem_cons.1 hall).2
  | remember _ _ ih => exact fun state hall => ih state (List.forall_mem_cons.1 hall).2
  | visit _ _ ih => exact ih

/-! ## Reports -/

/-- What is reported of the node at a place. -/
def Node.reportAt (node : Node) (place : Place) : ElementReport where
  place
  className := node.className
  resolvedType := node.typeOrClass
  ident := node.ident
  name := node.name
  caption := node.caption
  text := node.text

theorem Snapshot.node_of_isSome {place : Place} (h : (tree.node? place).isSome) :
    ∃ node, tree.node place = .ok node := by
  obtain ⟨node, hnode⟩ := Option.isSome_iff_exists.1 h
  exact ⟨node, by rw [Snapshot.node, hnode]⟩

theorem LocateReport.ofLocated_of_node {located : Located Place} {node : Node}
    (h : tree.node located.element = .ok node) :
    ElementReport.describe tree located.element = .ok (node.reportAt located.element)
      ∧ LocateReport.ofLocated tree located
        = .ok ⟨node.reportAt located.element, located.passes, located.levels⟩ := by
  have hdescribe : ElementReport.describe tree located.element
      = .ok (node.reportAt located.element) := by
    rw [ElementReport.describe, h]
    rfl
  refine ⟨hdescribe, ?_⟩
  rw [LocateReport.ofLocated, hdescribe]
  rfl

namespace Engine

/-- Over a snapshot that does not change and can be listed, after any requests: the root that is
remembered is in the snapshot, every question that a request asks has an answer, a request fails for
a malformed path only, and what it finds is in the snapshot and is reported as it is there. -/
theorem resolves_always {tree : Snapshot} (hlisted : tree.unlisted = false) (settings : Settings)
    (operations : List (Operation Clock)) :
    let engine := (tree.engine settings).performAll tree.world operations
    (∀ path root, engine.memory.cachedRoot = some (path, root) →
      ∃ node, tree.node root = .ok node)
    ∧ ∀ request time,
      (∀ query ∈ questions (engine.history tree.world request time),
        ∃ answer, tree.answer query = .ok answer)
      ∧ (∀ error, (engine.handle tree.world request time).1 = .error error →
        error.isAdapterFailure = false ∧ ∃ path reason, error = .malformedPath path reason)
      ∧ ∀ located, (engine.handle tree.world request time).1 = .ok (.found located) →
        ∃ node, tree.node located.element = .ok node
          ∧ ElementReport.describe tree located.element = .ok (node.reportAt located.element)
          ∧ LocateReport.ofLocated tree located
            = .ok ⟨node.reportAt located.element, located.passes, located.levels⟩ := by
  intro engine
  have hresolves : engine.Resolves tree := by
    refine Resolves.performAll hlisted operations ⟨Nat.le_refl tree.height, ?_⟩
    intro path root hroot
    cases hroot
  refine ⟨fun path root hroot => Snapshot.node_of_isSome (hresolves.memory path root hroot),
    fun request time => ?_⟩
  obtain ⟨-, ⟨path, fault, hprogram, hending⟩ | ⟨program, outcome, hprogram, hending, houtcome⟩⟩ :=
    hresolves.handle hlisted request time
  · simp only [history, hprogram, hending]
    refine ⟨?_, ?_, ?_⟩
    · intro query hquery
      cases hquery
    · rintro _ ⟨⟩
      exact ⟨rfl, path, fault, rfl⟩
    · rintro _ ⟨⟩
  · rw [hending]
    refine ⟨?_, ?_, ?_⟩
    · rw [history_of_program hprogram]
      rw [(handle_of_program hprogram tree.world time).1] at hending
      exact program.exists_answer_of_answered tree.world_answers time
        (answered_of_ok program engine.memory time outcome hending)
    · rintro _ ⟨⟩
    · rintro located ⟨⟩
      obtain ⟨node, hnode⟩ := Snapshot.node_of_isSome (houtcome located rfl)
      exact ⟨node, hnode, LocateReport.ofLocated_of_node hnode⟩

/-- The button of the panel, after a path that is malformed, an element that is missing and a root
that was forgotten. -/
theorem resolves_always_window :
    let engine := (windowTree.engine {}).performAll windowTree.world
      [.locate (.root "bogus" 0 true) {}, .locate (.root "Class=Button" 2 false) {}, .forgetRoot,
        .locate (.root "Class=Window;\\;Class=Panel" 0 true) ⟨5⟩]
    let request : Request := .descendant "Class=Window;\\;Class=Panel" "Class=Button" 0 true
    windowTree.unlisted = false
      ∧ engine.memory.cachedRoot = some ("Class=Window;\\;Class=Panel", ⟨[0, 0]⟩)
      ∧ (∃ node, windowTree.node ⟨[0, 0]⟩ = .ok node)
      ∧ ∃ located, (engine.handle windowTree.world request ⟨7⟩).1 = .ok (.found located)
        ∧ ∃ node, windowTree.node located.element = .ok node
          ∧ ElementReport.describe windowTree located.element
            = .ok (node.reportAt located.element)
          ∧ LocateReport.ofLocated windowTree located
            = .ok ⟨node.reportAt located.element, located.passes, located.levels⟩ := by
  intro engine request
  have hlisted : windowTree.unlisted = false := rfl
  have hcached : engine.memory.cachedRoot = some ("Class=Window;\\;Class=Panel", ⟨[0, 0]⟩) := by
    decide +kernel
  have hfound : elementOf (engine.handle windowTree.world request ⟨7⟩).1 = some ⟨[0, 0, 0]⟩ := by
    decide +kernel
  obtain ⟨located, hlocated, -⟩ := elementOf_eq_some.1 hfound
  obtain ⟨hroots, hrequests⟩ := resolves_always hlisted {} _
  exact ⟨hlisted, hcached, hroots _ _ hcached, located, hlocated,
    (hrequests request ⟨7⟩).2.2 located hlocated⟩

end Engine

end Locator
