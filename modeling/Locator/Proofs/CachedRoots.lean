import Locator.Proofs.Remembering

/-!
# The root that is remembered

An engine has room for one root. It is the one that was located last, by whatever recognition
string, and it stays until another is located or it is forgotten (`Engine.cached_root`). So what is
remembered for a recognition string is the root that was last located by it, as long as no root was
located by another string since. When one was, the root is looked for once more
(`displaced_root`).

Only a search for a root lists the top-level roots. What is searched below a root asks about
elements (`Engine.locateBelow_offRoots`).
-/

namespace Locator

open Search

variable {E α β σ : Type}

/-! ## The questions of a search below a root -/

namespace Search

/-- A program asks only questions of one kind. -/
inductive Confined (kind : Query E → Prop) : Search E α → Prop
  | done (answer : α) : Confined kind (done answer)
  | ask {query : Query E} {go : query.Answer → Search E α} (hquery : kind query)
      (hgo : ∀ answer, Confined kind (go answer)) : Confined kind (ask query go)
  | clock {go : Nat → Search E α} (hgo : ∀ now, Confined kind (go now)) : Confined kind (clock go)
  | sleep {ms : Nat} {program : Search E α} (h : Confined kind program) :
      Confined kind (sleep ms program)
  | remember {memory : Memory E} {program : Search E α} (h : Confined kind program) :
      Confined kind (remember memory program)
  | visit {v : Visit E} {program : Search E α} (h : Confined kind program) :
      Confined kind (visit v program)

namespace Confined

variable {kind : Query E → Prop}

theorem question {query : Query E} (h : kind query) : Confined kind (question query) :=
  .ask h .done

theorem bind {program : Search E α} (h : Confined kind program) {next : α → Search E β}
    (hnext : ∀ answer, Confined kind (next answer)) : Confined kind (program >>= next) := by
  change Confined kind (program.andThen next)
  induction h with
  | done answer => exact hnext answer
  | ask hquery _ ih => exact .ask hquery ih
  | clock _ ih => exact .clock ih
  | sleep _ ih => exact .sleep ih
  | remember _ ih => exact .remember ih
  | visit _ ih => exact .visit ih

theorem questions {world : World σ E} {program : Search E α} (h : Confined kind program)
    (state : σ) : ∀ query ∈ questions (program.history world state), kind query := by
  induction h generalizing state with
  | done _ => exact nofun
  | @ask query go hquery _ ih =>
    rcases hanswer : world.answer query state with ⟨error | answer, later⟩
    · simp only [history, hanswer, questions_asked, questions_failed, questions_nil]
      exact List.forall_mem_singleton.2 hquery
    · simp only [history, hanswer, questions_asked]
      exact List.forall_mem_cons.2 ⟨hquery, ih answer later⟩
  | clock _ ih => exact ih (world.now state) state
  | sleep _ ih => exact ih (world.sleep _ state)
  | remember _ ih => exact ih state
  | visit _ ih => exact ih state

end Confined

/-- A program does not list the top-level roots. -/
abbrev OffRoots (program : Search E α) : Prop :=
  Confined (· ≠ .roots) program

theorem facts_offRoots (e : E) : OffRoots (facts e) := by
  unfold facts
  refine (Confined.question nofun).bind fun className => ?_
  refine (Confined.question nofun).bind fun superclasses => ?_
  refine (Confined.question nofun).bind fun resolvedType => ?_
  refine (Confined.question nofun).bind fun ident => ?_
  exact (Confined.question nofun).bind fun name => .done _

theorem read_offRoots (e : E) : ∀ what : Option Reading, OffRoots (read e what)
  | none => .done ""
  | some .text | some .caption | some (.property _) => .question nofun

theorem satisfies_offRoots (e : E) (s : Situation) : ∀ (ancestor : Option String)
    (qualifiers : List Qualifier), OffRoots (satisfies e s ancestor qualifiers)
  | _, [] => .done true
  | ancestor, q :: rest => by
    unfold satisfies
    refine (read_offRoots e q.reading?).bind fun text => ?_
    split
    · exact satisfies_offRoots e s _ rest
    · exact .done false

theorem judge_offRoots (goal : Goal E) (e : E) (before : Progress) :
    OffRoots (judge goal e before) := by
  unfold judge
  refine (facts_offRoots e).bind fun facts => .visit ?_
  exact (satisfies_offRoots e _ none goal.level.qualifiers).bind fun satisfied => .done _

theorem scan_offRoots {descend : E → Goal E → Progress → Search E (Finding E)}
    (hdescend : ∀ e goal p, OffRoots (descend e goal p)) (goal : Goal E) :
    ∀ (siblings : List E) (p : Progress), OffRoots (scan descend goal siblings p)
  | [], p => .done (none, p)
  | e :: siblings, p => by
    unfold scan
    refine (judge_offRoots goal e p).bind fun judged => ?_
    obtain ⟨satisfied, progress⟩ := judged
    cases satisfied with
    | true =>
      simp only [if_true, commit]
      split
      · exact .done _
      · exact hdescend e _ _
    | false =>
      simp only [Bool.false_eq_true, if_false]
      split
      · exact scan_offRoots hdescend goal siblings progress
      refine (hdescend e goal progress).bind fun finding => ?_
      obtain ⟨found, after⟩ := finding
      cases found with
      | some found => exact .done _
      | none => exact scan_offRoots hdescend goal siblings _

theorem children_offRoots (e : E) : OffRoots (question (.children e)) :=
  .question nofun

theorem searchBelow_offRoots (reach : Nat) (e : E) (goal : Goal E) (p : Progress) :
    OffRoots (searchBelow reach e goal p) := by
  induction reach generalizing e goal p with
  | zero =>
    unfold searchBelow
    exact (children_offRoots e).bind fun children => .done (none, p)
  | succ reach ih =>
    unfold searchBelow
    exact (children_offRoots e).bind fun children => scan_offRoots ih goal children p

theorem poll_offRoots {pass : Progress → Search E (Finding E)} (hpass : ∀ p, OffRoots (pass p))
    (chain : Chain) (start : Nat) (patience : Patience) (started spare passes : Nat)
    (p : Progress) : OffRoots (poll chain start patience pass started spare passes p) := by
  induction spare using Nat.strong_induction_on generalizing passes p with
  | _ spare ih =>
  unfold poll
  refine (hpass p.unmarked).bind fun finding => ?_
  obtain ⟨found, after⟩ := finding
  cases found with
  | some found => exact .done _
  | none =>
    refine .clock fun now => ?_
    change OffRoots (if _ then _ else _)
    split
    · exact .done _
    · rcases spare with _ | spare
      · exact .done _
      · exact .sleep (ih spare (Nat.lt_succ_self spare) (passes + 1) after)

theorem pollFromNow_offRoots {pass : Progress → Search E (Finding E)}
    (hpass : ∀ p, OffRoots (pass p)) (chain : Chain) (start : Nat) (patience : Patience) :
    OffRoots (pollFromNow chain start patience pass) := by
  unfold pollFromNow
  exact Confined.bind (.clock .done) fun started =>
    poll_offRoots hpass chain start patience started _ 0 _

end Search

theorem Engine.locateBelow_offRoots (engine : Engine E) (cachedRoot : Option (String × E))
    (root : E) (chain : Chain) (timeoutSecs : Nat) (singlePass : Bool) :
    OffRoots (engine.locateBelow cachedRoot root chain timeoutSecs singlePass) := by
  unfold locateBelow
  rcases goalBelow? engine.settings chain root with _ | goal
  · exact .remember (.done _)
  refine (pollFromNow_offRoots (fun p => searchBelow_offRoots engine.reach root goal _) chain
    goal.position _).bind fun outcome => ?_
  cases outcome with
  | found located => exact .remember (.done _)
  | notFound missing => exact .done _

/-! ## The roots of a journal -/

def Entry.noteRoot (roots : List (String × E)) : Entry E → List (String × E)
  | root path located => (path, located.element) :: roots
  | answer _ => roots
  | forgotten => []

/-- The roots that were located since the root was last forgotten, with the recognition strings they
were located by. The latest comes first. -/
def rootsLocated (journal : List (Entry E)) : List (String × E) :=
  journal.foldl Entry.noteRoot []

theorem Memory.cachedRoot_recollect (journal : List (Entry E)) {memory : Memory E}
    {roots : List (String × E)} (h : memory.cachedRoot = roots.head?) :
    (memory.recollect journal).cachedRoot = (journal.foldl Entry.noteRoot roots).head? := by
  induction journal generalizing memory roots with
  | nil => exact h
  | cons entry journal ih =>
    rw [recollect, List.foldl_cons, List.foldl_cons]
    refine ih ?_
    cases entry with
    | root path located => rfl
    | answer located => exact h
    | forgotten => rfl

/-- What is remembered is the first of some roots. That is what the first by a recognition string
is, unless one by another string comes before it. -/
theorem Memory.rootFor?_eq_lookup {memory : Memory E} {roots : List (String × E)}
    (h : memory.cachedRoot = roots.head?) (path : String) :
    memory.rootFor? path = roots.lookup path
      ↔ (path ∈ roots.map Prod.fst → ∃ root, memory.cachedRoot = some (path, root)) := by
  constructor
  · intro hlookup hmem
    obtain ⟨root, hroot⟩ := Option.ne_none_iff_exists'.1 fun hnone =>
      Table.lookup_eq_none.1 hnone hmem
    exact ⟨root, rootFor?_eq_some.1 (hlookup.trans hroot)⟩
  · intro hlatest
    rcases hroot : memory.rootFor? path with _ | root
    · refine (Table.lookup_eq_none.2 fun hmem => ?_).symm
      obtain ⟨root, hcached⟩ := hlatest hmem
      rw [rootFor?_eq_some.2 hcached] at hroot
      cases hroot
    · obtain ⟨rest, rfl⟩ := List.head?_eq_some_iff.1 (h.symm.trans (rootFor?_eq_some.1 hroot))
      exact List.lookup_cons_self.symm

/-! ## Requests -/

namespace Engine

variable {world : World σ E} {engine : Engine E}

/-- A request leaves the root that it located, or else the root from before. -/
theorem cachedRoot_handle (world : World σ E) (engine : Engine E) (request : Request) (state : σ) :
    (engine.handle world request state).2.1.memory.cachedRoot
      = ((engine.rootLocated? world request state).map fun located =>
          (request.rootPath, located.element)).or engine.memory.cachedRoot := by
  have hmemory := memory_perform world engine (.locate request state)
  change (engine.handle world request state).2.1.memory = _ at hmemory
  rw [hmemory, entries]
  rcases engine.rootLocated? world request state with _ | root <;>
    rcases locatedBy (engine.handle world request state).1 with _ | located <;> rfl

/-- A descendant request lists the top-level roots only if its root is not remembered. -/
theorem rootFor?_of_lists_roots {rootPath path : String} {timeoutSecs : Nat} {singlePass : Bool}
    {state : σ}
    (h : .roots ∈ questions
      (engine.history world (.descendant rootPath path timeoutSecs singlePass) state)) :
    engine.memory.rootFor? rootPath = none := by
  rcases hremembered : engine.memory.rootFor? rootPath with _ | root
  · rfl
  rcases hchain : readPath path with error | chain
  · have hprogram : engine.program (.descendant rootPath path timeoutSecs singlePass)
        = .error error := program_descendant_unreadable hchain
    simp only [history, hprogram, questions_nil] at h
    cases h
  · rw [history_of_program (program_remembered hchain hremembered)] at h
    have hoff := engine.locateBelow_offRoots engine.memory.cachedRoot root chain timeoutSecs
      singlePass
    exact absurd rfl (hoff.questions state .roots h)

/-- The root that is remembered is the one that was located last since the root was forgotten, by
whatever recognition string. So for a recognition string it is the root last located by that string,
if there is one and none was located by another string since. A request that locates no root leaves
it, however it ends, and a descendant request lists the top-level roots only if its root is not
remembered. -/
theorem cached_root (world : World σ E) (engine : Engine E) (operations : List (Operation σ)) :
    let after := engine.fresh.performAll world operations
    let roots := rootsLocated (engine.fresh.journal world operations)
    (∀ path root, after.memory.rootFor? path = some root ↔ roots.head? = some (path, root))
      ∧ (∀ path, after.memory.rootFor? path = roots.lookup path
        ↔ (path ∈ roots.map Prod.fst → ∃ root, roots.head? = some (path, root)))
      ∧ (∀ request state, (after.handle world request state).2.1.memory.cachedRoot
        = ((after.rootLocated? world request state).map fun located =>
            (request.rootPath, located.element)).or after.memory.cachedRoot)
      ∧ ∀ rootPath path timeoutSecs singlePass state,
        .roots ∈ questions
            (after.history world (.descendant rootPath path timeoutSecs singlePass) state) →
          after.memory.rootFor? rootPath = none := by
  intro after roots
  have hcached : after.memory.cachedRoot = roots.head? := by
    rw [memory_performAll]
    exact Memory.cachedRoot_recollect _ rfl
  refine ⟨fun path root => ?_, fun path => ?_, cachedRoot_handle world after,
    fun _ _ _ _ _ => rootFor?_of_lists_roots⟩
  · rw [Memory.rootFor?_eq_some, hcached]
  · rw [← hcached]
    exact Memory.rootFor?_eq_lookup hcached path

/-- The window is remembered: it was located after the panel, and neither a search that finds
nothing below it nor a root that is missing nor a path that is malformed has changed that. The panel
is not, and a request for what is below it lists the roots. -/
theorem cached_root_window :
    let engine := windowTree.engine {}
    let operations : List (Operation Clock) :=
      [.locate (.root "Class=Window;\\;Class=Panel" 0 true) {},
        .locate (.descendant "Class=Window" "Class=Missing" 0 true) {},
        .locate (.root "Class=Button" 0 true) ⟨5⟩, .locate (.root "bogus" 0 true) {}]
    let after := engine.fresh.performAll windowTree.world operations
    let roots := rootsLocated (engine.fresh.journal windowTree.world operations)
    roots.map Prod.fst = ["Class=Window", "Class=Window;\\;Class=Panel"]
      ∧ after.memory.rootFor? "Class=Window" = roots.lookup "Class=Window"
      ∧ roots.lookup "Class=Window" = some ⟨[0]⟩
      ∧ after.memory.rootFor? "Class=Window;\\;Class=Panel" = none := by
  intro engine operations after roots
  have hlatest : roots.head? = some ("Class=Window", ⟨[0]⟩) := by decide +kernel
  have hlists : .roots ∈ questions (after.history windowTree.world
      (.descendant "Class=Window;\\;Class=Panel" "Class=Button" 0 true) {}) := by decide +kernel
  obtain ⟨-, hlookup, -, hroots⟩ := cached_root windowTree.world engine operations
  exact ⟨by decide +kernel, (hlookup _).2 fun _ => ⟨_, hlatest⟩, by decide +kernel,
    hroots _ _ _ _ _ hlists⟩

end Engine

/-- Two roots that are located one after the other: the first is not remembered any more, and is
looked for once more. -/
theorem displaced_root :
    let operations : List (Operation Clock) :=
      [.locate (.root "Class=A" 0 true) {}, .locate (.root "Class=B" 0 true) {}]
    let engine := (twinTree.engine {}).performAll twinTree.world operations
    let roots := rootsLocated ((twinTree.engine {}).journal twinTree.world operations)
    roots.lookup "Class=A" = some ⟨[0]⟩
      ∧ engine.memory.rootFor? "Class=A" = none
      ∧ .roots ∈ questions
        (engine.history twinTree.world (.descendant "Class=A" "Class=C" 0 true) {}) := by
  decide +kernel

end Locator
