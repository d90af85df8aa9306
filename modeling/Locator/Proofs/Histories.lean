import Locator.Proofs.Repeating

/-!
# What a program does

The history of a program in a world: what it asks, and which question was not answered, how long it
sleeps and what it remembers, in order. The history of two programs in turn is that of the one and
then that of the other (`history_bind`). A program whose questions are all answered ends with an
answer (`exists_ok_of_history`), and what is remembered in the end is what its history says
(`run_memory`).
-/

namespace Locator

variable {E α β σ : Type}

inductive Event (E : Type)
  | asked (query : Query E)
  /-- The question before was not answered. -/
  | failed (error : Error)
  | slept (ms : Nat)
  | remembered (memory : Memory E)
  deriving DecidableEq

namespace Event

def question? : Event E → Option (Query E)
  | asked query => some query
  | failed _ | slept _ | remembered _ => none

def memory? : Event E → Option (Memory E)
  | remembered memory => some memory
  | asked _ | failed _ | slept _ => none

def isFailure : Event E → Bool
  | failed _ => true
  | asked _ | slept _ | remembered _ => false

end Event

def questions (events : List (Event E)) : List (Query E) :=
  events.filterMap Event.question?

/-- All questions among some events were answered. -/
def Answered (events : List (Event E)) : Prop :=
  ∀ event ∈ events, event.isFailure = false

instance (events : List (Event E)) : Decidable (Answered events) :=
  inferInstanceAs (Decidable (∀ event ∈ events, event.isFailure = false))

theorem answered_append {events others : List (Event E)} :
    Answered (events ++ others) ↔ Answered events ∧ Answered others :=
  List.forall_mem_append

/-- What is remembered after some events. -/
def Memory.after (memory : Memory E) (events : List (Event E)) : Memory E :=
  events.foldl (fun memory event => event.memory?.getD memory) memory

@[simp] theorem questions_nil : questions ([] : List (Event E)) = [] := rfl

@[simp] theorem questions_asked (query : Query E) (events : List (Event E)) :
    questions (.asked query :: events) = query :: questions events := rfl

@[simp] theorem questions_failed (error : Error) (events : List (Event E)) :
    questions (.failed error :: events) = questions events := rfl

@[simp] theorem questions_append (events others : List (Event E)) :
    questions (events ++ others) = questions events ++ questions others :=
  List.filterMap_append

theorem Memory.after_append (memory : Memory E) (events others : List (Event E)) :
    memory.after (events ++ others) = (memory.after events).after others :=
  List.foldl_append

/-- Events that remember nothing leave the memory as it was. -/
theorem Memory.after_of_quiet {events : List (Event E)}
    (h : ∀ event ∈ events, event.memory? = none) (memory : Memory E) :
    memory.after events = memory := by
  induction events with
  | nil => rfl
  | cons event events ih =>
    obtain ⟨hevent, hevents⟩ := List.forall_mem_cons.1 h
    rw [after, List.foldl_cons, hevent]
    exact ih hevents

namespace Search

def history (world : World σ E) : Search E α → σ → List (Event E)
  | done _, _ => []
  | ask query next, state =>
    match world.answer query state with
    | (.ok answer, state) => .asked query :: (next answer).history world state
    | (.error error, _) => [.asked query, .failed error]
  | clock next, state => (next (world.now state)).history world state
  | sleep ms next, state => .slept ms :: next.history world (world.sleep ms state)
  | remember memory next, state => .remembered memory :: next.history world state
  | visit _ next, state => next.history world state

variable {world : World σ E}

theorem history_bind (program : Search E α) (next : α → Search E β) :
    ∀ (memory : Memory E) (state : σ), (program >>= next).history world state
      = program.history world state
        ++ match program.run world memory state with
          | ⟨.ok answer, _, state⟩ => (next answer).history world state
          | ⟨.error _, _, _⟩ => [] := by
  change ∀ memory state, (program.andThen next).history world state = _
  induction program with
  | done _ => intros; rfl
  | ask query go ih =>
    intro memory state
    rcases h : world.answer query state with ⟨_ | answer, after⟩
    · simp only [andThen, run, history, h, List.append_nil]
    · simp only [andThen, run, history, h, ih answer memory after, List.cons_append]
  | clock _ ih => intro memory state; simp only [andThen, run, history, ih _ memory]
  | sleep _ _ ih =>
    intro memory state
    simp only [andThen, run, history, ih memory, List.cons_append]
  | remember remembered _ ih =>
    intro memory state
    simp only [andThen, run, history, ih remembered, List.cons_append]
  | visit _ _ ih => intro memory state; simp only [andThen, run, history, ih memory]

theorem length_history_bind {state later : σ} {program : Search E α} {a : α} {memory : Memory E}
    (h : program.run world {} state = ⟨.ok a, memory, later⟩) (next : α → Search E β) :
    ((program >>= next).history world state).length
      = (program.history world state).length + ((next a).history world later).length := by
  rw [history_bind _ _ {}, h, List.length_append]

theorem history_ask (query : Query E) (next : query.Answer → Search E α) (state : σ) :
    ∃ later, (ask query next).history world state = .asked query :: later := by
  rcases h : world.answer query state with ⟨error | answer, after⟩
  · exact ⟨[.failed error], by simp only [history, h]⟩
  · exact ⟨(next answer).history world after, by simp only [history, h]⟩

theorem questions_question (query : Query E) (state : σ) :
    questions ((question query).history world state) = [query] := by
  rcases h : world.answer query state with ⟨_ | _, _⟩ <;> simp [question, history, h]

theorem run_memory (program : Search E α) : ∀ (memory : Memory E) (state : σ),
    (program.run world memory state).memory = memory.after (program.history world state) := by
  induction program with
  | done _ => intros; rfl
  | ask query go ih =>
    intro memory state
    rcases h : world.answer query state with ⟨_ | answer, after⟩
    · simp only [run, history, h]
      rfl
    · simp only [run, history, h, ih]
      rfl
  | clock _ ih => intro memory state; exact ih _ memory state
  | sleep _ _ ih => intro memory state; exact ih memory _
  | remember remembered _ ih => intro memory state; exact ih remembered state
  | visit _ _ ih => intro memory state; exact ih memory state

/-- A program ends with an answer if its questions are answered. -/
theorem exists_ok_of_history (program : Search E α) : ∀ (memory : Memory E) (state : σ),
    Answered (program.history world state) →
      ∃ answer, (program.run world memory state).result = .ok answer := by
  induction program with
  | done answer => exact fun _ _ _ => ⟨answer, rfl⟩
  | ask query go ih =>
    intro memory state hall
    rcases h : world.answer query state with ⟨error | answer, after⟩
    · simp only [history, h] at hall
      exact absurd (hall (.failed error) (by simp)) nofun
    · simp only [history, h, Answered, List.forall_mem_cons] at hall
      simp only [run, h]
      exact ih answer memory after hall.2
  | clock _ ih => intro memory state hall; exact ih _ memory state hall
  | sleep _ _ ih => intro memory state hall; exact ih memory _ (List.forall_mem_cons.1 hall).2
  | remember remembered _ ih =>
    intro memory state hall
    exact ih remembered state (List.forall_mem_cons.1 hall).2
  | visit _ _ ih => intro memory state hall; exact ih memory state hall

theorem answered_of_ok (program : Search E α) : ∀ (memory : Memory E) (state : σ) (answer : α),
    (program.run world memory state).result = .ok answer →
      Answered (program.history world state) := by
  induction program with
  | done _ => exact fun _ _ _ _ event hevent => absurd hevent List.not_mem_nil
  | ask query go ih =>
    intro memory state answer hok
    rcases h : world.answer query state with ⟨error | reply, after⟩
    · simp only [run, h] at hok
      cases hok
    · simp only [run, h] at hok
      simp only [history, h]
      exact List.forall_mem_cons.2 ⟨rfl, ih reply memory after answer hok⟩
  | clock _ ih => intro memory state answer hok; exact ih _ memory state answer hok
  | sleep _ _ ih =>
    intro memory state answer hok
    exact List.forall_mem_cons.2 ⟨rfl, ih memory _ answer hok⟩
  | remember remembered _ ih =>
    intro memory state answer hok
    exact List.forall_mem_cons.2 ⟨rfl, ih remembered state answer hok⟩
  | visit _ _ ih => intro memory state answer hok; exact ih memory state answer hok

/-- A program that only asks and visits remembers nothing. -/
theorem Alike.history_quiet {R : α → β → Prop} {p : Search E α} {q : Search E β}
    (h : Alike R p q) : ∀ state, ∀ event ∈ p.history world state, event.memory? = none := by
  induction h with
  | done _ => exact fun _ event hevent => absurd hevent List.not_mem_nil
  | @ask query go go' _ ih =>
    intro state
    rcases hanswer : world.answer query state with ⟨error | answer, after⟩
    · simp only [Search.history, hanswer, List.forall_mem_cons]
      exact ⟨rfl, rfl, fun _ hevent => absurd hevent List.not_mem_nil⟩
    · simp only [Search.history, hanswer, List.forall_mem_cons]
      exact ⟨rfl, ih answer after⟩
  | visit _ ih => exact ih

theorem PassOf.asks {engine : Engine E} {goal : Goal E} {pass : Progress → Search E (Finding E)}
    (h : PassOf engine goal pass) (p : Progress) :
    Alike Eq (pass p.unmarked) (pass p.unmarked) :=
  (h.alike (fun level _ => Counters.View.all_suffices level) p p rfl rfl rfl).self

end Search

namespace Engine

def history (engine : Engine E) (world : World σ E) (request : Request) (state : σ) :
    List (Event E) :=
  match engine.program request with
  | .error _ => []
  | .ok program => program.history world state

theorem history_of_program {engine : Engine E} {request : Request}
    {program : Search E (Outcome E)} (h : engine.program request = .ok program)
    (world : World σ E) (state : σ) :
    engine.history world request state = program.history world state := by
  simp only [history, h]

end Engine

end Locator
