import Locator.Chain
import Locator.Error
import Locator.Query

/-!
# Search programs

A search is a program that asks questions about a tree, reads a clock, sleeps, and at last
answers. The world it runs in answers the questions. A question that the world cannot answer ends
the program at once with the world's error; what the program was told to remember before stays.

A program also tells which elements it visits, with the counters at the moment the element is
judged. The world does not see that, so it changes nothing.
-/

namespace Locator

/-- What a scan looks for: a level of a path and the levels below it, in one scope. -/
structure Goal (E : Type) where
  /-- The element whose descendants are the scope. Without one the top-level roots are. -/
  anchor : Option E
  position : Nat
  level : Level
  rest : List Level
  deriving DecidableEq

namespace Goal

variable {E : Type}

/-- The goal to find the first of some levels, the first of which is at a position of its chain.
There is none without levels. -/
def ofLevels? (anchor : Option E) (position : Nat) : List Level → Option (Goal E)
  | [] => none
  | level :: rest => some { anchor, position, level, rest }

theorem ofLevels?_eq_none {anchor : Option E} {position : Nat} {levels : List Level} :
    ofLevels? anchor position levels = none ↔ levels = [] := by
  cases levels <;> simp [ofLevels?]

theorem ofLevels?_eq_some {anchor : Option E} {position : Nat} {levels : List Level}
    {goal : Goal E} : ofLevels? anchor position levels = some goal
      ↔ goal.anchor = anchor ∧ goal.position = position ∧ levels = goal.level :: goal.rest := by
  obtain ⟨a, p, l, r⟩ := goal
  cases levels <;> simp [ofLevels?, eq_comm]

def next? (goal : Goal E) (element : E) : Option (Goal E) :=
  ofLevels? (some element) (goal.position + 1) goal.rest

/-- Only the siblings in hand are looked at, not what lies below them: that is how roots are
scanned, and direct children for a level that asks for it. -/
def shallow (goal : Goal E) : Bool :=
  goal.anchor.isNone || goal.level.fpsm

end Goal

def Chain.rootGoal {E : Type} (chain : Chain) : Goal E :=
  { anchor := none, position := 0, level := chain.first, rest := chain.rest }

structure LevelMatch where
  level : String
  counters : Counters
  deriving DecidableEq

structure Memory (E : Type) where
  /-- The root located last, under the recognition string it was located by. -/
  cachedRoot : Option (String × E) := none
  /-- How the levels of the last successful request matched. -/
  lastLevels : List LevelMatch := []
  deriving DecidableEq

/-- An element about to be judged by the level of a goal. The counters already include the
element. -/
structure Visit (E : Type) where
  element : E
  facts : Facts
  goal : Goal E
  counters : Counters
  deriving DecidableEq

/-- A program that searches a tree of elements `E` and answers with an `α`. -/
inductive Search (E α : Type) : Type
  | done (answer : α)
  | ask (query : Query E) (next : query.Answer → Search E α)
  | clock (next : Nat → Search E α)
  | sleep (ms : Nat) (next : Search E α)
  | remember (memory : Memory E) (next : Search E α)
  | visit (visit : Visit E) (next : Search E α)

namespace Search

variable {E α β γ σ : Type}

def andThen (next : α → Search E β) : Search E α → Search E β
  | done answer => next answer
  | ask query go => ask query fun answer => (go answer).andThen next
  | clock go => clock fun now => (go now).andThen next
  | sleep ms go => sleep ms (go.andThen next)
  | remember memory go => remember memory (go.andThen next)
  | visit v go => visit v (go.andThen next)

instance : Monad (Search E) where
  pure := done
  bind program next := program.andThen next

theorem andThen_done (program : Search E α) : program.andThen done = program := by
  induction program with
  | done _ => rfl
  | ask _ _ ih => simp only [andThen, ih]
  | clock _ ih => simp only [andThen, ih]
  | sleep _ _ ih => simp only [andThen, ih]
  | remember _ _ ih => simp only [andThen, ih]
  | visit _ _ ih => simp only [andThen, ih]

theorem andThen_assoc (program : Search E α) (f : α → Search E β) (g : β → Search E γ) :
    (program.andThen f).andThen g = program.andThen fun a => (f a).andThen g := by
  induction program with
  | done _ => rfl
  | ask _ _ ih => simp only [andThen, ih]
  | clock _ ih => simp only [andThen, ih]
  | sleep _ _ ih => simp only [andThen, ih]
  | remember _ _ ih => simp only [andThen, ih]
  | visit _ _ ih => simp only [andThen, ih]

instance : LawfulMonad (Search E) :=
  LawfulMonad.mk' (Search E) andThen_done (fun _ _ => rfl)
    fun program f g => andThen_assoc program f g

def question (query : Query E) : Search E query.Answer :=
  ask query done

def now : Search E Nat :=
  clock done

end Search

/-! ## Worlds -/

/-- What a search runs in: an answer to every question, and a clock. Asking and sleeping may
change the state of the world. -/
structure World (σ E : Type) where
  answer : (query : Query E) → σ → Except Error query.Answer × σ
  now : σ → Nat
  sleep : Nat → σ → σ

/-- What is left when a program ends: the answer or the error that ended it, what it remembered,
and the world. -/
structure Ending (σ E α : Type) where
  result : Except Error α
  memory : Memory E
  state : σ

namespace Search

variable {E α σ : Type}

def run (world : World σ E) : Search E α → Memory E → σ → Ending σ E α
  | done answer, memory, state => ⟨.ok answer, memory, state⟩
  | ask query next, memory, state =>
    match world.answer query state with
    | (.ok answer, state) => (next answer).run world memory state
    | (.error error, state) => ⟨.error error, memory, state⟩
  | clock next, memory, state => (next (world.now state)).run world memory state
  | sleep ms next, memory, state => next.run world memory (world.sleep ms state)
  | remember memory next, _, state => next.run world memory state
  | visit _ next, memory, state => next.run world memory state

/-- The visits that a program makes in a world, in order. -/
def visits (world : World σ E) : Search E α → σ → List (Visit E)
  | done _, _ => []
  | ask query next, state =>
    match world.answer query state with
    | (.ok answer, state) => (next answer).visits world state
    | (.error _, _) => []
  | clock next, state => (next (world.now state)).visits world state
  | sleep ms next, state => next.visits world (world.sleep ms state)
  | remember _ next, state => next.visits world state
  | visit v next, state => v :: next.visits world state

variable {β : Type} {world : World σ E}

/-- A program and then another: the second starts with what the first remembered and in the state
it left, unless the first ends with an error. -/
theorem run_bind (program : Search E α) (next : α → Search E β) :
    ∀ (memory : Memory E) (state : σ), (program >>= next).run world memory state
      = match program.run world memory state with
        | ⟨.ok answer, memory, state⟩ => (next answer).run world memory state
        | ⟨.error error, memory, state⟩ => ⟨.error error, memory, state⟩ := by
  change ∀ memory state, (program.andThen next).run world memory state = _
  induction program with
  | done _ => intros; rfl
  | ask query go ih =>
    intro memory state
    rcases h : world.answer query state with ⟨_ | answer, after⟩
    · simp only [andThen, run, h]
    · simp only [andThen, run, h, ih]
  | clock _ ih => intros; simp only [andThen, run, ih]
  | sleep _ _ ih => intros; simp only [andThen, run, ih]
  | remember _ _ ih => intros; simp only [andThen, run, ih]
  | visit _ _ ih => intros; simp only [andThen, run, ih]

theorem visits_bind (program : Search E α) (next : α → Search E β) :
    ∀ (memory : Memory E) (state : σ), (program >>= next).visits world state
      = program.visits world state
        ++ match program.run world memory state with
          | ⟨.ok answer, _, state⟩ => (next answer).visits world state
          | ⟨.error _, _, _⟩ => [] := by
  change ∀ memory state, (program.andThen next).visits world state = _
  induction program with
  | done _ => intros; rfl
  | ask query go ih =>
    intro memory state
    rcases h : world.answer query state with ⟨_ | answer, after⟩
    · simp only [andThen, run, visits, h, List.append_nil]
    · simp only [andThen, run, visits, h, ih answer memory after]
  | clock _ ih => intro memory state; simp only [andThen, run, visits, ih _ memory]
  | sleep _ _ ih => intro memory state; simp only [andThen, run, visits, ih memory]
  | remember remembered _ ih =>
    intro memory state
    simp only [andThen, run, visits, ih remembered]
  | visit _ _ ih =>
    intro memory state
    simp only [andThen, run, visits, ih memory, List.cons_append]

end Search

end Locator
