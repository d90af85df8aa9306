import Locator.Search.Descent
import Locator.Settings

/-!
# The search engine

The engine answers requests for elements. A request names an element by a recognition string, or
by two of them: one for the top-level root and one for a descendant of it. The engine searches in
passes until an element is found, the time is up or, on demand, one pass is over.

Between requests the engine remembers the root it located last, so that a descendant request with
the same root need not look for it, and how the levels of its last success matched.
-/

namespace Locator

/-! ## Outcomes -/

structure Located (E : Type) where
  element : E
  levels : List LevelMatch
  passes : Nat
  deriving DecidableEq

structure NotFound where
  recognition : String
  timeoutSecs : Nat
  elapsedMs : Nat
  passes : Nat
  deriving DecidableEq, Repr

/-- The error that says so; it holds a 64-bit number of milliseconds. -/
def NotFound.error (missing : NotFound) : Error :=
  .notFound missing.recognition missing.timeoutSecs (min missing.elapsedMs (UInt64.size - 1))

/-- How a search ends. Not to find anything is a normal outcome. -/
inductive Outcome (E : Type)
  | found (located : Located E)
  | notFound (missing : NotFound)
  deriving DecidableEq

namespace Outcome

variable {E : Type}

def exists? : Outcome E → Bool
  | found _ => true
  | notFound _ => false

def located? : Outcome E → Option (Located E)
  | found located => some located
  | notFound _ => none

def toExcept : Outcome E → Except Error (Located E)
  | found located => .ok located
  | notFound missing => .error missing.error

end Outcome

/-! ## Polling -/

structure Patience where
  timeoutSecs : Nat
  /-- One pass only, whatever the time limit. -/
  singlePass : Bool
  pollIntervalMs : Nat
  deriving DecidableEq, Repr

/-- Passes are counted in a 64-bit word. -/
def passLimit : Nat := UInt64.size

def Chain.matchesFrom (chain : Chain) (start : Nat) (marks : Marks) : List LevelMatch :=
  ((chain.levels.zip marks.byLevel).drop start).filterMap fun (level, mark) =>
    mark.map fun counters => { level := level.raw, counters }

namespace Search

variable {E : Type}

/-- Repeats a pass until it finds an element, or until the time since `started` has reached the
limit when a pass ends, or `spare` passes after the first are over. The counters go on from pass
to pass, the marks do not. The levels from `start` on are searched for, and `passes` passes have
been made before. -/
def poll (chain : Chain) (start : Nat) (patience : Patience)
    (pass : Progress → Search E (Finding E)) (started : Nat) (spare passes : Nat)
    (progress : Progress) : Search E (Outcome E) := do
  let (found, progress) ← pass progress.unmarked
  match found with
  | some element => return .found ⟨element, chain.matchesFrom start progress.marks, passes + 1⟩
  | none =>
    let elapsed := (← now) - started
    let missing : Outcome E :=
      .notFound ⟨chain.path, patience.timeoutSecs, elapsed, passes + 1⟩
    if patience.singlePass || 1000 * patience.timeoutSecs ≤ elapsed then return missing
    else
      match spare with
      | 0 => return missing
      | spare + 1 =>
        sleep patience.pollIntervalMs <|
          poll chain start patience pass started spare (passes + 1) progress

def pollFromNow (chain : Chain) (start : Nat) (patience : Patience)
    (pass : Progress → Search E (Finding E)) : Search E (Outcome E) := do
  poll chain start patience pass (← now) (passLimit - 1) 0 (.start chain)

end Search

/-! ## Requests -/

inductive Request
  /-- A top-level root, and any further levels of the path below it. -/
  | root (path : String) (timeoutSecs : Nat) (singlePass : Bool)
  /-- A descendant of a top-level root. -/
  | descendant (root path : String) (timeoutSecs : Nat) (singlePass : Bool)
  deriving DecidableEq, Repr

/-- A search engine: its settings, the number of generations below an element that it searches,
and what it remembers. -/
structure Engine (E : Type) where
  settings : Settings
  reach : Nat
  memory : Memory E := {}

namespace Memory

variable {E : Type}

def rootFor? (memory : Memory E) (path : String) : Option E :=
  memory.cachedRoot.bind fun (cached, element) => if cached == path then some element else none

def forgetRoot (memory : Memory E) : Memory E :=
  { memory with cachedRoot := none }

end Memory

namespace Engine

variable {E σ : Type}

def patience (engine : Engine E) (timeoutSecs : Nat) (singlePass : Bool) : Patience :=
  { timeoutSecs, singlePass, pollIntervalMs := engine.settings.pollIntervalMs }

def readPath (path : String) : Except Error Chain :=
  (Chain.ofText path).mapError fun fault => .malformedPath path fault.message

def locateRoot (engine : Engine E) (chain : Chain) (timeoutSecs : Nat) (singlePass : Bool) :
    Search E (Outcome E) := do
  let outcome ← Search.pollFromNow chain 0 (engine.patience timeoutSecs singlePass)
    (Search.rootPass engine.reach chain.rootGoal)
  match outcome with
  | .found located =>
    .remember ⟨some (chain.path, located.element), located.levels⟩ (pure outcome)
  | .notFound _ => return outcome

/-- The position of the first level to search for below a root: the second if the first names the
top-level window. -/
def firstSearched (settings : Settings) (chain : Chain) : Nat :=
  if settings.isTopLevelSentinel (Level.stripFpsm chain.first.raw.toList).2 then 1 else 0

/-- What to search for below a root. There is nothing if all levels name the root itself. -/
def goalBelow? (settings : Settings) (chain : Chain) (root : E) : Option (Goal E) :=
  let start := firstSearched settings chain
  Goal.ofLevels? (some root) start (chain.levels.drop start)

/-- Locates a descendant of a root and remembers how its levels matched. The root that is
remembered stays. -/
def locateBelow (engine : Engine E) (cachedRoot : Option (String × E)) (root : E) (chain : Chain)
    (timeoutSecs : Nat) (singlePass : Bool) : Search E (Outcome E) := do
  match goalBelow? engine.settings chain root with
  | none => .remember ⟨cachedRoot, []⟩ (pure (.found ⟨root, [], 0⟩))
  | some goal =>
    let outcome ← Search.pollFromNow chain goal.position (engine.patience timeoutSecs singlePass)
      (Search.descendantPass engine.reach root goal)
    match outcome with
    | .found located => .remember ⟨cachedRoot, located.levels⟩ (pure outcome)
    | .notFound _ => return outcome

/-- Locates a root, with the time limit that the settings give for it, and then a descendant of
it. -/
def locateRootAndBelow (engine : Engine E) (rootChain chain : Chain) (timeoutSecs : Nat)
    (singlePass : Bool) : Search E (Outcome E) := do
  let outcome ← engine.locateRoot rootChain engine.settings.rootRefreshTimeoutSecs singlePass
  match outcome with
  | .notFound _ => return outcome
  | .found located =>
    engine.locateBelow (some (rootChain.path, located.element)) located.element chain
      timeoutSecs singlePass

/-- The program that answers a request. A recognition string that cannot be read is refused
before anything is asked. That of a root which is remembered is not read again. -/
def program (engine : Engine E) : Request → Except Error (Search E (Outcome E))
  | .root path timeoutSecs singlePass => do
    let chain ← readPath path
    return engine.locateRoot chain timeoutSecs singlePass
  | .descendant rootPath path timeoutSecs singlePass => do
    let chain ← readPath path
    match engine.memory.rootFor? rootPath with
    | some root =>
      return engine.locateBelow engine.memory.cachedRoot root chain timeoutSecs singlePass
    | none =>
      let rootChain ← readPath rootPath
      return engine.locateRootAndBelow rootChain chain timeoutSecs singlePass

/-- Answers a request in a world. The engine that is left remembers what the request taught. -/
def handle (engine : Engine E) (world : World σ E) (request : Request) (state : σ) :
    Except Error (Outcome E) × Engine E × σ :=
  match engine.program request with
  | .error error => (.error error, engine, state)
  | .ok program =>
    let ending := program.run world engine.memory state
    (ending.result, { engine with memory := ending.memory }, ending.state)

def forgetRoot (engine : Engine E) : Engine E :=
  { engine with memory := engine.memory.forgetRoot }

end Engine

end Locator
