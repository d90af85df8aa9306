import Locator.Search

/-!
# Programs that ask alike

Two programs ask alike when they ask the same questions for as long as they get the same answers,
and come to related ends. Apart from asking, such programs only visit. Where two worlds give the
same answers, programs that ask alike come to related ends or fail with the same error
(`Alike.run`).
-/

namespace Locator

variable {E α β γ δ σ τ : Type}

/-- An answer, or an error, to every question. -/
abbrev Oracle (E : Type) : Type :=
  (query : Query E) → Except Error query.Answer

/-- In a state of a world every question has its answer, and asking does not change the state. -/
def World.Answers (world : World σ E) (state : σ) (answers : Oracle E) : Prop :=
  ∀ query, world.answer query state = (answers query, state)

/-- The world that gives the same answers at all times. -/
def Oracle.world (answers : Oracle E) : World Unit E where
  answer query _ := (answers query, ())
  now _ := 0
  sleep _ _ := ()

theorem Oracle.world_answers (answers : Oracle E) : answers.world.Answers () answers :=
  fun _ => rfl

/-- Ends that are the same error, or related answers. -/
inductive SameEnd (R : α → β → Prop) : Except Error α → Except Error β → Prop
  | failed (error : Error) : SameEnd R (.error error) (.error error)
  | ok {a : α} {b : β} (h : R a b) : SameEnd R (.ok a) (.ok b)

theorem SameEnd.eq_of_error {R : α → β → Prop} {error : Error} {y : Except Error β}
    (h : SameEnd R (.error error) y) : y = .error error := by
  cases h
  rfl

theorem SameEnd.exists_of_ok {R : α → β → Prop} {a : α} {y : Except Error β}
    (h : SameEnd R (.ok a) y) : ∃ b, y = .ok b ∧ R a b := by
  cases h with
  | ok h => exact ⟨_, rfl, h⟩

theorem SameEnd.exists_of_both {R : α → β → Prop} {x : Except Error α} {y : Except Error β}
    (h : SameEnd R x y) (hx : ∃ a, x = .ok a) : ∃ a b, x = .ok a ∧ y = .ok b ∧ R a b := by
  obtain ⟨a, rfl⟩ := hx
  obtain ⟨b, rfl, hab⟩ := h.exists_of_ok
  exact ⟨a, b, rfl, rfl, hab⟩

theorem SameEnd.bind {R : α → β → Prop} {S : γ → δ → Prop} {x : Except Error α}
    {y : Except Error β} (h : SameEnd R x y) {f : α → Except Error γ} {g : β → Except Error δ}
    (hfg : ∀ a b, R a b → SameEnd S (f a) (g b)) : SameEnd S (x >>= f) (y >>= g) := by
  cases h with
  | failed error => exact .failed error
  | ok h => exact hfg _ _ h

theorem SameEnd.map {R : α → β → Prop} {S : γ → δ → Prop} {x : Except Error α}
    {y : Except Error β} (h : SameEnd R x y) {f : α → γ} {g : β → δ}
    (hfg : ∀ a b, R a b → S (f a) (g b)) : SameEnd S (x.map f) (y.map g) := by
  cases h with
  | failed error => exact .failed error
  | ok h => exact .ok (hfg _ _ h)

theorem SameEnd.refl {R : α → α → Prop} (h : ∀ a, R a a) (x : Except Error α) :
    SameEnd R x x := by
  cases x with
  | error error => exact .failed error
  | ok a => exact .ok (h a)

namespace Search

/-- Programs that ask the same questions, whatever they visit, and come to related ends. -/
inductive Alike (R : α → β → Prop) : Search E α → Search E β → Prop
  | done {a : α} {b : β} (h : R a b) : Alike R (done a) (done b)
  | ask {query : Query E} {go : query.Answer → Search E α} {go' : query.Answer → Search E β}
      (h : ∀ answer, Alike R (go answer) (go' answer)) : Alike R (ask query go) (ask query go')
  | visit {v w : Visit E} {p : Search E α} {q : Search E β} (h : Alike R p q) :
      Alike R (visit v p) (visit w q)

namespace Alike

variable {R : α → β → Prop} {S : γ → δ → Prop} {p : Search E α} {q : Search E β}

theorem question (query : Query E) : Alike Eq (question query) (question query) :=
  .ask fun _ => .done rfl

theorem bind (h : Alike R p q) {f : α → Search E γ} {g : β → Search E δ}
    (hfg : ∀ a b, R a b → Alike S (f a) (g b)) : Alike S (p >>= f) (q >>= g) := by
  change Alike S (p.andThen f) (q.andThen g)
  induction h with
  | done h => exact hfg _ _ h
  | ask _ ih => exact .ask ih
  | visit _ ih => exact .visit ih

/-- Programs that begin with one and the same part. -/
theorem bind_same {p : Search E α} (h : Alike Eq p p) {f : α → Search E γ} {g : α → Search E δ}
    (hfg : ∀ a, Alike S (f a) (g a)) : Alike S (p >>= f) (p >>= g) :=
  h.bind fun _ _ hab => hab ▸ hfg _

/-- A program that asks as another does only asks and visits. -/
theorem self (h : Alike R p q) : Alike Eq p p := by
  induction h with
  | done _ => exact .done rfl
  | ask _ ih => exact .ask ih
  | visit _ ih => exact .visit ih

theorem mono {R' : α → β → Prop} (h : Alike R p q) (hR : ∀ a b, R a b → R' a b) :
    Alike R' p q := by
  induction h with
  | done h => exact .done (hR _ _ h)
  | ask _ ih => exact .ask ih
  | visit _ ih => exact .visit ih

/-- Where the same answers are given, programs that ask alike come to related ends, and nothing else
has changed. -/
theorem run (h : Alike R p q) {world : World σ E} {state : σ} {world' : World τ E} {state' : τ}
    {answers : Oracle E} (hworld : world.Answers state answers)
    (hworld' : world'.Answers state' answers) :
    ∃ a b, SameEnd R a b ∧ (∀ memory, p.run world memory state = ⟨a, memory, state⟩)
      ∧ ∀ memory, q.run world' memory state' = ⟨b, memory, state'⟩ := by
  induction h with
  | done h => exact ⟨_, _, .ok h, fun _ => rfl, fun _ => rfl⟩
  | @ask query go go' _ ih =>
    rcases hanswer : answers query with error | answer
    · refine ⟨_, _, .failed error, fun memory => ?_, fun memory => ?_⟩
      · simp only [Search.run, hworld query, hanswer]
      · simp only [Search.run, hworld' query, hanswer]
    · obtain ⟨a, b, hab, hp, hq⟩ := ih answer
      refine ⟨a, b, hab, fun memory => ?_, fun memory => ?_⟩
      · simp only [Search.run, hworld query, hanswer, hp]
      · simp only [Search.run, hworld' query, hanswer, hq]
  | visit _ ih => exact ih

end Alike

end Search

end Locator
