import Locator.Proofs.Histories
import Mathlib.Data.List.Nodup

/-!
# What a search asks for each visit

For each element that it visits a search asks for the five facts by which the element is counted,
and at most once for its children. Everything else that it asks is a reading for a qualifier, or
the question that the search begins with (`rootPass_paced`, `searchBelow_paced`). That is so in
every world in which the questions are answered.
-/

namespace Locator

variable {E α β σ : Type}

/-- A question that only a qualifier asks. -/
def Query.isReading : Query E → Bool
  | .text _ | .caption _ | .property .. => true
  | _ => false

/-- The questions about the facts of an element. -/
def Query.factsOf (e : E) : List (Query E) :=
  [.className e, .superclasses e, .resolvedType e, .ident e, .name e]

/-- The questions among some events that are no readings. -/
def lasting (events : List (Event E)) : List (Query E) :=
  (questions events).filter fun query => !query.isReading

@[simp] theorem lasting_nil : lasting ([] : List (Event E)) = [] := rfl

theorem lasting_append (events others : List (Event E)) :
    lasting (events ++ others) = lasting events ++ lasting others := by
  rw [lasting, questions_append, List.filter_append, lasting, lasting]

theorem lasting_asked (query : Query E) (events : List (Event E)) :
    lasting (.asked query :: events)
      = (if query.isReading then [] else [query]) ++ lasting events := by
  cases h : query.isReading <;> simp [lasting, h]

/-- What is asked for some visits, but for readings. -/
def askedFor (vs : List (Visit E)) : List (Query E) :=
  vs.flatMap fun v => Query.factsOf v.element ++ [.children v.element]

/-- What is asked for a visit is asked about its element. -/
theorem mem_askedFor {query : Query E} {vs : List (Visit E)} (h : query ∈ askedFor vs) :
    ∃ v ∈ vs, query ∈ Query.factsOf v.element ++ [.children v.element] :=
  List.mem_flatMap.1 h

theorem nodup_askedFor {vs : List (Visit E)} (h : (vs.map (·.element)).Nodup) :
    (askedFor vs).Nodup := by
  refine List.nodup_flatMap.2 ⟨fun v _ => by simp [Query.factsOf], ?_⟩
  refine (List.pairwise_map.1 h).imp fun {u v} hne query hu hv => hne ?_
  simp only [Query.factsOf, List.cons_append, List.nil_append, List.mem_cons, List.not_mem_nil,
    or_false] at hu hv
  rcases hu with rfl | rfl | rfl | rfl | rfl | rfl <;> simpa using hv

namespace Search

variable {world : World σ E} {first second : List (Query E)}

/-- A program asks some questions first and then at most what is asked for its visits, readings
apart, if its questions are answered. -/
def Paced (world : World σ E) (first : List (Query E)) (program : Search E α) : Prop :=
  ∀ state, Answered (program.history world state) →
    (lasting (program.history world state)).Sublist
      (first ++ askedFor (program.visits world state))

/-- A program visits nothing and asks some questions, readings apart, if they are answered. -/
def Asks (world : World σ E) (asked : List (Query E)) (program : Search E α) : Prop :=
  ∀ state, program.visits world state = []
    ∧ (Answered (program.history world state) → lasting (program.history world state) = asked)

/-- What two programs in turn do if their questions are answered. -/
theorem exists_parts {program : Search E α} {next : α → Search E β} {state : σ}
    (h : Answered ((program >>= next).history world state)) :
    ∃ a later, Answered (program.history world state)
      ∧ Answered ((next a).history world later)
      ∧ (program >>= next).history world state
        = program.history world state ++ (next a).history world later
      ∧ (program >>= next).visits world state
        = program.visits world state ++ (next a).visits world later := by
  rw [history_bind _ _ {}, answered_append] at h
  obtain ⟨hprogram, hnext⟩ := h
  obtain ⟨a, ha⟩ := exists_ok_of_history program {} state hprogram
  rcases hrun : program.run world {} state with ⟨answer, memory, later⟩
  rw [hrun] at ha hnext
  obtain rfl : answer = .ok a := ha
  refine ⟨a, later, hprogram, hnext, ?_, ?_⟩
  · rw [history_bind _ _ {}, hrun]
  · rw [visits_bind _ _ {}, hrun]

theorem Paced.bind {program : Search E α} (h : Paced world first program)
    {next : α → Search E β} (hnext : ∀ a, Paced world [] (next a)) :
    Paced world first (program >>= next) := by
  intro state hanswered
  obtain ⟨a, later, hprogram, hrest, hhistory, hvisits⟩ := exists_parts hanswered
  rw [hhistory, hvisits, lasting_append, askedFor, List.flatMap_append, ← List.append_assoc]
  exact (h state hprogram).append (hnext a later hrest)

theorem Asks.bind {program : Search E α} (h : Asks world first program)
    {next : α → Search E β} (hnext : ∀ a, Paced world second (next a)) :
    Paced world (first ++ second) (program >>= next) := by
  intro state hanswered
  obtain ⟨a, later, hprogram, hrest, hhistory, hvisits⟩ := exists_parts hanswered
  rw [hhistory, hvisits, (h state).1, lasting_append, (h state).2 hprogram, List.nil_append,
    List.append_assoc]
  exact (List.Sublist.refl first).append (hnext a later hrest)

theorem Paced.of_asks {program : Search E α} (h : Asks world [] program) :
    Paced world first program := by
  intro state hanswered
  rw [(h state).2 hanswered]
  exact List.nil_sublist _

theorem Paced.mono {program : Search E α} (h : Paced world [] program) :
    Paced world first program :=
  fun state hanswered => (h state hanswered).trans (List.sublist_append_right _ _)

theorem Asks.andThen {program : Search E α} (h : Asks world first program)
    {next : α → Search E β} (hnext : ∀ a, Asks world second (next a)) :
    Asks world (first ++ second) (program >>= next) := by
  intro state
  constructor
  · rw [visits_bind _ _ {}, (h state).1]
    split
    · exact (hnext _ _).1
    · rfl
  · intro hanswered
    obtain ⟨a, later, hprogram, hrest, hhistory, -⟩ := exists_parts hanswered
    rw [hhistory, lasting_append, (h state).2 hprogram, (hnext a later).2 hrest]

theorem Asks.pure (answer : α) : Asks world [] (pure answer : Search E α) :=
  fun _ => ⟨rfl, fun _ => rfl⟩

theorem asks_question (query : Query E) :
    Asks world (if query.isReading then [] else [query]) (question query) := by
  intro state
  rcases h : world.answer query state with ⟨error | answer, later⟩
  · refine ⟨by simp only [question, visits, h], fun hanswered => ?_⟩
    simp only [question, history, h] at hanswered
    have hfailed := hanswered (.failed error) (by simp)
    cases hfailed
  · refine ⟨by simp only [question, visits, h], fun _ => ?_⟩
    simp only [question, history, h, lasting_asked, lasting_nil, List.append_nil]

/-! ## Searches -/

theorem asks_facts (e : E) : Asks world (Query.factsOf e) (facts e) := by
  unfold facts
  refine (asks_question (.className e)).andThen fun _ => ?_
  refine (asks_question (.superclasses e)).andThen fun _ => ?_
  refine (asks_question (.resolvedType e)).andThen fun _ => ?_
  refine (asks_question (.ident e)).andThen fun _ => ?_
  exact (asks_question (.name e)).andThen fun _ => Asks.pure _

theorem asks_read (e : E) : ∀ what : Option Reading, Asks world [] (read e what)
  | none => .pure ""
  | some .text => asks_question (.text e)
  | some .caption => asks_question (.caption e)
  | some (.property name) => asks_question (.property e name)

theorem asks_satisfies (e : E) (s : Situation) : ∀ (ancestor : Option String)
    (qualifiers : List Qualifier), Asks world [] (satisfies e s ancestor qualifiers)
  | _, [] => .pure true
  | ancestor, q :: rest => by
    unfold satisfies
    refine (asks_read e q.reading?).andThen fun text => ?_
    split
    · exact asks_satisfies e s _ rest
    · exact .pure false

/-- To judge an element is to ask for its facts. What follows may then ask for its children. -/
theorem paced_judge {goal : Goal E} {e : E} {before : Progress}
    {next : Bool × Progress → Search E β}
    (hnext : ∀ judged, Paced world [.children e] (next judged)) :
    Paced world [] (judge goal e before >>= next) := by
  have hafter : ∀ facts, Paced world [.children e] ((do
      let satisfied ← satisfies e
        ⟨facts, goal.level, (before.visit facts).counters, goal.scope⟩ none goal.level.qualifiers
      return (satisfied, if satisfied then (before.visit facts).record goal.position
        else before.visit facts)) >>= next) := by
    intro facts
    rw [bind_assoc]
    exact (asks_satisfies e _ none _).bind fun satisfied => hnext _
  intro state hanswered
  unfold judge at hanswered ⊢
  rw [bind_assoc] at hanswered ⊢
  obtain ⟨facts, later, hfacts, hrest, hhistory, hvisits⟩ := exists_parts hanswered
  rw [hhistory, hvisits, lasting_append, (asks_facts e state).2 hfacts, (asks_facts e state).1]
  have hpaced := (hafter facts later hrest).append_left (Query.factsOf e)
  rw [← List.append_assoc] at hpaced
  exact hpaced

section Scan

variable {reach : Nat}
  (hbelow : ∀ (e : E) (goal : Goal E) (p : Progress),
    Paced world [.children e] (searchBelow reach e goal p))
include hbelow

theorem paced_scan (goal : Goal E) : ∀ (siblings : List E) (p : Progress),
    Paced world [] (scan (searchBelow reach) goal siblings p)
  | [], _ => .of_asks (.pure _)
  | e :: siblings, p => by
    unfold scan
    refine paced_judge fun judged => ?_
    obtain ⟨satisfied, progress⟩ := judged
    cases satisfied with
    | true =>
      simp only [if_true, commit]
      split
      · exact .of_asks (.pure _)
      · exact hbelow e _ _
    | false =>
      simp only [Bool.false_eq_true, if_false]
      split
      · exact (paced_scan goal siblings progress).mono
      refine (hbelow e goal progress).bind fun finding => ?_
      obtain ⟨found, after⟩ := finding
      cases found with
      | some _ => exact .of_asks (.pure _)
      | none => exact paced_scan goal siblings _

end Scan

/-- A search below an element asks for its children first. -/
theorem searchBelow_paced : ∀ (reach : Nat) (e : E) (goal : Goal E) (p : Progress),
    Paced world [.children e] (searchBelow reach e goal p)
  | 0, e, _, _ => by
    unfold searchBelow
    exact (asks_question (.children e)).bind fun _ => .of_asks (.pure _)
  | reach + 1, e, goal, p => by
    unfold searchBelow
    exact (asks_question (.children e)).bind fun children =>
      paced_scan (searchBelow_paced reach) goal children p

theorem rootPass_paced (reach : Nat) (goal : Goal E) (p : Progress) :
    Paced world [.roots] (rootPass reach goal p) :=
  (asks_question .roots).bind fun roots =>
    paced_scan (searchBelow_paced reach) goal roots p.newScope

theorem descendantPass_paced (reach : Nat) (root : E) (goal : Goal E) (p : Progress) :
    Paced world [.children root] (descendantPass reach root goal p) :=
  searchBelow_paced reach root goal _

end Search

end Locator
