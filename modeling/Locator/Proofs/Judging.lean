import Locator.Proofs.Returning
import Locator.Search.Judgement
import Locator.Snapshot.World

/-!
# Judging an element of a snapshot

In a snapshot an element is judged by its node alone: it satisfies a level when each qualifier holds
of what the node has, with the counters of the visit and the ancestor that the last `Subclass`
qualifier before it names (`meets_iff`). Judging it is one visit (`judge_returns`).
-/

namespace Locator

namespace Node

def facts (node : Node) : Facts where
  className := node.className
  lineage := Facts.lineageOf node.className node.superclasses
  resolvedType := node.typeOrClass
  ident := node.ident
  name := node.name

def reading (node : Node) : Option Reading → String
  | none => ""
  | some .text => node.text
  | some .caption => node.caption
  | some (.property name) => (node.properties.get? name).getD ""

def satisfies (node : Node) (s : Situation) (ancestor : Option String) : List Qualifier → Bool
  | [] => true
  | q :: rest =>
    q.holds s ancestor (node.reading q.reading?)
      && node.satisfies s (q.ancestorAfter ancestor) rest

def meets {E : Type} (node : Node) (goal : Goal E) (counters : Counters) : Bool :=
  node.satisfies { facts := node.facts, level := goal.level, counters, scope := goal.scope } none
    goal.level.qualifiers

end Node

/-! ## What satisfies a level -/

/-- The ancestor that the last `Subclass` qualifier among some names. -/
def namedAncestor (qualifiers : List Qualifier) : Option String :=
  (qualifiers.reverse.find? (·.kind == .subclass)).map (·.value)

def Node.Fulfils (node : Node) (level : Level) (scope : Scope) (counters : Counters) : Prop :=
  ∀ before q after, level.qualifiers = before ++ q :: after →
    q.holds { facts := node.facts, level, counters, scope } (namedAncestor before)
      (node.reading q.reading?)

theorem namedAncestor_concat (before : List Qualifier) (q : Qualifier) :
    namedAncestor (before ++ [q]) = q.ancestorAfter (namedAncestor before) := by
  obtain ⟨kind, value, bare⟩ := q
  rw [namedAncestor, List.reverse_append, List.reverse_singleton, List.singleton_append,
    List.find?_cons]
  cases kind <;> rfl

namespace Node

theorem satisfies_iff (node : Node) (s : Situation) : ∀ before rest : List Qualifier,
    node.satisfies s (namedAncestor before) rest ↔ ∀ between q after,
      rest = between ++ q :: after →
        q.holds s (namedAncestor (before ++ between)) (node.reading q.reading?)
  | before, [] => by simp [satisfies]
  | before, q :: rest => by
    rw [satisfies, Bool.and_eq_true, ← namedAncestor_concat, satisfies_iff node s (before ++ [q])]
    constructor
    · rintro ⟨hq, hrest⟩ between p after h
      rcases between with _ | ⟨b, between⟩
      · obtain ⟨rfl, rfl⟩ := List.cons.inj h
        rwa [List.append_nil]
      · obtain ⟨rfl, heq⟩ := List.cons.inj h
        have := hrest between p after heq
        rwa [List.append_assoc] at this
    · intro h
      refine ⟨by simpa using h [] q rest rfl, fun between p after hrest => ?_⟩
      rw [List.append_assoc]
      exact h (q :: between) p after (congrArg (q :: ·) hrest)

theorem meets_iff {E : Type} (node : Node) (goal : Goal E) (counters : Counters) :
    node.meets goal counters ↔ node.Fulfils goal.level goal.scope counters :=
  satisfies_iff node _ [] goal.level.qualifiers

end Node

/-! ## Judging by asking -/

/-- The visit of an element in search of a goal. -/
def Goal.visit {E : Type} (goal : Goal E) (element : E) (facts : Facts) (before : Progress) :
    Visit E :=
  { element, facts, goal, counters := (before.visit facts).counters }

namespace Search

variable {tree : Snapshot} {clock : Clock} {e : Place} {node : Node}

theorem answers (h : tree.node? e = some node) {query : Query Place} {answer : query.Answer}
    (ha : tree.node e = .ok node → tree.answer query = .ok answer) :
    Returns tree.world clock (question query) answer [] :=
  .question (by
    have hnode : tree.node e = .ok node := by simp only [Snapshot.node, h]
    simp only [Snapshot.world, ha hnode])

theorem refuses {query : Query Place} {error : Error} (h : tree.answer query = .error error) :
    Refused tree.world clock (question query) := by
  have hanswer : tree.world.answer query clock = (.error error, clock) := by
    simp only [Snapshot.world, h]
  exact .question hanswer

theorem facts_returns (h : tree.node? e = some node) :
    Returns tree.world clock (facts e) node.facts [] := by
  unfold facts
  refine .bind (answers h fun hn => by simp only [Snapshot.answer, hn]; rfl) ?_
  refine .bind (answers h fun hn => by simp only [Snapshot.answer, hn]; rfl) ?_
  refine .bind (answers h fun hn => by simp only [Snapshot.answer, hn]; rfl) ?_
  refine .bind (answers h fun hn => by simp only [Snapshot.answer, hn]; rfl) ?_
  refine .bind (answers h fun hn => by simp only [Snapshot.answer, hn]; rfl) ?_
  exact .pure node.facts

theorem read_returns (h : tree.node? e = some node) :
    ∀ what : Option Reading, Returns tree.world clock (read e what) (node.reading what) []
  | none => .pure ""
  | some .text => answers h fun hn => by simp only [Snapshot.answer, hn]; rfl
  | some .caption => answers h fun hn => by simp only [Snapshot.answer, hn]; rfl
  | some (.property name) => answers h fun hn => by simp only [Snapshot.answer, hn]; rfl

theorem satisfies_returns (h : tree.node? e = some node) (s : Situation) :
    ∀ (ancestor : Option String) (qualifiers : List Qualifier),
      Returns tree.world clock (satisfies e s ancestor qualifiers)
        (node.satisfies s ancestor qualifiers) []
  | _, [] => .pure true
  | ancestor, q :: rest => by
    unfold satisfies Node.satisfies
    refine .bind (read_returns h q.reading?) ?_
    cases q.holds s ancestor (node.reading q.reading?) with
    | true => exact satisfies_returns h s _ rest
    | false => exact .pure false

/-- To judge an element is to visit it once, and to mark the level if the element satisfies it. -/
theorem judge_returns (h : tree.node? e = some node) (goal : Goal Place) (before : Progress) :
    Returns tree.world clock (judge goal e before)
      (node.meets goal (before.visit node.facts).counters,
        if node.meets goal (before.visit node.facts).counters then
          (before.visit node.facts).record goal.position
        else before.visit node.facts)
      [goal.visit e node.facts before] := by
  unfold judge
  refine .bind (facts_returns h) (.visit _ ?_)
  exact .bind (satisfies_returns h _ none goal.level.qualifiers) (.pure _)

end Search

end Locator
