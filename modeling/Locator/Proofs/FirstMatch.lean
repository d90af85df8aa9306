import Locator.Proofs.DocumentOrder
import Locator.Proofs.Requests

/-!
# The first match in document order

A level that counts nothing, neither by an index nor by `Current`, is judged by the attributes of an
element alone (`meets_eq_bears`). For such a level a scan is a search through a list: it comes to
the first element that bears its qualifiers, among the siblings and all that lies below them, in
document order, or among the siblings only if it is shallow (`Scan.find?`). So a descendant request
for one level comes to the first such descendant of its root (`first_descendant`).
-/

namespace Locator

open Text

/-! ## What an element bears -/

namespace Node

/-- The value of a property. A property that is not there is empty. -/
def property (node : Node) (name : String) : String :=
  (node.properties.get? name).getD ""

/-- The attributes of an element satisfy a qualifier. None do for an index, `Current` or `Path`. -/
def bears (node : Node) (q : Qualifier) : Bool :=
  match q.kind with
  | .className => node.className == q.value
  | .subclass => (Facts.lineageOf node.className node.superclasses).contains q.value
  | .type => sameIgnoringCase node.typeOrClass.toList q.value.toList
  | .caption => node.caption == q.value
  | .ident => node.ident.any (sameNumber · q.value)
  | .name => node.name == some q.value
  | .nameContains => node.name.any (containsIgnoringCase · q.value)
  | .property => q.propertyParts?.any fun (name, expected) => node.property name == expected
  | .propertyContains =>
    q.propertyParts?.any fun (name, expected) => containsIgnoringCase (node.property name) expected
  | .text => node.text == q.value
  | .textContains => containsIgnoringCase node.text q.value
  | _ => false

end Node

def Level.Uncounted (level : Level) : Prop :=
  ∀ q ∈ level.qualifiers, q.kind.isIndex = false ∧ q.kind ≠ .current

def Snapshot.bears (tree : Snapshot) (level : Level) (e : Place) : Bool :=
  (tree.node? e).any fun node => level.qualifiers.all node.bears

theorem holds_eq_bears (node : Node) (q : Qualifier) (hindex : q.kind.isIndex = false)
    (hcurrent : q.kind ≠ .current) (level : Level) (counters : Counters) (scope : Scope)
    (ancestor : Option String) :
    q.holds { facts := node.facts, level, counters, scope } ancestor (node.reading q.reading?)
      = node.bears q := by
  obtain ⟨kind, value, bare⟩ := q
  cases kind with
  | property | propertyContains =>
    simp only [Qualifier.holds, Qualifier.reading?, Node.bears]
    rcases Qualifier.propertyParts? _ with _ | ⟨name, expected⟩ <;> rfl
  | current => exact absurd rfl hcurrent
  | index | classIndex | objectIndex | absClassIndex | absIndex | absObjectIndex | subclassIndex
  | absSubclassIndex => cases hindex
  | _ => rfl

/-- The counters do not matter to a level that counts nothing. -/
theorem meets_eq_bears {E : Type} (node : Node) {goal : Goal E} (h : goal.level.Uncounted)
    (counters : Counters) : node.meets goal counters = goal.level.qualifiers.all node.bears := by
  have hall : ∀ (qualifiers : List Qualifier) (ancestor : Option String),
      (∀ q ∈ qualifiers, q.kind.isIndex = false ∧ q.kind ≠ .current) →
        node.satisfies { facts := node.facts, level := goal.level, counters, scope := goal.scope }
          ancestor qualifiers = qualifiers.all node.bears := by
    intro qualifiers
    induction qualifiers with
    | nil => exact fun _ _ => rfl
    | cons q rest ih =>
      intro ancestor hq
      obtain ⟨hindex, hcurrent⟩ := hq q List.mem_cons_self
      rw [Node.satisfies, List.all_cons, holds_eq_bears node q hindex hcurrent,
        ih _ fun p hp => hq p (List.mem_cons_of_mem q hp)]
  exact hall goal.level.qualifiers none h

/-! ## A scan as a search through a list -/

section Scan

variable {tree : Snapshot} {goal : Goal Place} {siblings : List Place} {before after : Progress}
  {result : Option Place} {vs : List (Visit Place)}

/-- The elements that a scan looks at, if nothing satisfies the level: siblings and all that lies
below them, or siblings only. -/
def Snapshot.lookedAt (tree : Snapshot) (goal : Goal Place) (siblings : List Place) : List Place :=
  if goal.shallow then siblings else siblings.flatMap fun e => e :: tree.below e

@[simp] theorem Snapshot.lookedAt_nil (tree : Snapshot) (goal : Goal Place) :
    tree.lookedAt goal [] = [] := by
  cases h : goal.shallow <;> simp [lookedAt, h]

theorem Snapshot.lookedAt_cons_of_shallow (h : goal.shallow = true) (e : Place)
    (siblings : List Place) :
    tree.lookedAt goal (e :: siblings) = e :: tree.lookedAt goal siblings := by
  simp [lookedAt, h]

theorem Snapshot.lookedAt_cons_of_deep (h : goal.shallow = false) (e : Place)
    (siblings : List Place) :
    tree.lookedAt goal (e :: siblings)
      = e :: (tree.lookedAt goal (tree.children e) ++ tree.lookedAt goal siblings) := by
  simp [lookedAt, h, ← tree.below_eq]

theorem Snapshot.lookedAt_children {s : Place} (hanchor : goal.anchor = some s) :
    tree.lookedAt goal (tree.children s)
      = if goal.level.fpsm then tree.children s else tree.below s := by
  rw [lookedAt, Goal.shallow, hanchor, Option.isNone_some, Bool.false_or, ← tree.below_eq]

theorem Scan.find? (h : Scan tree goal siblings before result after vs) :
    goal.level.Uncounted → goal.rest = [] →
      result = (tree.lookedAt goal siblings).find? (tree.bears goal.level) := by
  have hbears {e : Place} {node : Node} {goal : Goal Place} {counters : Counters}
      (he : tree.node? e = some node) (hlevel : goal.level.Uncounted) :
      tree.bears goal.level e = node.meets goal counters := by
    rw [meets_eq_bears node hlevel, Snapshot.bears, he, Option.any_some]
  induction h with
  | nil => simp
  | @last goal e node siblings before he hm hn =>
    intro hlevel _
    have hfirst : tree.bears goal.level e = true := by rw [hbears he hlevel, hm]
    cases hs : goal.shallow with
    | true => rw [Snapshot.lookedAt_cons_of_shallow hs, List.find?_cons_of_pos hfirst]
    | false => rw [Snapshot.lookedAt_cons_of_deep hs, List.find?_cons_of_pos hfirst]
  | commit _ _ hn _ _ =>
    intro _ hrest
    rw [(Goal.ofLevels?_eq_some.1 hn).2.2] at hrest
    cases hrest
  | @skip goal e node siblings before after result vs he hm hs _ ih =>
    intro hlevel hrest
    have hfirst : ¬ tree.bears goal.level e = true := by rwa [hbears he hlevel]
    rw [Snapshot.lookedAt_cons_of_shallow hs, List.find?_cons_of_neg hfirst]
    exact ih hlevel hrest
  | @found goal e x node siblings before after vs he hm hs _ ih =>
    intro hlevel hrest
    have hfirst : ¬ tree.bears goal.level e = true := by rwa [hbears he hlevel]
    rw [Snapshot.lookedAt_cons_of_deep hs, List.find?_cons_of_neg hfirst, List.find?_append,
      ← ih hlevel hrest, Option.some_or]
  | @failed goal e node siblings before between after result vs ws he hm hs _ _ ihbelow ihrest =>
    intro hlevel hrest
    have hfirst : ¬ tree.bears goal.level e = true := by rwa [hbears he hlevel]
    rw [Snapshot.lookedAt_cons_of_deep hs, List.find?_cons_of_neg hfirst, List.find?_append,
      ← ihbelow hlevel hrest, Option.none_or]
    exact ihrest hlevel hrest

end Scan

/-! ## A request for one level -/

/-- A single pass for one level that counts nothing comes to the first descendant of the root in use
that bears it, or to the first child, if the level asks for a child. It comes to nothing just when
there is no such element. -/
theorem first_descendant {tree : Snapshot} {engine : Engine Place} (hlisted : tree.unlisted = false)
    (hreach : tree.height ≤ engine.reach) {rootPath path : String} {time : Clock} {root : Place}
    (hroot : engine.rootInUse tree.world rootPath true time = some root)
    (hthere : (tree.node? root).isSome) {chain : Chain} (hchain : Engine.readPath path = .ok chain)
    {level : Level}
    (hone : chain.levels.drop (Engine.firstSearched engine.settings chain) = [level])
    (huncounted : level.Uncounted) (timeoutSecs : Nat) :
    ∃ outcome, (engine.handle tree.world (.descendant rootPath path timeoutSecs true) time).1
        = .ok outcome
      ∧ outcome.located?.map (·.element)
        = (if level.fpsm then tree.children root else tree.below root).find?
            (tree.bears level) := by
  obtain ⟨node, hnode⟩ := Option.isSome_iff_exists.1 hthere
  obtain ⟨cachedRoot, memory, later, hhandle, -⟩ :=
    Engine.handle_descendant timeoutSecs hchain hroot
  have hgoal : Engine.goalBelow? engine.settings chain root
      = some ⟨some root, Engine.firstSearched engine.settings chain, level, []⟩ := by
    simp only [Engine.goalBelow?, hone]
    rfl
  obtain ⟨result, after, vs, ⟨counters, hscan⟩, outcome, hrun, houtcome⟩ :=
    Engine.locateBelow_singlePass hlisted hreach hnode hgoal cachedRoot timeoutSecs memory later
  refine ⟨outcome, hhandle.trans hrun, houtcome.trans ?_⟩
  rw [hscan.find? huncounted rfl]
  unfold Snapshot.lookedAt Goal.shallow
  simp only [Option.isNone_some, Bool.false_or, Snapshot.under, ← tree.below_eq]

/-- The first button of a window is the one in the panel. -/
theorem first_descendant_window :
    ∃ outcome, ((windowTree.engine {}).handle windowTree.world
        (.descendant "Class=Window" "Class=Button" 0 true) {}).1 = .ok outcome
      ∧ outcome.located?.map (·.element) = some ⟨[0, 0, 0]⟩ := by
  have hroot : (windowTree.engine {}).rootInUse windowTree.world "Class=Window" true {}
      = some ⟨[0]⟩ := by decide +kernel
  have hchain : Engine.readPath "Class=Button"
      = .ok ⟨"Class=Button", Level.ofText "Class=Button", []⟩ := by decide +kernel
  have huncounted : (Level.ofText "Class=Button").Uncounted := by
    unfold Level.Uncounted
    decide +kernel
  obtain ⟨outcome, hhandle, houtcome⟩ := first_descendant rfl (Nat.le_refl _) hroot rfl hchain
    (by decide +kernel) huncounted 0
  exact ⟨outcome, hhandle, houtcome.trans (by decide +kernel)⟩

end Locator
