import Locator.Proofs.Asking
import Locator.Proofs.Chains
import Locator.Proofs.Counting
import Locator.Proofs.Polling

/-!
# What a search depends on

A level without absolute indices is judged by the counts of the scope alone, so a search for such
levels depends on these only (`searchBelow_alike`): two searches that agree on them ask alike and
find the same, and the counts that they mark agree again. What stands above the levels of one of
them does not matter, nor do the absolute counts, nor how the levels are spelled.

That is an instance of a view of the counters, a part of them that every step carries on by itself.
Another is the view of all of them, which suffices for every level.
-/

namespace Locator

variable {E V : Type}

/-! ## Views of the counters -/

/-- A part of the counters, which after a step depends only on what it was before. -/
structure Counters.View (V : Type) where
  of : Counters → V
  of_visit : ∀ {c c'}, of c = of c' → ∀ facts, of (c.visit facts) = of (c'.visit facts)
  of_newScope : ∀ {c c'}, of c = of c' → of c.newScope = of c'.newScope
  of_rollBack : ∀ {c c' saved saved'}, of c = of c' → of saved = of saved' →
    of (c.rollBack saved) = of (c'.rollBack saved')

namespace Counters

def View.all : View Counters where
  of := id
  of_visit h facts := congrArg (visit · facts) h
  of_newScope h := congrArg newScope h
  of_rollBack h hs := congrArg₂ rollBack h hs

/-- The relative counts, and the ordinal of the last object in the scope. -/
def inScope (c : Counters) : Census × Nat := (c.relative, c.object)

theorem relative_foldl_bump {c c' : Counters} (h : c.relative = c'.relative) (family : Family)
    (keys : List String) :
    (keys.foldl (fun c key => c.bump family key) c).relative
      = (keys.foldl (fun c key => c.bump family key) c').relative := by
  induction keys generalizing c c' with
  | nil => exact h
  | cons key keys ih => exact ih (congrArg (·.bump family key) h)

theorem relative_bumpAny {c c' : Counters} (h : c.relative = c'.relative) (family : Family)
    (key : Option String) :
    (c.bumpAny family key).relative = (c'.bumpAny family key).relative := by
  cases key with
  | none => exact h
  | some key => exact congrArg (·.bump family key) h

theorem relative_visit {c c' : Counters} (h : c.relative = c'.relative) (facts : Facts) :
    (c.visit facts).relative = (c'.visit facts).relative := by
  have hclassed : (c.bump .className facts.className).relative
      = (c'.bump .className facts.className).relative :=
    congrArg (·.bump .className facts.className) h
  have hdescended := relative_foldl_bump hclassed .subclass facts.lineage
  exact relative_bumpAny (relative_bumpAny
    (congrArg (·.bump .type facts.typeKey) hdescended) .ident facts.ident) .name facts.name

theorem inScope_eq_iff {c c' : Counters} :
    c.inScope = c'.inScope ↔ c.relative = c'.relative ∧ c.object = c'.object := by
  rw [inScope, inScope, Prod.mk.injEq]

def View.scope : View (Census × Nat) where
  of := inScope
  of_visit h facts := by
    obtain ⟨hrelative, hobject⟩ := inScope_eq_iff.1 h
    refine inScope_eq_iff.2 ⟨relative_visit hrelative facts, ?_⟩
    rw [object_visit, object_visit, hobject]
  of_newScope _ := rfl
  of_rollBack h hs := by
    obtain ⟨hrelative, hobject⟩ := inScope_eq_iff.1 h
    obtain ⟨hsaved, -⟩ := inScope_eq_iff.1 hs
    exact inScope_eq_iff.2 ⟨by simp only [rollBack, hrelative, hsaved], hobject⟩

end Counters

/-! ## Levels that a view suffices for -/

def Qualifier.Kind.isAbsolute : Qualifier.Kind → Bool
  | absClassIndex | absIndex | absObjectIndex | absSubclassIndex => true
  | _ => false

/-- None of the qualifiers of a level is an absolute index. -/
def Level.Relative (level : Level) : Prop :=
  ∀ q ∈ level.qualifiers, q.kind.isAbsolute = false

def Chain.Relative (chain : Chain) : Prop :=
  ∀ level ∈ chain.levels, level.Relative

/-- A qualifier looks at its level only for the kinds of the other qualifiers. -/
theorem Qualifier.holds_congr_of_has (q : Qualifier) {level level' : Level}
    (h : ∀ kind, level.has kind = level'.has kind) {facts : Facts} {c : Counters} {scope : Scope}
    {ancestor : Option String} {text : String} :
    q.holds ⟨facts, level, c, scope⟩ ancestor text
      = q.holds ⟨facts, level', c, scope⟩ ancestor text := by
  have hindex : Situation.indexCount ⟨facts, level, c, scope⟩
      = Situation.indexCount ⟨facts, level', c, scope⟩ := by
    simp only [Situation.indexCount, h]
    rfl
  have habsolute : Situation.absIndexCount ⟨facts, level, c, scope⟩
      = Situation.absIndexCount ⟨facts, level', c, scope⟩ := by
    simp only [Situation.absIndexCount, h]
  simp only [holds, hindex, habsolute]

theorem Qualifier.holds_congr (q : Qualifier) {level level' : Level}
    (h : level.qualifiers = level'.qualifiers) {facts : Facts} {c : Counters} {scope : Scope}
    {ancestor : Option String} {text : String} :
    q.holds ⟨facts, level, c, scope⟩ ancestor text
      = q.holds ⟨facts, level', c, scope⟩ ancestor text :=
  q.holds_congr_of_has fun kind => congrArg (·.any fun q => q.kind == kind) h

/-- What a view shows of the counters is all that a level is judged by. -/
def Counters.View.Suffices (view : Counters.View V) (level : Level) : Prop :=
  ∀ q ∈ level.qualifiers, ∀ facts scope ancestor text c c', view.of c = view.of c' →
    q.holds ⟨facts, level, c, scope⟩ ancestor text = q.holds ⟨facts, level, c', scope⟩ ancestor text

theorem Counters.View.all_suffices (level : Level) : View.all.Suffices level := by
  rintro q - facts scope ancestor text c c' h
  obtain rfl : c = c' := h
  rfl

theorem Level.Relative.suffices {level : Level} (h : level.Relative) :
    Counters.View.scope.Suffices level := by
  intro q hq facts scope ancestor text c c' hc
  obtain ⟨hrelative, hobject⟩ := Counters.inScope_eq_iff.1 hc
  have hcount : ∀ family key, c.count family key = c'.count family key := fun family key =>
    congrArg (·.count family key) hrelative
  obtain ⟨kind, value, bare⟩ := q
  have hkind : kind.isAbsolute = false := h _ hq
  cases kind with
  | absClassIndex | absIndex | absObjectIndex | absSubclassIndex => cases hkind
  | index =>
    have hindex : Situation.indexCount ⟨facts, level, c, scope⟩
        = Situation.indexCount ⟨facts, level, c', scope⟩ := by
      have hany : ∀ family key, Situation.countAny ⟨facts, level, c, scope⟩ family key
          = Situation.countAny ⟨facts, level, c', scope⟩ family key := by
        rintro family (_ | key)
        · rfl
        · exact hcount family key
      simp only [Situation.indexCount, hany, hcount]
    simp only [Qualifier.holds, hindex]
  | _ => simp only [Qualifier.holds, hcount, hobject]

/-! ## Progresses that agree -/

/-- Levels that ask for the same, in a chain that has some more levels above them. -/
structure Goal.Counterpart (above : Nat) (goal goal' : Goal E) : Prop where
  anchor : goal.anchor = goal'.anchor
  position : goal.position = above + goal'.position
  level : goal.level.meaning = goal'.level.meaning
  rest : goal.rest.map Level.meaning = goal'.rest.map Level.meaning

namespace Goal.Counterpart

variable {above : Nat} {goal goal' : Goal E}

theorem self (goal : Goal E) : goal.Counterpart 0 goal :=
  ⟨rfl, (Nat.zero_add _).symm, rfl, rfl⟩

theorem fpsm (h : goal.Counterpart above goal') : goal.level.fpsm = goal'.level.fpsm :=
  congrArg Prod.fst h.level

theorem qualifiers (h : goal.Counterpart above goal') :
    goal.level.qualifiers = goal'.level.qualifiers :=
  congrArg Prod.snd h.level

theorem shallow (h : goal.Counterpart above goal') : goal.shallow = goal'.shallow := by
  rw [Goal.shallow, Goal.shallow, h.anchor, h.fpsm]

theorem ofLevels? (anchor : Option E) (above position : Nat) {levels levels' : List Level}
    (h : levels.map Level.meaning = levels'.map Level.meaning) :
    Option.Rel (Counterpart above) (Goal.ofLevels? anchor (above + position) levels)
      (Goal.ofLevels? anchor position levels') := by
  rcases levels with _ | ⟨level, rest⟩ <;> rcases levels' with _ | ⟨level', rest'⟩
  · exact .none
  · cases h
  · cases h
  · rw [List.map_cons, List.map_cons, List.cons.injEq] at h
    exact .some ⟨rfl, rfl, h.1, h.2⟩

theorem next? (h : goal.Counterpart above goal') (e : E) :
    Option.Rel (Counterpart above) (goal.next? e) (goal'.next? e) := by
  rw [Goal.next?, Goal.next?, h.position, Nat.add_assoc]
  exact ofLevels? (some e) above (goal'.position + 1) h.rest

end Goal.Counterpart

namespace Counters.View

variable {view : View V} {front : List (Option Counters)} {size : Nat} {p q : Progress}

/-- The counters of two progresses agree in a view, and so do the marks, where those of the first
come after the marks of some more levels. -/
structure Agree (view : View V) (front : List (Option Counters)) (size : Nat) (p q : Progress) :
    Prop where
  counters : view.of p.counters = view.of q.counters
  marks : ∃ back, p.marks.byLevel = front ++ back
    ∧ back.map (Option.map view.of) = q.marks.byLevel.map (Option.map view.of)
  length : q.marks.byLevel.length = size

namespace Agree

theorem visit (h : view.Agree front size p q) (facts : Facts) :
    view.Agree front size (p.visit facts) (q.visit facts) :=
  ⟨view.of_visit h.counters facts, h.marks, h.length⟩

theorem newScope (h : view.Agree front size p q) :
    view.Agree front size p.newScope q.newScope :=
  ⟨view.of_newScope h.counters, h.marks, h.length⟩

theorem rollBack (h : view.Agree front size p q) {saved saved' : Counters}
    (hs : view.of saved = view.of saved') :
    view.Agree front size (p.rollBack saved) (q.rollBack saved') :=
  ⟨view.of_rollBack h.counters hs, h.marks, h.length⟩

theorem record (h : view.Agree front size p q) (position : Nat) :
    view.Agree front size (p.record (front.length + position)) (q.record position) := by
  obtain ⟨back, hp, hq⟩ := h.marks
  refine ⟨h.counters, ⟨back.set position (some p.counters), ?_, ?_⟩, ?_⟩
  · simp only [Progress.record, Marks.set, hp]
    rw [List.set_append_right _ _ (Nat.le_add_right _ _), Nat.add_sub_cancel_left]
  · simp only [Progress.record, Marks.set, List.map_set, hq, Option.map_some, h.counters]
  · exact List.length_set.trans h.length

/-- Blank marks agree. -/
theorem of_unmarked {above : Nat} (hp : p.marks.byLevel.length = above + size)
    (hq : q.marks.byLevel.length = size) (h : view.of p.counters = view.of q.counters) :
    view.Agree (List.replicate above none) size p.unmarked q.unmarked where
  counters := h
  marks := by
    refine ⟨List.replicate size none, ?_, ?_⟩
    · simp only [Progress.unmarked, Marks.clear, List.map_const', hp, List.replicate_add]
    · simp only [Progress.unmarked, Marks.clear, List.map_const', hq, List.map_replicate,
        Option.map_none]
  length := (List.length_map _).trans hq

end Agree

/-- Findings of the same element, or of none. -/
def SameFinding (view : View V) (front : List (Option Counters)) (size : Nat)
    (f g : Finding E) : Prop :=
  f.1 = g.1 ∧ view.Agree front size f.2 g.2

/-- A view suffices for all levels of a goal. -/
def SufficesFor (view : View V) (goal : Goal E) : Prop :=
  ∀ level ∈ goal.level :: goal.rest, view.Suffices level

theorem SufficesFor.next {goal next : Goal E} {e : E} (h : view.SufficesFor goal)
    (hnext : goal.next? e = some next) : view.SufficesFor next := by
  obtain ⟨-, -, hrest⟩ := Goal.ofLevels?_eq_some.1 hnext
  exact fun level hlevel => h level (List.mem_cons_of_mem _ (hrest ▸ hlevel))

end Counters.View

/-! ## Searches that ask alike -/

namespace Search

variable {view : Counters.View V} {front : List (Option Counters)} {size : Nat}

theorem facts_alike (e : E) : Alike Eq (facts e) (facts e) := by
  unfold facts
  refine (Alike.question _).bind_same fun className => ?_
  refine (Alike.question _).bind_same fun superclasses => ?_
  refine (Alike.question _).bind_same fun resolvedType => ?_
  refine (Alike.question _).bind_same fun ident => ?_
  exact (Alike.question _).bind_same fun name => .done rfl

theorem read_alike (e : E) : ∀ what : Option Reading, Alike Eq (read e what) (read e what)
  | none => .done rfl
  | some .text => .question (.text e)
  | some .caption => .question (.caption e)
  | some (.property name) => .question (.property e name)

theorem satisfies_alike (e : E) {level level' : Level}
    (hlevel : level.qualifiers = level'.qualifiers) (facts : Facts) (scope : Scope)
    {c c' : Counters} (hc : view.of c = view.of c') :
    ∀ (qualifiers : List Qualifier) (ancestor : Option String),
      (∀ q ∈ qualifiers, ∀ facts scope ancestor text c c', view.of c = view.of c' →
        q.holds ⟨facts, level, c, scope⟩ ancestor text
          = q.holds ⟨facts, level, c', scope⟩ ancestor text) →
      Alike Eq (satisfies e ⟨facts, level, c, scope⟩ ancestor qualifiers)
        (satisfies e ⟨facts, level', c', scope⟩ ancestor qualifiers)
  | [], _, _ => .done rfl
  | q :: rest, ancestor, h => by
    unfold satisfies
    refine (read_alike e _).bind_same fun text => ?_
    rw [h q List.mem_cons_self facts scope ancestor text c c' hc, q.holds_congr hlevel]
    split
    · exact satisfies_alike e hlevel facts scope hc rest _ fun q hq =>
        h q (List.mem_cons_of_mem _ hq)
    · exact .done rfl

/-- An element is judged by a level for which a view suffices: the answers are the same, and each
progress has counted the element and, if it satisfies the level, marked the level. -/
theorem judge_alike (goal goal' : Goal E) (hlevel : goal.level.qualifiers = goal'.level.qualifiers)
    (hscope : goal.scope = goal'.scope) (h : view.Suffices goal.level) {p q : Progress}
    (hpq : view.of p.counters = view.of q.counters) (e : E) :
    Alike (fun a b => ∃ (satisfied : Bool) (facts : Facts),
        a = (satisfied,
          if satisfied then (p.visit facts).record goal.position else p.visit facts)
        ∧ b = (satisfied,
          if satisfied then (q.visit facts).record goal'.position else q.visit facts))
      (judge goal e p) (judge goal' e q) := by
  unfold judge
  refine (facts_alike e).bind_same fun facts => .visit ?_
  rw [← hlevel, ← hscope]
  refine (satisfies_alike e hlevel facts _ (view.of_visit hpq facts) _ none h).bind ?_
  rintro satisfied _ rfl
  exact .done ⟨satisfied, facts, rfl, rfl⟩

section Scan

variable {reach : Nat}
  (hbelow : ∀ (e : E) (goal goal' : Goal E) (p q : Progress),
    goal.Counterpart front.length goal' → view.SufficesFor goal → view.Agree front size p q →
    Alike (view.SameFinding front size) (searchBelow reach e goal p) (searchBelow reach e goal' q))
  {goal goal' : Goal E} (hgoal : goal.Counterpart front.length goal') (h : view.SufficesFor goal)
include hbelow hgoal h

theorem commit_alike {p q : Progress} (hpq : view.Agree front size p q) (e : E) :
    Alike (view.SameFinding front size) (commit (searchBelow reach) goal e p)
      (commit (searchBelow reach) goal' e q) := by
  unfold commit
  have hboth := hgoal.next? e
  rcases hnext : goal.next? e with _ | next <;> rcases hnext' : goal'.next? e with _ | next' <;>
    rw [hnext, hnext'] at hboth
  · exact .done ⟨rfl, hpq⟩
  · cases hboth
  · cases hboth
  · cases hboth with
    | some hboth => exact hbelow e next next' _ _ hboth (h.next hnext) hpq.newScope

theorem scan_alike : ∀ (siblings : List E) {p q : Progress}, view.Agree front size p q →
    Alike (view.SameFinding front size) (scan (searchBelow reach) goal siblings p)
      (scan (searchBelow reach) goal' siblings q)
  | [], _, _, hpq => .done ⟨rfl, hpq⟩
  | e :: siblings, p, q, hpq => by
    have hscope : goal.scope = goal'.scope := by rw [Goal.scope, Goal.scope, hgoal.anchor]
    have hjudge := judge_alike goal goal' hgoal.qualifiers hscope (h goal.level List.mem_cons_self)
      hpq.counters e
    unfold scan
    refine hjudge.bind ?_
    rintro _ _ ⟨satisfied, facts, rfl, rfl⟩
    have hvisit := hpq.visit facts
    cases satisfied with
    | true =>
      have hmarked := hvisit.record goal'.position
      rw [← hgoal.position] at hmarked
      exact commit_alike hbelow hgoal h hmarked e
    | false =>
      simp only [Bool.false_eq_true, if_false, hgoal.shallow]
      split
      · exact scan_alike siblings hvisit
      refine (hbelow e goal goal' _ _ hgoal h hvisit).bind ?_
      rintro ⟨result, p'⟩ ⟨_, q'⟩ ⟨rfl, hafter⟩
      cases result with
      | some found => exact .done ⟨rfl, hafter⟩
      -- each goes back to the counts before its own excursion, and these agreed
      | none => exact scan_alike siblings (hafter.rollBack hvisit.counters)

end Scan

/-- Searches for levels that ask for the same, from progresses that agree in a view which suffices
for them, ask alike and come to the same. -/
theorem searchBelow_alike : ∀ (reach : Nat) (e : E) (goal goal' : Goal E) (p q : Progress),
    goal.Counterpart front.length goal' → view.SufficesFor goal → view.Agree front size p q →
    Alike (view.SameFinding front size) (searchBelow reach e goal p) (searchBelow reach e goal' q)
  | 0, e, goal, goal', p, q, _, _, hpq => by
    unfold searchBelow
    exact (Alike.question _).bind_same fun _ => .done ⟨rfl, hpq⟩
  | reach + 1, e, goal, goal', p, q, hgoal, h, hpq => by
    unfold searchBelow
    exact (Alike.question _).bind_same fun children =>
      scan_alike (searchBelow_alike reach) hgoal h children hpq

/-- A pass among the roots depends only on what the levels ask for, and on what a view shows in a
new scope, if the view suffices for the levels. -/
theorem rootPass_counterpart (reach : Nat) {goal goal' : Goal E} (hgoal : goal.Counterpart 0 goal')
    (hsuffices : view.SufficesFor goal) {p q : Progress}
    (hpq : view.of p.counters.newScope = view.of q.counters.newScope)
    (hp : p.marks.byLevel.length = size) (hq : q.marks.byLevel.length = size) :
    Alike (view.SameFinding [] size) (rootPass reach goal p.unmarked)
      (rootPass reach goal' q.unmarked) := by
  have hblank : view.Agree [] size p.newScope.unmarked q.newScope.unmarked :=
    .of_unmarked (p := p.newScope) (q := q.newScope) (hp.trans (Nat.zero_add size).symm) hq hpq
  have hgoal : goal.Counterpart ([] : List (Option Counters)).length goal' := hgoal
  exact (Alike.question .roots).bind_same fun roots =>
    scan_alike (searchBelow_alike reach) hgoal hsuffices roots hblank

/-- So does a pass below an element, where the levels of one chain may have more levels above
them. -/
theorem descendantPass_counterpart (reach : Nat) (e : E) {above : Nat} {goal goal' : Goal E}
    (hgoal : goal.Counterpart above goal') (hsuffices : view.SufficesFor goal) {p q : Progress}
    (hpq : view.of p.counters.newScope = view.of q.counters.newScope)
    (hp : p.marks.byLevel.length = above + size) (hq : q.marks.byLevel.length = size) :
    Alike (view.SameFinding (List.replicate above none) size)
      (descendantPass reach e goal p.unmarked) (descendantPass reach e goal' q.unmarked) := by
  have hblank : view.Agree (List.replicate above none) size p.newScope.unmarked
      q.newScope.unmarked := .of_unmarked hp hq hpq
  refine searchBelow_alike reach e goal goal' _ _ ?_ hsuffices
    (hblank.rollBack (rfl : view.of {} = view.of {}))
  rwa [List.length_replicate]

/-- A pass depends only on what a view shows in a new scope, if the view suffices for its levels. -/
theorem PassOf.alike {engine : Engine E} {goal : Goal E}
    {pass : Progress → Search E (Finding E)} (h : PassOf engine goal pass)
    (hsuffices : view.SufficesFor goal) (p q : Progress)
    (hpq : view.of p.counters.newScope = view.of q.counters.newScope)
    (hp : p.marks.byLevel.length = size) (hq : q.marks.byLevel.length = size) :
    Alike (view.SameFinding [] size) (pass p.unmarked) (pass q.unmarked) := by
  cases h with
  | root chain => exact rootPass_counterpart engine.reach (.self _) hsuffices hpq hp hq
  | @descendant _ root =>
    exact descendantPass_counterpart engine.reach root (.self _) hsuffices hpq
      (hp.trans (Nat.zero_add size).symm) hq

end Search

end Locator
