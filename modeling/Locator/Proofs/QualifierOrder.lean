import Locator.Proofs.Conjunction
import Locator.Proofs.Requests
import Locator.Proofs.Views

/-!
# The order of qualifiers

Of the qualifiers of a level only those that name or count a subclass depend on the ones before
them. So where what is read from an element stays the same, the others pass wherever they stand
(`Trial.passesAll_iff`), and a level may be written with its qualifiers in another order, as long as
these few keep theirs (`evaluate_reordered`). Where a text changes between two readings the order
tells, as each qualifier reads for itself (`fading_in_order`).
-/

namespace Locator

open Search

variable {σ E : Type}

/-- A qualifier that names a subclass or counts the one named before it. -/
def Qualifier.ofSubclass (q : Qualifier) : Bool :=
  match q.kind with
  | .subclass | .subclassIndex | .absSubclassIndex => true
  | _ => false

/-! ## What depends on the order -/

namespace Qualifier

variable {q : Qualifier}

theorem ancestorAfter_of_not_ofSubclass (h : q.ofSubclass = false) (ancestor : Option String) :
    q.ancestorAfter ancestor = ancestor := by
  obtain ⟨kind, value, bare⟩ := q
  cases kind <;> first | rfl | cases h

/-- Only a subclass index asks which ancestor is named. -/
theorem holds_of_not_ofSubclass (h : q.ofSubclass = false) (s : Situation)
    (ancestor other : Option String) (text : String) :
    q.holds s ancestor text = q.holds s other text := by
  obtain ⟨kind, value, bare⟩ := q
  cases kind <;> first | rfl | cases h

end Qualifier

theorem namedAncestor_filter_ofSubclass (qualifiers : List Qualifier) :
    namedAncestor (qualifiers.filter Qualifier.ofSubclass) = namedAncestor qualifiers := by
  induction qualifiers using List.reverseRecOn with
  | nil => rfl
  | append_singleton before q ih =>
    rw [List.filter_append, List.filter_singleton, namedAncestor_concat]
    cases hq : q.ofSubclass with
    | true => rw [cond_true, namedAncestor_concat, ih]
    | false =>
      rw [cond_false, List.append_nil, ih,
        Qualifier.ancestorAfter_of_not_ofSubclass hq]

theorem Level.has_of_perm {level level' : Level} (h : level.qualifiers.Perm level'.qualifiers)
    (kind : Qualifier.Kind) : level.has kind = level'.has kind :=
  h.any_eq

/-! ## What is read stays the same -/

namespace World

def afterReadings (world : World σ E) (element : E) (state : σ) (readings : List Reading) : σ :=
  readings.foldl (fun state what => (world.read element (some what) state).2) state

/-- Whatever is read from an element, and however often, it shows the same texts. -/
def Shows (world : World σ E) (element : E) (texts : Reading → String) (state : σ) : Prop :=
  ∀ readings what,
    (world.read element (some what) (world.afterReadings element state readings)).1
      = .ok (texts what)

end World

/-- In a snapshot what is read is what the node has. -/
theorem Snapshot.shows {tree : Snapshot} {e : Place} {node : Node} (h : tree.node? e = some node)
    (clock : Clock) : tree.world.Shows e (fun what => node.reading (some what)) clock := by
  have hread : ∀ what, tree.world.read e what clock = (.ok (node.reading what), clock) := by
    intro what
    have hreturns : Returns tree.world clock (read e what) (node.reading what) [] :=
      read_returns h what
    have hrun := hreturns.run {}
    rw [run_read] at hrun
    exact Prod.ext (congrArg Ending.result hrun) (congrArg Ending.state hrun)
  have hstill : ∀ readings, tree.world.afterReadings e clock readings = clock := by
    intro readings
    induction readings with
    | nil => rfl
    | cons what readings ih => rwa [World.afterReadings, List.foldl_cons, hread]
  intro readings what
  rw [hstill, hread]

namespace Trial

variable {t : Trial σ E} {texts : Reading → String}

theorem stateAfter_eq (qualifiers : List Qualifier) :
    t.stateAfter qualifiers
      = t.world.afterReadings t.element t.start (qualifiers.filterMap Qualifier.reading?) := by
  rw [World.afterReadings, List.foldl_filterMap, stateAfter]
  congr 1
  funext state q
  cases q.reading? <;> rfl

theorem readFor_of_shows (hshows : t.world.Shows t.element texts t.start)
    (before : List Qualifier) (q : Qualifier) :
    t.readFor before q = .ok (q.reading?.elim "" texts) := by
  rw [readFor, stateAfter_eq]
  rcases q.reading? with _ | what
  · rfl
  · exact hshows _ what

theorem passes_iff (hshows : t.world.Shows t.element texts t.start) {before : List Qualifier}
    {q : Qualifier} : t.Passes before q
      ↔ q.holds t.situation (namedAncestor before) (q.reading?.elim "" texts) := by
  rw [Passes, readFor_of_shows hshows]
  simp only [Except.ok.injEq, exists_eq_left']

/-- What passes is a matter of each qualifier by itself, but for those of subclasses. -/
theorem passesAll_iff (hshows : t.world.Shows t.element texts t.start)
    (qualifiers : List Qualifier) : t.PassesAll qualifiers
      ↔ (∀ q ∈ qualifiers, q.ofSubclass = false →
          q.holds t.situation none (q.reading?.elim "" texts))
        ∧ t.PassesAll (qualifiers.filter Qualifier.ofSubclass) := by
  induction qualifiers using List.reverseRecOn with
  | nil => exact iff_of_true passesAll_nil ⟨fun _ h => absurd h List.not_mem_nil, passesAll_nil⟩
  | append_singleton before q ih =>
    rw [passesAll_concat, ih, List.filter_append, List.filter_singleton, List.forall_mem_append,
      List.forall_mem_singleton, passes_iff hshows]
    cases hq : q.ofSubclass with
    | true =>
      rw [cond_true, passesAll_concat, passes_iff hshows, namedAncestor_filter_ofSubclass]
      simp [and_assoc]
    | false =>
      rw [cond_false, List.append_nil,
        Qualifier.holds_of_not_ofSubclass hq _ _ none, imp_iff_right rfl, and_right_comm]

/-- Where each qualifier is judged alike, so are all of them. -/
theorem passesAll_congr (t t' : Trial σ E) (hworld : t.world = t'.world)
    (helement : t.element = t'.element) (hstart : t.start = t'.start)
    (hholds : ∀ q ancestor text, Qualifier.holds q t.situation ancestor text
      = q.holds t'.situation ancestor text) (qualifiers : List Qualifier) :
    t.PassesAll qualifiers ↔ t'.PassesAll qualifiers := by
  have hread : t.readFor = t'.readFor := by
    unfold readFor stateAfter
    rw [hworld, helement, hstart]
  simp only [PassesAll, Passes, hread, hholds]

theorem result_of_shows (hshows : t.world.Shows t.element texts t.start)
    {qualifiers judged : List Qualifier} {result : Except Error Bool}
    (h : t.Verdict qualifiers result judged) : ∃ satisfied, result = .ok satisfied := by
  cases h with
  | passed => exact ⟨true, rfl⟩
  | missed => exact ⟨false, rfl⟩
  | failed _ _ hq => rw [readFor_of_shows hshows] at hq; cases hq

end Trial

/-! ## Levels written in another order -/

/-- Where what is read from an element stays the same, levels that differ in the order of their
qualifiers, but for those of subclasses, are evaluated alike: the answer is the same and so is what
is marked. -/
theorem evaluate_reordered {world : World σ E} {goal goal' : Goal E} {element : E} {facts : Facts}
    {counted : Progress} {texts : Reading → String} {state : σ}
    (hshows : world.Shows element texts state)
    (hperm : goal.level.qualifiers.Perm goal'.level.qualifiers)
    (hkept : goal.level.qualifiers.filter Qualifier.ofSubclass
      = goal'.level.qualifiers.filter Qualifier.ofSubclass)
    (hscope : goal.scope = goal'.scope) (hposition : goal.position = goal'.position)
    (memory : Memory E) :
    ∃ answer, ((evaluate goal element facts counted).run world memory state).result = .ok answer
      ∧ ((evaluate goal' element facts counted).run world memory state).result = .ok answer := by
  obtain ⟨result, judged, hverdict, hrun, -⟩ := @Trial.run_evaluate σ E goal world element facts
    counted memory state
  obtain ⟨result', judged', hverdict', hrun', -⟩ := @Trial.run_evaluate σ E goal' world element
    facts counted memory state
  set t := goal.trial world element facts counted state
  set t' := goal'.trial world element facts counted state
  have hholds : ∀ (q : Qualifier) ancestor text,
      q.holds t.situation ancestor text = q.holds t'.situation ancestor text := by
    intro q ancestor text
    simp only [t, t', Goal.trial, Goal.situation, hscope]
    exact q.holds_congr_of_has (Level.has_of_perm hperm)
  have hsame : t.PassesAll goal.level.qualifiers ↔ t'.PassesAll goal'.level.qualifiers := by
    rw [Trial.passesAll_congr t t' rfl rfl rfl hholds,
      Trial.passesAll_iff hshows goal.level.qualifiers,
      Trial.passesAll_iff hshows goal'.level.qualifiers, hkept]
    simp only [hperm.mem_iff]
  obtain ⟨satisfied, rfl⟩ := Trial.result_of_shows (t := t) hshows hverdict
  obtain ⟨satisfied', rfl⟩ := Trial.result_of_shows (t := t') hshows hverdict'
  obtain rfl : satisfied = satisfied' := by
    rw [← hverdict.true_iff, ← hverdict'.true_iff, Except.ok.injEq, Except.ok.injEq] at hsame
    exact Bool.eq_iff_iff.2 hsame
  rw [hrun, hrun', hposition]
  exact ⟨_, rfl, rfl⟩

/-- The counters of a scope in which a button comes first. -/
def firstButton : Progress :=
  Progress.visit ⟨{}, ⟨[none]⟩⟩ (Node.facts { className := "Button" })

/-- The second button of the window, counted as the first: an index may stand behind a subclass
index or in front. -/
theorem evaluate_reordered_button :
    let goal (level : String) : Goal Place := ⟨some ⟨[0]⟩, 0, Level.ofText level, []⟩
    let facts := Node.facts { className := "Button" }
    ∃ answer,
      ((evaluate (goal "Index=1;Subclass=Button;Text=;SubclassIndex=1") ⟨[0, 1]⟩ facts
        firstButton).run windowTree.world {} {}).result = .ok answer
      ∧ ((evaluate (goal "Text=;Subclass=Button;SubclassIndex=1;Index=1") ⟨[0, 1]⟩ facts
        firstButton).run windowTree.world {} {}).result = .ok answer := by
  intro goal facts
  have hthere : windowTree.node? ⟨[0, 1]⟩ = some { className := "Button" } := by decide +kernel
  exact @evaluate_reordered _ _ windowTree.world
    (goal "Index=1;Subclass=Button;Text=;SubclassIndex=1")
    (goal "Text=;Subclass=Button;SubclassIndex=1;Index=1") ⟨[0, 1]⟩ facts firstButton _ {}
    (Snapshot.shows hthere {}) (by decide +kernel) (by decide +kernel) (by decide +kernel)
    (by decide +kernel) {}

/-- A subclass index in front of the subclass counts nothing. -/
example :
    let satisfied (level : String) : Option Bool :=
      (((evaluate ⟨some ⟨[0]⟩, 0, Level.ofText level, []⟩ ⟨[0, 1]⟩
        (Node.facts { className := "Button" }) firstButton).run windowTree.world {} {}).result.map
          (·.1)).toOption
    satisfied "Subclass=Button;SubclassIndex=1" = some true
      ∧ satisfied "SubclassIndex=1;Subclass=Button" = some false := by
  decide +kernel

/-! ## A text that changes -/

/-- A world of one label. The first question after its text is answered with `a`, later ones with
`b`. -/
def World.fading : World Nat Unit where
  answer query asked :=
    (.ok (match query with
      | .roots | .children _ => [()]
      | .superclasses _ => []
      | .className _ | .resolvedType _ => "Label"
      | .ident _ | .name _ => none
      | .text _ => if asked = 0 then "a" else "b"
      | .caption _ | .property .. => ""), match query with
      | .text _ => asked + 1
      | _ => asked)
  now _ := 0
  sleep _ asked := asked

/-- Every question is answered, and neither level names or counts a subclass; still the label
satisfies the one and not the other, which differ in the order of their qualifiers. -/
theorem fading_in_order :
    let goal (level : String) : Goal Unit := ⟨some (), 0, Level.ofText level, []⟩
    let facts : Facts := ⟨"Label", ["Label"], "Label", none, none⟩
    let satisfied (level : String) : Except Error Bool :=
      ((evaluate (goal level) () facts ⟨{}, ⟨[none]⟩⟩).run World.fading {} 0).result.map (·.1)
    (∀ query asked, ∃ answer later, World.fading.answer query asked = (.ok answer, later))
      ∧ (Level.ofText "Text=a;TextContains=b").qualifiers.Perm
        (Level.ofText "TextContains=b;Text=a").qualifiers
      ∧ (Level.ofText "Text=a;TextContains=b").qualifiers.filter Qualifier.ofSubclass
        = (Level.ofText "TextContains=b;Text=a").qualifiers.filter Qualifier.ofSubclass
      ∧ satisfied "Text=a;TextContains=b" = .ok true
      ∧ satisfied "TextContains=b;Text=a" = .ok false := by
  refine ⟨fun query asked => ⟨_, _, rfl⟩, ?_, ?_, ?_, ?_⟩ <;> decide +kernel

end Locator
