import Locator.Proofs.Histories
import Locator.Proofs.Judging
import Locator.Proofs.Texts

/-!
# Judging as a conjunction

An element satisfies a level just when every qualifier passes: what it needs is read, and it holds.
The qualifiers are judged in order, up to the first that does not pass (`Trial.exists_verdict`). So
a later one is not read for and cannot fail, and the level is marked only if all of them passed
(`evaluate_conjunction`). Nothing is assumed of the world: it may answer, or fail, in another way
with every reading.
-/

namespace Locator

open Search

variable {σ E : Type}

namespace Reading

/-- The question that a reading of an element asks. -/
def query (element : E) : Reading → Query E
  | .text => .text element
  | .caption => .caption element
  | .property name => .property element name

end Reading

/-- What a reading of an element comes to, and the state that it leaves. -/
def World.read (world : World σ E) (element : E) :
    Option Reading → σ → Except Error String × σ
  | none, state => (.ok "", state)
  | some .text, state => world.answer (.text element) state
  | some .caption, state => world.answer (.caption element) state
  | some (.property name), state => world.answer (.property element name) state

namespace Search

variable {world : World σ E} {element : E}

theorem run_read (what : Option Reading) (memory : Memory E) (state : σ) :
    (read element what).run world memory state
      = ⟨(world.read element what state).1, memory, (world.read element what state).2⟩ := by
  rcases what with _ | _ | _ | name
  · rfl
  · exact run_question (.text element) memory state
  · exact run_question (.caption element) memory state
  · exact run_question (.property element name) memory state

theorem questions_read (what : Option Reading) (state : σ) :
    questions ((read element what).history world state)
      = (what.map (Reading.query element)).toList := by
  rcases what with _ | _ | _ | name
  · rfl
  · exact questions_question (.text element) state
  · exact questions_question (.caption element) state
  · exact questions_question (.property element name) state

end Search

/-- What has to be asked for a qualifier alone. -/
def Qualifier.query? (q : Qualifier) (element : E) : Option (Query E) :=
  q.reading?.map (Reading.query element)

/-- A qualifier that is judged by what is read from the element for it alone. -/
def Qualifier.Reads (q : Qualifier) : Prop :=
  q.kind = .caption ∨ q.kind = .text ∨ q.kind = .textContains
    ∨ (q.kind = .property ∨ q.kind = .propertyContains) ∧ propertySeparator ∈ q.value.toList

theorem Qualifier.reading?_isSome_iff (q : Qualifier) : q.reading?.isSome ↔ q.Reads := by
  have hparts : q.propertyParts?.isSome ↔ propertySeparator ∈ q.value.toList := by
    rw [propertyParts?, Option.isSome_map, ← not_iff_not, Bool.not_eq_true,
      Option.isSome_eq_false_iff, Option.isNone_iff_eq_none, Text.cutAt_eq_none]
  obtain ⟨kind, value, bare⟩ := q
  cases kind <;> simp [reading?, Reads, ← hparts]

/-! ## A trial -/

/-- An element that is judged in a world, from a state on. -/
structure Trial (σ E : Type) where
  world : World σ E
  element : E
  situation : Situation
  start : σ

namespace Trial

variable (t : Trial σ E)

/-- The state after the readings for some qualifiers. -/
def stateAfter (qualifiers : List Qualifier) : σ :=
  qualifiers.foldl (fun state q => (t.world.read t.element q.reading? state).2) t.start

/-- What the reading for a qualifier comes to after the readings for others. -/
def readFor (before : List Qualifier) (q : Qualifier) : Except Error String :=
  (t.world.read t.element q.reading? (t.stateAfter before)).1

/-- A qualifier behind others is satisfied. -/
def Passes (before : List Qualifier) (q : Qualifier) : Prop :=
  ∃ text, t.readFor before q = .ok text ∧ q.holds t.situation (namedAncestor before) text

/-- A qualifier behind others is read for, and it does not hold. -/
def Misses (before : List Qualifier) (q : Qualifier) : Prop :=
  ∃ text, t.readFor before q = .ok text ∧ q.holds t.situation (namedAncestor before) text = false

/-- Each of some qualifiers passes behind those before it. -/
def PassesAll (qualifiers : List Qualifier) : Prop :=
  ∀ before q after, qualifiers = before ++ q :: after → t.Passes before q

/-- How the judgement of some qualifiers ends, and which of them it comes to. -/
inductive Verdict (qualifiers : List Qualifier) : Except Error Bool → List Qualifier → Prop
  | passed (hall : t.PassesAll qualifiers) : Verdict qualifiers (.ok true) qualifiers
  | missed {before : List Qualifier} {q : Qualifier} {after : List Qualifier}
      (hsplit : qualifiers = before ++ q :: after) (hbefore : t.PassesAll before)
      (hq : t.Misses before q) : Verdict qualifiers (.ok false) (before ++ [q])
  | failed {before : List Qualifier} {q : Qualifier} {after : List Qualifier} {error : Error}
      (hsplit : qualifiers = before ++ q :: after) (hbefore : t.PassesAll before)
      (hq : t.readFor before q = .error error) : Verdict qualifiers (.error error) (before ++ [q])

variable {t} {before after qualifiers judged : List Qualifier} {q : Qualifier} {error : Error}

theorem stateAfter_concat :
    t.stateAfter (before ++ [q]) = (t.world.read t.element q.reading? (t.stateAfter before)).2 := by
  rw [stateAfter, List.foldl_concat, stateAfter]

theorem passesAll_nil : t.PassesAll [] :=
  fun _ _ _ h => absurd h (List.append_ne_nil_of_right_ne_nil _ (List.cons_ne_nil _ _)).symm

theorem passesAll_concat :
    t.PassesAll (before ++ [q]) ↔ t.PassesAll before ∧ t.Passes before q := by
  constructor
  · intro h
    refine ⟨fun pre p post hsplit => h pre p (post ++ [q]) ?_, h before q [] rfl⟩
    rw [hsplit, List.append_assoc, List.cons_append]
  · rintro ⟨hbefore, hq⟩ pre p post hsplit
    rcases List.eq_nil_or_concat post with rfl | ⟨post, last, rfl⟩
    · obtain ⟨rfl, hp⟩ := List.append_inj' hsplit rfl
      rwa [← List.singleton_inj.1 hp]
    · refine hbefore pre p post ?_
      rw [List.concat_eq_append, ← List.cons_append, ← List.append_assoc] at hsplit
      exact (List.append_inj' hsplit rfl).1

theorem PassesAll.of_append (h : t.PassesAll (before ++ after)) : t.PassesAll before := by
  intro pre p post hsplit
  refine h pre p (post ++ after) ?_
  rw [hsplit, List.append_assoc, List.cons_append]

theorem Misses.not_passes (h : t.Misses before q) : ¬ t.Passes before q := by
  rintro ⟨text, hread, hholds⟩
  obtain ⟨other, hother, hnot⟩ := h
  cases hread.symm.trans hother
  exact Bool.false_ne_true (hnot.symm.trans hholds)

theorem not_passes_of_error (h : t.readFor before q = .error error) : ¬ t.Passes before q := by
  rintro ⟨text, hread, -⟩
  cases hread.symm.trans h

/-- Where nothing has to be read, nothing fails. -/
theorem reads_of_error (h : t.readFor before q = .error error) : q.Reads := by
  rw [← q.reading?_isSome_iff]
  rcases hwhat : q.reading? with _ | what
  · rw [readFor, hwhat] at h
    cases h
  · rfl

/-- A judgement comes to one end only: the first qualifier that does not pass is where it is. -/
theorem stop_unique {pre post : List Qualifier} {p : Qualifier}
    (hsplit : before ++ q :: after = pre ++ p :: post) (hbefore : t.PassesAll before)
    (hq : ¬ t.Passes before q) (hpre : t.PassesAll pre) (hp : ¬ t.Passes pre p) :
    before = pre ∧ q = p := by
  rcases List.append_eq_append_iff.1 hsplit with ⟨more, rfl, hmore⟩ | ⟨more, rfl, hmore⟩
  · rcases more with _ | ⟨m, more⟩
    · exact ⟨(List.append_nil _).symm, (List.cons.inj hmore).1⟩
    · obtain ⟨rfl, -⟩ := List.cons.inj hmore
      exact absurd (hpre before q more rfl) hq
  · rcases more with _ | ⟨m, more⟩
    · exact ⟨List.append_nil _, (List.cons.inj hmore).1.symm⟩
    · obtain ⟨rfl, -⟩ := List.cons.inj hmore
      exact absurd (hbefore pre p more rfl) hp

namespace Verdict

variable {result : Except Error Bool}

theorem true_iff (h : t.Verdict qualifiers result judged) :
    result = .ok true ↔ t.PassesAll qualifiers := by
  cases h with
  | passed hall => exact iff_of_true rfl hall
  | missed hsplit _ hq => exact iff_of_false nofun fun hall => hq.not_passes (hall _ _ _ hsplit)
  | failed hsplit _ hq =>
    exact iff_of_false nofun fun hall => not_passes_of_error hq (hall _ _ _ hsplit)

theorem false_iff (h : t.Verdict qualifiers result judged) :
    result = .ok false ↔ ∃ before q after, qualifiers = before ++ q :: after
      ∧ t.PassesAll before ∧ t.Misses before q := by
  constructor
  · rintro rfl
    cases h with
    | missed hsplit hbefore hq => exact ⟨_, _, _, hsplit, hbefore, hq⟩
  · rintro ⟨pre, p, post, hsplit, hpre, hp⟩
    cases h with
    | passed hall => exact absurd (hall _ _ _ hsplit) hp.not_passes
    | missed => rfl
    | failed hsplit' hbefore hq =>
      obtain ⟨rfl, rfl⟩ := stop_unique (hsplit'.symm.trans hsplit) hbefore (not_passes_of_error hq)
        hpre hp.not_passes
      obtain ⟨text, hread, -⟩ := hp
      cases hread.symm.trans hq

theorem error_iff (h : t.Verdict qualifiers result judged) (error : Error) :
    result = .error error ↔ ∃ before q after, qualifiers = before ++ q :: after
      ∧ t.PassesAll before ∧ t.readFor before q = .error error := by
  constructor
  · rintro rfl
    cases h with
    | failed hsplit hbefore hq => exact ⟨_, _, _, hsplit, hbefore, hq⟩
  · rintro ⟨pre, p, post, hsplit, hpre, hp⟩
    cases h with
    | passed hall => exact absurd (hall _ _ _ hsplit) (not_passes_of_error hp)
    | missed hsplit' hbefore hq =>
      obtain ⟨rfl, rfl⟩ := stop_unique (hsplit'.symm.trans hsplit) hbefore hq.not_passes hpre
        (not_passes_of_error hp)
      obtain ⟨text, hread, -⟩ := hq
      cases hread.symm.trans hp
    | failed hsplit' hbefore hq =>
      obtain ⟨rfl, rfl⟩ := stop_unique (hsplit'.symm.trans hsplit) hbefore (not_passes_of_error hq)
        hpre (not_passes_of_error hp)
      exact congrArg _ (Except.error.inj (hq.symm.trans hp))

end Verdict

/-- The judgement of some qualifiers behind others that passed. It comes to each in turn, up to the
first that does not pass. -/
theorem exists_verdict (t : Trial σ E) (memory : Memory E) :
    ∀ before rest : List Qualifier, t.PassesAll before →
      ∃ result judged, t.Verdict (before ++ rest) result (before ++ judged)
        ∧ (satisfies t.element t.situation (namedAncestor before) rest).run t.world memory
            (t.stateAfter before) = ⟨result, memory, t.stateAfter (before ++ judged)⟩
        ∧ questions ((satisfies t.element t.situation (namedAncestor before) rest).history t.world
            (t.stateAfter before)) = judged.filterMap (·.query? t.element)
  | before, [], hbefore => by
    rw [List.append_nil]
    refine ⟨.ok true, [], ?_, ?_, rfl⟩ <;> rw [List.append_nil]
    · exact .passed hbefore
    · rfl
  | before, q :: rest, hbefore => by
    have hread := @run_read _ _ t.world t.element q.reading? memory (t.stateAfter before)
    have hasked (judged : List Qualifier) :
        questions ((read t.element q.reading?).history t.world (t.stateAfter before))
          ++ judged.filterMap (·.query? t.element)
            = (q :: judged).filterMap (·.query? t.element) := by
      rw [questions_read, ← Qualifier.query?, List.filterMap_cons]
      cases q.query? t.element <;> rfl
    rw [← stateAfter_concat, ← readFor] at hread
    unfold satisfies
    rw [run_bind, history_bind _ _ memory, hread, questions_append]
    rcases htext : t.readFor before q with error | text
    · exact ⟨.error error, [q], .failed rfl hbefore htext, rfl, hasked []⟩
    cases hholds : q.holds t.situation (namedAncestor before) text with
    | false =>
      refine ⟨.ok false, [q], .missed rfl hbefore ⟨text, htext, hholds⟩, ?_, ?_⟩
      · simp only [hholds]
        rfl
      · simp only [hholds]
        exact hasked []
    | true =>
      obtain ⟨result, judged, hverdict, hrun, hquestions⟩ := exists_verdict t memory (before ++ [q])
        rest (passesAll_concat.2 ⟨hbefore, text, htext, hholds⟩)
      rw [List.append_assoc, List.append_assoc, List.singleton_append, List.singleton_append]
        at hverdict
      rw [namedAncestor_concat] at hrun hquestions
      refine ⟨result, q :: judged, hverdict, ?_, ?_⟩
      · simp only [hholds, if_true, hrun, List.append_assoc, List.singleton_append]
      · simp only [hholds, if_true, hquestions, hasked]

end Trial

/-! ## Evaluating a level -/

/-- What an element is judged by when its facts are collected and it is counted. -/
def Goal.situation (goal : Goal E) (facts : Facts) (counted : Progress) : Situation :=
  { facts, level := goal.level, counters := counted.counters, scope := goal.scope }

namespace Search

/-- The part of judging an element that is left when its facts are collected and it is counted: its
qualifiers are judged, and a level that it satisfies is marked. -/
def evaluate (goal : Goal E) (element : E) (facts : Facts) (counted : Progress) :
    Search E (Bool × Progress) := do
  let satisfied ← satisfies element (goal.situation facts counted) none goal.level.qualifiers
  return (satisfied, if satisfied then counted.record goal.position else counted)

theorem judge_eq (goal : Goal E) (element : E) (before : Progress) :
    judge goal element before
      = (facts element >>= fun facts => visit (goal.visit element facts before)
          (evaluate goal element facts (before.visit facts))) :=
  rfl

/-- The marks when an evaluation has ended. One that fails returns none, and those that it began
with stand. -/
def marksAfter (counted : Progress) : Except Error (Bool × Progress) → Marks
  | .ok (_, after) => after.marks
  | .error _ => counted.marks

theorem map_eq_ok {result : Except Error Bool} {f : Bool → Progress} {b : Bool}
    {after : Progress} :
    result.map (fun b => (b, f b)) = .ok (b, after) ↔ result = .ok b ∧ after = f b := by
  rcases result with error | c
  · exact iff_of_false nofun fun h => nomatch h.1
  · simp only [Except.map, Except.ok.injEq, Prod.mk.injEq]
    constructor
    · rintro ⟨rfl, rfl⟩
      exact ⟨rfl, rfl⟩
    · rintro ⟨rfl, rfl⟩
      exact ⟨rfl, rfl⟩

theorem map_eq_error {result : Except Error Bool} {f : Bool → Bool × Progress} {error : Error} :
    result.map f = .error error ↔ result = .error error := by
  cases result <;> simp [Except.map]

end Search

def Goal.trial (goal : Goal E) (world : World σ E) (element : E) (facts : Facts)
    (counted : Progress) (state : σ) : Trial σ E :=
  { world, element, situation := goal.situation facts counted, start := state }

namespace Trial

variable {goal : Goal E} {world : World σ E} {element : E} {facts : Facts} {counted : Progress}
  {memory : Memory E} {state : σ}

/-- The qualifiers are judged with nothing before them, and the answer tells whether to mark. -/
theorem run_evaluate :
    ∃ result judged, (goal.trial world element facts counted state).Verdict goal.level.qualifiers
        result judged
      ∧ (evaluate goal element facts counted).run world memory state
        = ⟨result.map fun satisfied =>
            (satisfied, if satisfied then counted.record goal.position else counted), memory,
          (goal.trial world element facts counted state).stateAfter judged⟩
      ∧ questions ((evaluate goal element facts counted).history world state)
        = judged.filterMap (·.query? element) := by
  obtain ⟨result, judged, hverdict, hrun, hquestions⟩ :=
    (goal.trial world element facts counted state).exists_verdict memory [] goal.level.qualifiers
      passesAll_nil
  change (satisfies element (goal.situation facts counted) none goal.level.qualifiers).run world
    memory state = _ at hrun
  change questions ((satisfies element (goal.situation facts counted) none
    goal.level.qualifiers).history world state) = _ at hquestions
  refine ⟨result, judged, hverdict, ?_, ?_⟩
  · unfold evaluate
    rw [run_bind, hrun]
    cases result <;> rfl
  · unfold evaluate
    rw [history_bind _ _ memory, hrun, questions_append, hquestions]
    cases result <;> exact List.append_nil _

theorem Verdict.judged_split {t : Trial σ E} {qualifiers judged : List Qualifier}
    {result : Except Error Bool} (h : t.Verdict qualifiers result judged) :
    ∃ rest, qualifiers = judged ++ rest ∧ t.PassesAll judged.dropLast
      ∧ (rest = [] ∨ ¬ t.PassesAll judged) := by
  cases h with
  | passed hall =>
    refine ⟨[], (List.append_nil _).symm, ?_, .inl rfl⟩
    rw [← List.take_append_drop (qualifiers.length - 1) qualifiers, ← List.dropLast_eq_take] at hall
    exact hall.of_append
  | @missed before q after hsplit hbefore hq =>
    refine ⟨after, by rw [hsplit, List.append_assoc, List.singleton_append], ?_, .inr ?_⟩
    · rwa [List.dropLast_concat]
    · exact fun h => hq.not_passes (passesAll_concat.1 h).2
  | @failed before q after error hsplit hbefore hq =>
    refine ⟨after, by rw [hsplit, List.append_assoc, List.singleton_append], ?_, .inr ?_⟩
    · rwa [List.dropLast_concat]
    · exact fun h => not_passes_of_error hq (passesAll_concat.1 h).2

end Trial

/-- An element satisfies a level just when every qualifier passes. It does not if, behind qualifiers
that passed, one is read for and does not hold; and the evaluation fails just if, behind such, one
that has to be read for cannot be. The qualifiers up to the one that does not pass are read for, in
order, and no other; and the level is marked, with the counters of the visit, only if all passed. -/
theorem evaluate_conjunction (world : World σ E) (goal : Goal E) (element : E) (facts : Facts)
    (counted : Progress) (memory : Memory E) (state : σ) :
    let t := goal.trial world element facts counted state
    let qualifiers := goal.level.qualifiers
    let ending := (evaluate goal element facts counted).run world memory state
    ((∃ after, ending.result = .ok (true, after)) ↔ t.PassesAll qualifiers)
    ∧ ((∃ after, ending.result = .ok (false, after)) ↔ ∃ before q after,
        qualifiers = before ++ q :: after ∧ t.PassesAll before ∧ t.Misses before q)
    ∧ (∀ error, ending.result = .error error ↔ ∃ before q after,
        qualifiers = before ++ q :: after ∧ t.PassesAll before ∧ q.Reads
          ∧ t.readFor before q = .error error)
    ∧ (∃ judged rest, qualifiers = judged ++ rest ∧ t.PassesAll judged.dropLast
        ∧ (rest = [] ∨ ¬ t.PassesAll judged)
        ∧ questions ((evaluate goal element facts counted).history world state)
          = judged.filterMap (·.query? element)
        ∧ ending.state = t.stateAfter judged)
    ∧ (t.PassesAll qualifiers → marksAfter counted ending.result
        = counted.marks.set goal.position (some counted.counters))
    ∧ (¬ t.PassesAll qualifiers → marksAfter counted ending.result = counted.marks)
    ∧ ending.memory = memory := by
  intro t qualifiers ending
  obtain ⟨result, judged, hverdict, hrun, hasked⟩ := @Trial.run_evaluate σ E goal world element
    facts counted memory state
  have hending : ending = _ := hrun
  have hfalse := hverdict.false_iff
  have herror := hverdict.error_iff
  rw [hending]
  refine ⟨?_, ?_, fun error => ?_, ?_, fun hall => ?_, fun hnot => ?_, rfl⟩
  · simp only [map_eq_ok, exists_and_left, exists_eq, and_true]
    exact hverdict.true_iff
  · simp only [map_eq_ok, exists_and_left, exists_eq, and_true]
    exact hfalse
  · rw [map_eq_error, herror]
    refine exists_congr fun before => exists_congr fun q => exists_congr fun after => ?_
    exact and_congr_right fun _ => and_congr_right fun _ =>
      ⟨fun h => ⟨Trial.reads_of_error h, h⟩, And.right⟩
  · obtain ⟨rest, hsplit, hbefore, hstop⟩ := hverdict.judged_split
    exact ⟨judged, rest, hsplit, hbefore, hstop, hasked, rfl⟩
  · rw [hverdict.true_iff.2 hall]
    rfl
  · rcases result with error | _ | _
    · rfl
    · rfl
    · exact absurd (hverdict.true_iff.1 rfl) hnot

end Locator
