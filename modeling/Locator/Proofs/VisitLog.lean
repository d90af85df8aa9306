import Locator.Proofs.Counterparts
import Locator.Proofs.Dominance
import Locator.Proofs.Soundness

/-!
# The log of a search

The absolute counts are a log of the visits. A new scope does not touch them, nor does a roll-back,
so at each visit they are the shares of all that was visited since the search began, in whatever
pass, for whatever level and in whatever branch. The relative counts are not ahead of them: what a
roll-back brings back was counted before the excursion, and the log has only grown since
(`Counters.LogOf`).

That is so in every world, whatever it answers (`Logs`). An element that is found comes with the
counters of some of the visits, in their order, so the absolute counts ascend from level to level
(`Engine.absolute_log`).
-/

namespace Locator

variable {E α β σ : Type}

namespace Counters

theorem Dominated.visit {c : Counters} (h : c.Dominated Set.univ) (facts : Facts) :
    (c.visit facts).Dominated Set.univ where
  counts family hfamily key := by
    rw [count_visit, absoluteCount_visit]
    exact Nat.add_le_add_right (h.counts family hfamily key) _
  object := by
    rw [object_visit, absoluteObject_visit]
    exact Nat.succ_le_succ h.object

/-- The absolute counts are what was visited, and the relative ones are not ahead of them. -/
structure LogOf (c : Counters) (visited : List (Visit E)) : Prop where
  counts : ∀ family key,
    c.absoluteCount family key = (visited.map fun v => v.facts.share family key).sum
  ordinal : c.absoluteObject = visited.length
  dominated : c.Dominated Set.univ

namespace LogOf

variable {c saved : Counters} {visited more : List (Visit E)}

theorem empty : ({} : Counters).LogOf ([] : List (Visit E)) :=
  ⟨fun family key => Census.count_empty family key, rfl, dominated_empty⟩

theorem visit (h : c.LogOf visited) (v : Visit E) :
    (c.visit v.facts).LogOf (visited ++ [v]) where
  counts family key := by
    rw [absoluteCount_visit, h.counts, List.map_append, List.sum_append, List.map_singleton,
      List.sum_singleton]
  ordinal := by rw [absoluteObject_visit, h.ordinal, List.length_append, List.length_singleton]
  dominated := h.dominated.visit v.facts

theorem newScope (h : c.LogOf visited) : c.newScope.LogOf visited :=
  ⟨h.counts, h.ordinal, .newScope⟩

/-- The absolute counts of a log that has gone on are not behind. -/
theorem within (hsaved : saved.LogOf visited) (h : c.LogOf (visited ++ more)) :
    saved.Within c := by
  intro family key
  rw [hsaved.counts, h.counts, List.map_append, List.sum_append]
  exact Nat.le_add_right _ _

theorem rollBack (h : c.LogOf (visited ++ more)) (hsaved : saved.LogOf visited) :
    (c.rollBack saved).LogOf (visited ++ more) where
  counts := h.counts
  ordinal := h.ordinal
  dominated := h.dominated.rollBack fun family hfamily _ key =>
    (hsaved.dominated.counts family hfamily key).trans (hsaved.within h family key)

end LogOf

end Counters

namespace Search

/-! ## Programs that log their visits -/

/-- Whatever is answered, a program that goes on after some visits makes each of its own with
counters that are the log of all visits so far, and what it has visited in the end fits what it
comes to. -/
inductive Logs (post : List (Visit E) → α → Prop) : List (Visit E) → Search E α → Prop
  | done {visited : List (Visit E)} {answer : α} (h : post visited answer) :
      Logs post visited (done answer)
  | ask {visited : List (Visit E)} {query : Query E} {go : query.Answer → Search E α}
      (hgo : ∀ answer, Logs post visited (go answer)) : Logs post visited (ask query go)
  | clock {visited : List (Visit E)} {go : Nat → Search E α}
      (hgo : ∀ now, Logs post visited (go now)) : Logs post visited (clock go)
  | sleep {visited : List (Visit E)} {ms : Nat} {program : Search E α}
      (h : Logs post visited program) : Logs post visited (sleep ms program)
  | remember {visited : List (Visit E)} {memory : Memory E} {program : Search E α}
      (h : Logs post visited program) : Logs post visited (remember memory program)
  | visit {visited : List (Visit E)} {v : Visit E} {program : Search E α}
      (hlog : v.counters.LogOf (visited ++ [v])) (h : Logs post (visited ++ [v]) program) :
      Logs post visited (visit v program)

namespace Logs

variable {post : List (Visit E) → α → Prop} {visited : List (Visit E)} {program : Search E α}

theorem bind (h : Logs post visited program) {post' : List (Visit E) → β → Prop}
    {next : α → Search E β} (hnext : ∀ later answer, post later answer →
      Logs post' later (next answer)) : Logs post' visited (program >>= next) := by
  change Logs post' visited (program.andThen next)
  induction h with
  | done h => exact hnext _ _ h
  | ask _ ih => exact .ask ih
  | clock _ ih => exact .clock ih
  | sleep _ ih => exact .sleep ih
  | remember _ ih => exact .remember ih
  | visit hlog _ ih => exact .visit hlog ih

theorem mono (h : Logs post visited program) {post' : List (Visit E) → α → Prop}
    (hpost : ∀ later answer, post later answer → post' later answer) :
    Logs post' visited program := by
  induction h with
  | done h => exact .done (hpost _ _ h)
  | ask _ ih => exact .ask ih
  | clock _ ih => exact .clock ih
  | sleep _ ih => exact .sleep ih
  | remember _ ih => exact .remember ih
  | visit hlog _ ih => exact .visit hlog ih

theorem question (query : Query E) :
    Logs (fun later _ => later = visited) visited (question query) :=
  .ask fun _ => .done rfl

/-- Each visit is logged, and an answer fits all that was visited. -/
theorem visits (h : Logs post visited program) (world : World σ E) (state : σ) :
    (∀ before v after, program.visits world state = before ++ v :: after →
      v.counters.LogOf (visited ++ before ++ [v]))
    ∧ ∀ memory answer, (program.run world memory state).result = .ok answer →
      post (visited ++ program.visits world state) answer := by
  induction h generalizing state with
  | done h =>
    refine ⟨fun before v after hsplit => ?_, fun memory answer hrun => ?_⟩
    · exact absurd hsplit.symm (List.append_ne_nil_of_right_ne_nil _ (List.cons_ne_nil _ _))
    · cases hrun
      simpa only [Search.visits, List.append_nil] using h
  | @ask visited query go _ ih =>
    rcases hanswer : world.answer query state with ⟨error | answer, later⟩
    · simp only [Search.visits, Search.run, hanswer]
      refine ⟨fun before v after hsplit => ?_, fun memory answer hrun => ?_⟩
      · exact absurd hsplit.symm (List.append_ne_nil_of_right_ne_nil _ (List.cons_ne_nil _ _))
      · cases hrun
    · simp only [Search.visits, Search.run, hanswer]
      exact ih answer later
  | clock _ ih => exact ih (world.now state) state
  | sleep _ ih => exact ih (world.sleep _ state)
  | remember _ ih =>
    obtain ⟨hvisits, hanswer⟩ := ih state
    exact ⟨hvisits, fun _ => hanswer _⟩
  | @visit visited v program hlog _ ih =>
    obtain ⟨hvisits, hanswer⟩ := ih state
    refine ⟨fun before w after hsplit => ?_, fun memory answer hrun => ?_⟩
    · rcases List.cons_eq_append_iff.1 hsplit with ⟨rfl, hcons⟩ | ⟨rest, rfl, hrest⟩
      · obtain ⟨rfl, -⟩ := List.cons.inj hcons
        rwa [List.append_nil]
      · have hlogged := hvisits rest w after hrest
        simp only [List.append_assoc, List.cons_append, List.nil_append] at hlogged ⊢
        exact hlogged
    · have hpost := hanswer memory answer hrun
      rwa [List.append_assoc] at hpost

end Logs

/-! ## Judging -/

theorem facts_logs (e : E) (visited : List (Visit E)) :
    Logs (fun later _ => later = visited) visited (facts e) := by
  unfold facts
  refine (Logs.question (.className e)).bind ?_
  rintro _ className rfl
  refine (Logs.question (.superclasses e)).bind ?_
  rintro _ superclasses rfl
  refine (Logs.question (.resolvedType e)).bind ?_
  rintro _ resolvedType rfl
  refine (Logs.question (.ident e)).bind ?_
  rintro _ ident rfl
  refine (Logs.question (.name e)).bind ?_
  rintro _ name rfl
  exact .done rfl

theorem read_logs (e : E) (visited : List (Visit E)) : ∀ what : Option Reading,
    Logs (fun later _ => later = visited) visited (read e what)
  | none => .done rfl
  | some .text => .question (.text e)
  | some .caption => .question (.caption e)
  | some (.property name) => .question (.property e name)

theorem satisfies_logs (e : E) (s : Situation) (visited : List (Visit E)) :
    ∀ (ancestor : Option String) (qualifiers : List Qualifier),
      Logs (fun later _ => later = visited) visited (satisfies e s ancestor qualifiers)
  | _, [] => .done rfl
  | ancestor, q :: rest => by
    unfold satisfies
    refine (read_logs e visited q.reading?).bind ?_
    rintro _ text rfl
    split
    · exact satisfies_logs e s _ _ rest
    · exact .done rfl

/-- What judging an element leaves: it was visited, and its level is marked if it satisfies it. -/
structure Judged (goal : Goal E) (before : Progress) (visited later : List (Visit E))
    (v : Visit E) (satisfied : Bool) (p : Progress) : Prop where
  visited : later = visited ++ [v]
  log : p.counters.LogOf later
  marks : p.marks = if satisfied then before.marks.set goal.position (some v.counters)
    else before.marks

theorem judge_logs (goal : Goal E) (e : E) {before : Progress} {visited : List (Visit E)}
    (hlog : before.counters.LogOf visited) :
    Logs (fun later judged => ∃ v, Judged goal before visited later v judged.1 judged.2) visited
      (judge goal e before) := by
  unfold judge
  refine (facts_logs e visited).bind ?_
  rintro _ facts rfl
  have hvisit := hlog.visit ⟨e, facts, goal, (before.visit facts).counters⟩
  refine .visit hvisit ((satisfies_logs e _ _ none goal.level.qualifiers).bind ?_)
  rintro _ satisfied rfl
  cases satisfied with
  | true => exact .done ⟨_, rfl, hvisit, rfl⟩
  | false => exact .done ⟨_, rfl, hvisit, rfl⟩

/-! ## Scans -/

/-- There is a mark for each level down to the last. -/
def Fits (goal : Goal E) (marks : Marks) : Prop :=
  marks.byLevel.length = goal.position + (goal.rest.length + 1)

/-- The marks above a position are the same. -/
def SameAbove (position : Nat) (marks later : Marks) : Prop :=
  later.byLevel.length = marks.byLevel.length
    ∧ later.byLevel.take position = marks.byLevel.take position

theorem SameAbove.trans {position : Nat} {a b c : Marks} (h : SameAbove position a b)
    (h' : SameAbove position b c) : SameAbove position a c :=
  ⟨h'.1.trans h.1, h'.2.trans h.2⟩

/-- What a scan leaves: a log that has gone on, the marks of the levels above, and, if it found an
element, marks from some of its visits for the others. -/
structure Scanned (goal : Goal E) (marks : Marks) (visited later : List (Visit E))
    (finding : Finding E) : Prop where
  log : finding.2.counters.LogOf later
  above : SameAbove goal.position marks finding.2.marks
  made : ∃ made, later = visited ++ made ∧ (finding.1.isSome → ∃ trail : List (Visit E),
    trail.Sublist made
      ∧ finding.2.marks.byLevel.drop goal.position = trail.map fun v => some v.counters)

namespace Scanned

variable {goal : Goal E} {marks between : Marks} {visited mid later : List (Visit E)}
  {finding : Finding E}

theorem nothing (goal : Goal E) {p : Progress} (hlog : p.counters.LogOf visited) :
    Scanned goal p.marks visited visited (none, p) :=
  ⟨hlog, ⟨rfl, rfl⟩, [], (List.append_nil _).symm, nofun⟩

/-- A scan that goes on where another part of it has left the marks above. -/
theorem after (h : Scanned goal between mid later finding)
    (habove : SameAbove goal.position marks between) (hmid : visited <+: mid) :
    Scanned goal marks visited later finding where
  log := h.log
  above := habove.trans h.above
  made := by
    obtain ⟨earlier, rfl⟩ := hmid
    obtain ⟨made, hlater, htrail⟩ := h.made
    refine ⟨earlier ++ made, by rw [hlater, List.append_assoc], fun hfound => ?_⟩
    obtain ⟨trail, hsub, hmarks⟩ := htrail hfound
    exact ⟨trail, hsub.trans (List.sublist_append_right _ _), hmarks⟩

end Scanned

section Scan

variable {goal : Goal E} {before p : Progress} {visited later : List (Visit E)} {v : Visit E}

theorem Judged.fits {satisfied : Bool} (h : Judged goal before visited later v satisfied p)
    (hfits : Fits goal before.marks) : Fits goal p.marks := by
  rw [h.marks]
  cases satisfied with
  | true => exact List.length_set.trans hfits
  | false => exact hfits

/-- The element does not satisfy its level, and nothing is marked. -/
theorem Judged.missed (h : Judged goal before visited later v false p) :
    SameAbove goal.position before.marks p.marks ∧ visited <+: later := by
  have hmarks : p.marks = before.marks := h.marks
  rw [hmarks]
  exact ⟨⟨rfl, rfl⟩, [v], h.visited.symm⟩

/-- The element satisfies its level, which is marked. -/
theorem Judged.record (h : Judged goal before visited later v true p)
    (hfits : Fits goal before.marks) :
    SameAbove goal.position before.marks p.marks
      ∧ p.marks.byLevel.take (goal.position + 1)
        = before.marks.byLevel.take goal.position ++ [some v.counters] := by
  have hrecord : p.marks = ({ before with counters := v.counters }.record goal.position).marks :=
    h.marks
  rw [hrecord]
  refine ⟨⟨List.length_set, List.take_set_of_le (Nat.le_refl _)⟩, ?_⟩
  exact Progress.take_record _ (by rw [hfits]; omega)

/-- What is marked from a level on, if the mark of the level is the one that was just set. -/
theorem drop_of_take {marks : Marks} (hfits : Fits goal before.marks)
    (htake : marks.byLevel.take (goal.position + 1)
      = before.marks.byLevel.take goal.position ++ [some v.counters]) :
    marks.byLevel.drop goal.position
      = some v.counters :: marks.byLevel.drop (goal.position + 1) := by
  have hall := List.take_append_drop (goal.position + 1) marks.byLevel
  rw [htake, List.append_assoc] at hall
  rw [← hall, List.drop_left' (List.length_take_of_le (by rw [hfits]; omega)), hall]
  rfl

/-- The level that is searched for is the last. -/
theorem Judged.last (h : Judged goal before visited later v true p)
    (hfits : Fits goal before.marks) (hrest : goal.rest = []) (e : E) :
    Scanned goal before.marks visited later (some e, p) where
  log := h.log
  above := (h.record hfits).1
  made := by
    refine ⟨[v], h.visited, fun _ => ⟨[v], List.Sublist.refl _, ?_⟩⟩
    have hlength : p.marks.byLevel.length = goal.position + 1 := by
      rw [h.fits hfits, hrest]
      rfl
    rw [drop_of_take hfits (h.record hfits).2, List.drop_eq_nil_of_le hlength.le]
    rfl

/-- What is found for the next level leaves the mark that was just set. -/
theorem Judged.commit (h : Judged goal before visited later v true p)
    (hfits : Fits goal before.marks) {next : Goal E} (hposition : next.position = goal.position + 1)
    {latest : List (Visit E)} {finding : Finding E}
    (hbelow : Scanned next p.marks later latest finding) :
    Scanned goal before.marks visited latest finding where
  log := hbelow.log
  above := by
    obtain ⟨hlength, htake⟩ := hbelow.above
    refine (h.record hfits).1.trans ⟨hlength, ?_⟩
    have := congrArg (List.take goal.position) htake
    rwa [hposition, List.take_take, List.take_take, Nat.min_eq_left (Nat.le_succ _)] at this
  made := by
    obtain ⟨made, rfl, htrail⟩ := hbelow.made
    refine ⟨v :: made, by rw [h.visited, List.append_assoc]; rfl, fun hfound => ?_⟩
    obtain ⟨trail, hsub, hdrop⟩ := htrail hfound
    have htake := hbelow.above.2
    rw [hposition] at htake hdrop
    refine ⟨v :: trail, hsub.cons_cons v, ?_⟩
    rw [drop_of_take hfits (htake.trans (h.record hfits).2), hdrop]
    rfl

variable {descend : E → Goal E → Progress → Search E (Finding E)}
  (hdescend : ∀ (e : E) (goal : Goal E) (p : Progress) (visited : List (Visit E)),
    p.counters.LogOf visited → Fits goal p.marks →
      Logs (Scanned goal p.marks visited) visited (descend e goal p))
include hdescend

theorem commit_logs (e : E) (h : Judged goal before visited later v true p)
    (hfits : Fits goal before.marks) :
    Logs (Scanned goal before.marks visited) later (commit descend goal e p) := by
  rcases hnext : goal.next? e with _ | next <;> simp only [commit, hnext]
  · exact .done (h.last hfits (Goal.ofLevels?_eq_none.1 hnext) e)
  · obtain ⟨-, hposition, hrest⟩ := Goal.ofLevels?_eq_some.1 hnext
    have hnextFits : Fits next p.newScope.marks := by
      have := h.fits hfits
      rw [Fits, hrest, List.length_cons] at this
      rw [Fits, hposition]
      exact this.trans (by omega)
    exact (hdescend e next p.newScope later h.log.newScope hnextFits).mono
      fun latest finding hbelow => h.commit hfits hposition hbelow

theorem scan_logs (goal : Goal E) : ∀ (siblings : List E) (p : Progress)
    (visited : List (Visit E)), p.counters.LogOf visited → Fits goal p.marks →
      Logs (Scanned goal p.marks visited) visited (scan descend goal siblings p)
  | [], p, visited, hlog, _ => .done (.nothing goal hlog)
  | e :: siblings, before, visited, hlog, hfits => by
    have hrest {p : Progress} {mid : List (Visit E)} (hlog : p.counters.LogOf mid)
        (habove : SameAbove goal.position before.marks p.marks) (hmid : visited <+: mid) :
        Logs (Scanned goal before.marks visited) mid (scan descend goal siblings p) :=
      (scan_logs goal siblings p mid hlog (habove.1.trans hfits)).mono
        fun later finding h => h.after habove hmid
    unfold scan
    refine (judge_logs goal e hlog).bind ?_
    rintro later ⟨satisfied, p⟩ ⟨v, h⟩
    cases satisfied with
    | true => exact commit_logs hdescend e h hfits
    | false =>
      obtain ⟨habove, hlater⟩ := h.missed
      simp only [Bool.false_eq_true, if_false]
      split
      · exact hrest h.log habove hlater
      refine (hdescend e goal p later h.log (h.fits hfits)).bind ?_
      rintro latest ⟨found, after⟩ hbelow
      obtain ⟨made, rfl, -⟩ := hbelow.made
      cases found with
      | some found => exact .done (hbelow.after habove hlater)
      | none =>
        -- what is brought back was counted before the excursion, so the log still covers it
        exact hrest (hbelow.log.rollBack h.log) (habove.trans hbelow.above)
          (hlater.trans (List.prefix_append _ _))

end Scan

/-! ## Passes and polling -/

theorem searchBelow_logs : ∀ (reach : Nat) (e : E) (goal : Goal E) (p : Progress)
    (visited : List (Visit E)), p.counters.LogOf visited → Fits goal p.marks →
      Logs (Scanned goal p.marks visited) visited (searchBelow reach e goal p)
  | 0, e, goal, p, visited, hlog, _ => by
    unfold searchBelow
    refine (Logs.question (.children e)).bind ?_
    rintro _ children rfl
    exact .done (.nothing goal hlog)
  | reach + 1, e, goal, p, visited, hlog, hfits => by
    unfold searchBelow
    refine (Logs.question (.children e)).bind ?_
    rintro _ children rfl
    exact scan_logs (searchBelow_logs reach) goal children p _ hlog hfits

/-- A pass begins with a new scope and goes on with the log. -/
theorem PassOf.logs {engine : Engine E} {goal : Goal E}
    {pass : Progress → Search E (Finding E)} (h : PassOf engine goal pass) {p : Progress}
    {visited : List (Visit E)} (hlog : p.counters.LogOf visited) (hfits : Fits goal p.marks) :
    Logs (Scanned goal p.marks visited) visited (pass p) := by
  cases h with
  | root chain =>
    unfold rootPass
    refine (Logs.question .roots).bind ?_
    rintro _ roots rfl
    exact scan_logs (searchBelow_logs engine.reach) _ roots p.newScope _ hlog.newScope hfits
  | @descendant chain root _ hgoal =>
    exact searchBelow_logs engine.reach root goal p.newScope visited hlog.newScope hfits

/-- An element that is found comes with the counters of some of the visits, in their order. -/
def Reported (visited : List (Visit E)) (outcome : Outcome E) : Prop :=
  ∀ located, outcome = .found located → ∃ trail : List (Visit E), trail.Sublist visited
    ∧ located.levels.map (·.counters) = trail.map (·.counters)

theorem reported_notFound (visited : List (Visit E)) (missing : NotFound) :
    Reported visited (.notFound missing) :=
  fun _ hfound => by cases hfound

theorem Scanned.reported {goal : Goal E} {marks : Marks} {visited later : List (Visit E)}
    {e : E} {after : Progress} (h : Scanned goal marks visited later (some e, after))
    {chain : Chain} (hlength : chain.levels.length = after.marks.byLevel.length) (passes : Nat) :
    Reported later (.found ⟨e, chain.matchesFrom goal.position after.marks, passes⟩) := by
  rintro _ ⟨⟩
  obtain ⟨made, rfl, htrail⟩ := h.made
  obtain ⟨trail, hsub, hmarks⟩ := htrail rfl
  refine ⟨trail, hsub.trans (List.sublist_append_right _ _), ?_⟩
  have hshown : (chain.levels.drop goal.position).map (Level.shownBy LevelMatch.counters)
      = trail.map fun _ => id := by
    have hdrop := congrArg List.length hmarks
    rw [List.length_drop, ← hlength, ← List.length_drop, List.length_map] at hdrop
    rw [List.map_const', ← hdrop, ← List.map_const']
    rfl
  rw [Chain.map_matchesFrom, hmarks, hshown, List.zip_map', List.filterMap_map]
  exact congrFun List.filterMap_eq_map' trail

theorem poll_logs {engine : Engine E} {goal : Goal E} {pass : Progress → Search E (Finding E)}
    (hpass : PassOf engine goal pass) {chain : Chain}
    (hchain : chain.levels.length = goal.position + (goal.rest.length + 1)) (patience : Patience)
    (started spare passes : Nat) (p : Progress) (visited : List (Visit E))
    (hlog : p.counters.LogOf visited) (hfits : Fits goal p.marks) :
    Logs Reported visited (poll chain goal.position patience pass started spare passes p) := by
  induction spare using Nat.strong_induction_on generalizing passes p visited with
  | _ spare ih =>
  unfold poll
  have hunmarked : Fits goal p.unmarked.marks := (List.length_map _).trans hfits
  refine (hpass.logs (p := p.unmarked) hlog hunmarked).bind ?_
  rintro later ⟨found, after⟩ hscanned
  have hafter : Fits goal after.marks := hscanned.above.1.trans hunmarked
  cases found with
  | some e => exact .done (hscanned.reported (hchain.trans hafter.symm) (passes + 1))
  | none =>
    refine .clock fun now => ?_
    change Logs Reported later (if _ then _ else _)
    split
    · exact .done (reported_notFound later _)
    · rcases spare with _ | spare
      · exact .done (reported_notFound later _)
      · exact .sleep
          (ih spare (Nat.lt_succ_self spare) (passes + 1) after later hscanned.log hafter)

theorem pollFromNow_logs {engine : Engine E} {goal : Goal E}
    {pass : Progress → Search E (Finding E)} (hpass : PassOf engine goal pass) {chain : Chain}
    (hchain : chain.levels.length = goal.position + (goal.rest.length + 1))
    (patience : Patience) :
    Logs Reported [] (pollFromNow chain goal.position patience pass) := by
  unfold pollFromNow
  refine .clock fun started => ?_
  exact poll_logs hpass hchain patience started _ 0 (.start chain) [] .empty
    ((List.length_map _).trans hchain)

end Search

/-! ## What is reported -/

/-- Absolute counts and an absolute ordinal that are not ahead of those of later counters. -/
def Counters.NotAheadOf (c later : Counters) : Prop :=
  c.Within later ∧ c.absoluteObject ≤ later.absoluteObject

/-- Levels with absolute counts that ascend from each to the next ones and that cover the relative
counts. -/
structure Graded (levels : List LevelMatch) : Prop where
  ascending : levels.Pairwise fun upper lower => upper.counters.NotAheadOf lower.counters
  dominated : ∀ level ∈ levels, level.counters.Dominated Set.univ

section Graded

variable {vs : List (Visit E)}
  (hlog : ∀ before v after, vs = before ++ v :: after → v.counters.LogOf (before ++ [v]))
include hlog

theorem pairwise_notAheadOf : vs.Pairwise fun u v => u.counters.NotAheadOf v.counters := by
  rw [List.pairwise_iff_forall_sublist]
  intro u v hsub
  obtain ⟨front, back, rfl, hu, hv⟩ := List.cons_sublist_iff.1 hsub
  obtain ⟨before, between, rfl⟩ := List.mem_iff_append.1 hu
  obtain ⟨between', after, rfl⟩ := List.mem_iff_append.1 (List.singleton_sublist.1 hv)
  have hearlier := hlog before u (between ++ (between' ++ v :: after)) (by simp)
  have hlater := hlog (before ++ u :: (between ++ between')) v after (by simp)
  have hgrown : before ++ u :: (between ++ between') ++ [v]
      = before ++ [u] ++ (between ++ (between' ++ [v])) := by simp
  rw [hgrown] at hlater
  refine ⟨hearlier.within hlater, ?_⟩
  rw [hearlier.ordinal, hlater.ordinal]
  exact (List.prefix_append _ _).length_le

theorem graded_of_trail {levels : List LevelMatch} {trail : List (Visit E)}
    (hsub : trail.Sublist vs) (hlevels : levels.map (·.counters) = trail.map (·.counters)) :
    Graded levels where
  ascending := by
    have htrail := List.pairwise_map.2 ((pairwise_notAheadOf hlog).sublist hsub)
    rw [← hlevels] at htrail
    exact List.pairwise_map.1 htrail
  dominated level hlevel := by
    have hmem := List.mem_map_of_mem (f := LevelMatch.counters) hlevel
    rw [hlevels] at hmem
    obtain ⟨v, hv, hcounters⟩ := List.mem_map.1 hmem
    obtain ⟨before, after, rfl⟩ := List.mem_iff_append.1 (hsub.mem hv)
    rw [← hcounters]
    exact (hlog before v after rfl).dominated

end Graded

namespace Engine

/-- The searches that requests are made of, each with counters of its own: for a root, and for what
is below one. -/
inductive Polling (engine : Engine E) (chain : Chain) : Search E (Outcome E) → Prop
  | root (timeoutSecs : Nat) (singlePass : Bool) :
      Polling engine chain (engine.locateRoot chain timeoutSecs singlePass)
  | below (cachedRoot : Option (String × E)) (root : E) (timeoutSecs : Nat) (singlePass : Bool) :
      Polling engine chain (engine.locateBelow cachedRoot root chain timeoutSecs singlePass)

variable {engine : Engine E} {chain : Chain}

theorem Polling.logs {program : Search E (Outcome E)} (h : engine.Polling chain program) :
    Search.Logs Search.Reported [] program := by
  cases h with
  | root timeoutSecs singlePass =>
    unfold locateRoot
    refine (Search.pollFromNow_logs (.root chain) (by
      simp [Chain.rootGoal, Chain.levels]) _).bind ?_
    rintro visited (located | missing) hreported
    · exact .remember (.done hreported)
    · exact .done hreported
  | below cachedRoot root timeoutSecs singlePass =>
    unfold locateBelow
    rcases hgoal : goalBelow? engine.settings chain root with _ | goal
    · refine .remember (.done ?_)
      rintro _ ⟨⟩
      exact ⟨[], .slnil, rfl⟩
    have hchain : chain.levels.length = goal.position + (goal.rest.length + 1) := by
      obtain ⟨-, hposition, hdrop⟩ := Goal.ofLevels?_eq_some.1 hgoal
      have := congrArg List.length hdrop
      rw [List.length_drop, List.length_cons] at this
      omega
    refine (Search.pollFromNow_logs (.descendant hgoal) hchain _).bind ?_
    rintro visited (located | missing) hreported
    · exact .remember (.done hreported)
    · exact .done hreported

/-- An element that a request finds was found by one of the searches it is made of. -/
theorem exists_polling {world : World σ E} {request : Request} {state : σ} {located : Located E}
    (hfound : (engine.handle world request state).1 = .ok (.found located)) :
    ∃ chain program memory later, engine.Polling chain program
      ∧ (program.run world memory later).result = .ok (.found located) := by
  rcases request with ⟨path, timeoutSecs, singlePass⟩ | ⟨rootPath, path, timeoutSecs, singlePass⟩
  · rcases hchain : readPath path with error | chain
    · rw [(handle_of_refused (program_root_unreadable hchain) world state).1] at hfound
      cases hfound
    · rw [(handle_of_program (program_root hchain) world state).1] at hfound
      exact ⟨chain, _, _, _, .root timeoutSecs singlePass, hfound⟩
  · rcases hchain : readPath path with error | chain
    · rw [(handle_of_refused (program_descendant_unreadable hchain) world state).1] at hfound
      cases hfound
    rcases hroot : engine.rootInUse world rootPath singlePass state with _ | root
    · exact absurd hfound ((handle_without_root timeoutSecs hchain hroot).1 located)
    obtain ⟨cachedRoot, memory, later, hhandle, -⟩ := handle_descendant timeoutSecs hchain hroot
    rw [hhandle] at hfound
    exact ⟨chain, _, _, _, .below cachedRoot root timeoutSecs singlePass, hfound⟩

/-- Whatever a world answers, at each visit of a search the absolute counts are the shares of all
that the search has visited, over all its passes, levels and branches, the absolute ordinal is the
number of visits, and no relative count is ahead. So an element that is found comes with the
counters of some of these visits: their absolute counts ascend from level to level and cover the
relative ones. -/
theorem absolute_log (engine : Engine E) (world : World σ E) :
    (∀ chain program, engine.Polling chain program → ∀ state,
      (∀ before v after, program.visits world state = before ++ v :: after →
        v.counters.LogOf (before ++ [v]))
      ∧ ∀ memory located, (program.run world memory state).result = .ok (.found located) →
        ∃ trail : List (Visit E), trail.Sublist (program.visits world state)
          ∧ located.levels.map (·.counters) = trail.map (·.counters))
    ∧ ∀ request state located, (engine.handle world request state).1 = .ok (.found located) →
      Graded located.levels := by
  have hlog {chain : Chain} {program : Search E (Outcome E)} (h : engine.Polling chain program)
      (state : σ) := h.logs.visits world state
  refine ⟨fun chain program h state => ?_, fun request state located hfound => ?_⟩
  · obtain ⟨hvisits, hanswer⟩ := hlog h state
    exact ⟨hvisits, fun memory located hrun => hanswer memory _ hrun located rfl⟩
  · obtain ⟨chain, program, memory, later, h, hrun⟩ := exists_polling hfound
    obtain ⟨hvisits, hanswer⟩ := hlog h later
    obtain ⟨trail, hsub, hlevels⟩ := hanswer memory _ hrun located rfl
    exact graded_of_trail hvisits hsub hlevels

/-- A second button in a window is found past a panel with the first: at its visit the log has both,
while the scope has only one. -/
theorem absolute_log_window :
    let chain : Chain :=
      ⟨"Class=Button;AbsClassIndex=2", Level.ofText "Class=Button;AbsClassIndex=2", []⟩
    (∃ before v after,
      ((windowTree.engine {}).locateBelow none ⟨[0]⟩ chain 0 true).visits windowTree.world {}
        = before ++ v :: after
      ∧ v.element = ⟨[0, 1]⟩ ∧ v.counters.LogOf (before ++ [v])
      ∧ v.counters.absoluteCount .className "Button" = 2
      ∧ v.counters.count .className "Button" = 1)
    ∧ ∃ located, ((windowTree.engine {}).handle windowTree.world
          (.root "Class=Window;\\;Class=Button;AbsClassIndex=2" 0 true) {}).1
        = .ok (.found located) ∧ located.levels.length = 2 ∧ Graded located.levels := by
  intro chain
  constructor
  · have h : ((((windowTree.engine {}).locateBelow none ⟨[0]⟩ chain 0 true).visits windowTree.world
        {}).find? (·.element = ⟨[0, 1]⟩)).map (fun v =>
          (v.counters.absoluteCount .className "Button", v.counters.count .className "Button"))
        = some (2, 1) := by decide +kernel
    have hlog := ((absolute_log (windowTree.engine {}) windowTree.world).1 chain _
      (.below none ⟨[0]⟩ 0 true) {}).1
    generalize Search.visits _ _ _ = visits at h hlog ⊢
    obtain ⟨v, hfind, hcounts⟩ := Option.map_eq_some_iff.1 h
    obtain ⟨habsolute, hrelative⟩ := Prod.mk.inj hcounts
    have helement : v.element = ⟨[0, 1]⟩ := by simpa using List.find?_some hfind
    obtain ⟨before, after, hsplit⟩ := List.mem_iff_append.1 (List.mem_of_find?_eq_some hfind)
    exact ⟨before, v, after, hsplit, helement, hlog before v after hsplit, habsolute, hrelative⟩
  · have h : elementOf ((windowTree.engine {}).handle windowTree.world
        (.root "Class=Window;\\;Class=Button;AbsClassIndex=2" 0 true) {}).1 = some ⟨[0, 1]⟩ := by
      decide +kernel
    have hlevels : (((windowTree.engine {}).handle windowTree.world
        (.root "Class=Window;\\;Class=Button;AbsClassIndex=2" 0 true) {}).1.toOption.bind
          Outcome.located?).map (·.levels.length) = some 2 := by decide +kernel
    obtain ⟨located, hfound, -⟩ := elementOf_eq_some.1 h
    rw [hfound] at hlevels
    exact ⟨located, hfound, Option.some.inj hlevels,
      (absolute_log (windowTree.engine {}) windowTree.world).2 _ _ _ hfound⟩

end Engine

end Locator
