import Locator.Proofs.Chains
import Locator.Proofs.Repeating

/-!
# Two ways to the same element

A path of several levels can be asked for as a whole, or the first level as a root and the levels
after it as a descendant of that root. Both scan the roots in the same way, and below the root that
they come to they search for the same levels. The first has counted the roots by then, and marked
one level more, on which relative levels do not depend (`rootPass_alike`). So both find the same
(`two_ways_agree`).
-/

namespace Locator

variable {E : Type}

/-! ## Passes -/

namespace Search

/-- A pass among the roots, and a pass below the root that it finds. -/
def rootThenBelow (reach : Nat) (root : Goal E) (below : E → Goal E) (before start : Progress) :
    Search E (Finding E) := do
  let (found, after) ← rootPass reach root before
  match found with
  | none => pure (none, after)
  | some e => descendantPass reach e (below e) start

/-- The same element below a root, or none, with marks that agree in scope after the mark of the
root. -/
def SameBelow (f g : Finding E) : Prop :=
  f.1 = g.1 ∧ (f.1.isSome → ∃ mark size, Counters.View.scope.Agree [some mark] size f.2 g.2)

variable {reach : Nat} {first level : Level} {rest : List Level} {start : Progress}

/-- Below a root the counts in scope begin again, so what was counted and marked before the root was
found does not matter. -/
theorem below_alike (hrelative : ∀ l ∈ level :: rest, l.Relative) {p : Progress}
    (hmarks : p.marks.byLevel = none :: start.marks.byLevel) (e : E) :
    Alike SameBelow
      (searchBelow reach e ⟨some e, 1, level, rest⟩ (p.record 0).newScope)
      (descendantPass reach e ⟨some e, 0, level, rest⟩ start) := by
  have hagree : Counters.View.scope.Agree [some p.counters] start.marks.byLevel.length
      (p.record 0).newScope (start.newScope.rollBack {}) := by
    refine ⟨rfl, ⟨start.marks.byLevel, ?_, rfl⟩, rfl⟩
    simp only [Progress.newScope, Progress.record, Marks.set, hmarks, List.set_cons_zero]
    rfl
  have hbelow := searchBelow_alike reach e ⟨some e, 1, level, rest⟩ ⟨some e, 0, level, rest⟩ _ _
    ⟨rfl, rfl, rfl, rfl⟩ (fun l hl => (hrelative l hl).suffices) hagree
  exact hbelow.mono fun f g h => ⟨h.1, fun _ => ⟨_, _, h.2⟩⟩

theorem scanRoots_alike (hrelative : ∀ l ∈ level :: rest, l.Relative) :
    ∀ (roots : List E) {p q : Progress}, p.counters = q.counters →
      p.marks.byLevel = none :: start.marks.byLevel →
      Alike SameBelow
        (scan (searchBelow reach) ⟨none, 0, first, level :: rest⟩ roots p)
        (scan (searchBelow reach) ⟨none, 0, first, []⟩ roots q >>= fun (found, after) =>
          match found with
          | none => pure (none, after)
          | some e => descendantPass reach e ⟨some e, 0, level, rest⟩ start)
  | [], _, _, _, _ => .done ⟨rfl, nofun⟩
  | e :: roots, p, q, hcounters, hmarks => by
    have hjudge := judge_alike (⟨none, 0, first, level :: rest⟩ : Goal E) ⟨none, 0, first, []⟩ rfl
      rfl (Counters.View.all_suffices first) hcounters e
    unfold scan
    rw [bind_assoc]
    refine hjudge.bind ?_
    rintro _ _ ⟨satisfied, facts, rfl, rfl⟩
    -- both judge by the first level, so either both stop at this root or both go on
    cases satisfied with
    | true => exact below_alike (p := p.visit facts) hrelative hmarks e
    | false => exact scanRoots_alike hrelative roots (congrArg (·.visit facts) hcounters) hmarks

theorem rootPass_alike (reach : Nat) {chain belowChain : Chain}
    (hrest : chain.rest = belowChain.levels) (hrelative : belowChain.Relative) (root : String) :
    Alike (SameBelow (E := E))
      (rootPass reach chain.rootGoal (Progress.start chain).unmarked)
      (rootThenBelow reach (Chain.rootGoal ⟨root, chain.first, []⟩)
        (fun e => ⟨some e, 0, belowChain.first, belowChain.rest⟩)
        (Progress.start ⟨root, chain.first, []⟩).unmarked
        (Progress.start belowChain).unmarked) := by
  obtain ⟨path, first, rest⟩ := chain
  obtain rfl : rest = belowChain.levels := hrest
  unfold rootThenBelow rootPass
  rw [bind_assoc]
  exact (Alike.question .roots).bind_same fun roots => scanRoots_alike hrelative roots rfl rfl

end Search

/-! ## Requests -/

/-- The same element below a root, reached through the same levels after the first with the same
counts in scope, or no element. -/
inductive Outcome.SameBelow : Outcome E → Outcome E → Prop
  | found {l l' : Located E} (helement : l.element = l'.element)
      (hlevels : (l.levels.drop 1).map LevelMatch.inScope = l'.levels.map LevelMatch.inScope) :
      SameBelow (found l) (found l')
  | notFound (missing missing' : NotFound) : SameBelow (notFound missing) (notFound missing')

section Requests

variable {chain belowChain : Chain}

theorem Counters.View.Agree.map_inScope_below {size : Nat} {mark : Counters} {p q : Progress}
    (h : View.scope.Agree [some mark] size p q) (hrest : chain.rest = belowChain.levels) :
    ((chain.matchesFrom 0 p.marks).map LevelMatch.inScope).drop 1
      = (belowChain.matchesFrom 0 q.marks).map LevelMatch.inScope := by
  obtain ⟨back, hp, hq⟩ := h.marks
  have hback : back.map (Option.map Counters.inScope)
      = q.marks.byLevel.map (Option.map Counters.inScope) := hq
  rw [Chain.map_inScope_matchesFrom, Chain.map_inScope_matchesFrom, hp, Chain.levels, hrest,
    ← hback]
  rfl

theorem Reports.sameBelow {f g : Finding E} {whole parts : Outcome E}
    (hwhole : Reports chain 0 (.ok f) (.ok whole))
    (hparts : Reports belowChain 0 (.ok g) (.ok parts)) (hrest : chain.rest = belowChain.levels)
    (h : Search.SameBelow f g) : whole.SameBelow parts := by
  obtain ⟨result, after⟩ := f
  obtain ⟨result', after'⟩ := g
  obtain ⟨hresult, hagree⟩ := h
  obtain rfl : result = result' := hresult
  cases hwhole with
  | missed _ missing =>
    cases hparts with
    | missed _ missing' => exact .notFound missing missing'
  | found hlevels =>
    cases hparts with
    | found hlevels' =>
      obtain ⟨mark, size, hagree⟩ := hagree rfl
      refine .found rfl ?_
      rw [List.map_drop, hlevels, hlevels', hagree.map_inScope_below hrest]

variable {tree : Snapshot} {engine : Engine Place} {root below : String} {time : Clock}

/-- A single pass for a descendant, by an engine that has to locate the root first. -/
theorem handle_descendant_reports (hmemory : engine.memory.rootFor? root = none)
    {rootChain : Chain} (hrootChain : Engine.readPath root = .ok rootChain)
    (hbelowChain : Engine.readPath below = .ok belowChain)
    (hfirst : Engine.firstSearched engine.settings belowChain = 0) {f : Finding Place}
    (hpass : ∀ memory, (Search.rootThenBelow engine.reach rootChain.rootGoal
        (fun e => ⟨some e, 0, belowChain.first, belowChain.rest⟩)
        (Progress.start rootChain).unmarked (Progress.start belowChain).unmarked).run tree.world
          memory time = ⟨.ok f, memory, time⟩) (timeoutSecs : Nat) :
    ∃ outcome, (engine.handle tree.world (.descendant root below timeoutSecs true) time).1
        = .ok outcome ∧ Reports belowChain 0 (.ok f) (.ok outcome) := by
  have hprogram : engine.program (.descendant root below timeoutSecs true) = .ok _ :=
    Engine.program_not_remembered hbelowChain hmemory hrootChain
  rw [(Engine.handle_of_program hprogram tree.world time).1, Engine.locateRootAndBelow]
  have hrootPass := (Search.PassOf.root rootChain : Search.PassOf engine _ _).run_first
    (tree.world_answers time) rootChain
  unfold Search.rootThenBelow at hpass
  rcases hroot : Search.firstPass (Search.rootPass engine.reach rootChain.rootGoal) rootChain
    tree.answer with error | ⟨found, between⟩ <;> rw [hroot] at hrootPass
  · have := hpass {}
    rw [Search.run_bind, hrootPass] at this
    cases this
  have hreturns : Search.Returns tree.world time (Search.rootPass engine.reach rootChain.rootGoal
      (Progress.start rootChain).unmarked) (found, between) _ := ⟨hrootPass, rfl⟩
  simp only [hreturns.run_bind] at hpass
  obtain ⟨outcome, remembered, hlocate, hreports⟩ := Engine.locateRoot_reports hreturns
    engine.settings.rootRefreshTimeoutSecs engine.memory
  rw [Search.run_bind, hlocate]
  cases hreports with
  | missed after missing =>
    have hf : f = (none, between) := by
      have := hpass {}
      cases this
      rfl
    rw [hf]
    exact ⟨_, rfl, .missed between missing⟩
  | @found e after levels passes hlevels =>
    have hgoal : Engine.goalBelow? engine.settings belowChain e
        = some ⟨some e, 0, belowChain.first, belowChain.rest⟩ := by
      rw [Engine.goalBelow?, hfirst]
      rfl
    have hbelow : Search.Returns tree.world time (Search.descendantPass engine.reach e
        ⟨some e, 0, belowChain.first, belowChain.rest⟩ (Progress.start belowChain).unmarked)
        f _ := ⟨hpass, rfl⟩
    obtain ⟨outcome, _, hrun, hreports⟩ := Engine.locateBelow_reports hgoal hbelow
      (some (rootChain.path, e)) timeoutSecs remembered
    exact ⟨outcome, congrArg Ending.result hrun, hreports⟩

end Requests

/-- A path of several levels, cut at its first separator. A single pass for the whole path and a
single pass for what is before the cut as a root and what is after it as a descendant find the same
element, through the same levels with the same counts in scope, or both find none. -/
theorem two_ways_agree {tree : Snapshot} {engine : Engine Place} (hlisted : tree.unlisted = false)
    (hreach : tree.height ≤ engine.reach) (hfresh : engine.memory = {})
    {path root below : String} (hcut : FirstCut path root below) {chain : Chain}
    (hchain : Engine.readPath path = .ok chain)
    (hbelow : ∀ belowChain, Engine.readPath below = .ok belowChain →
      Engine.firstSearched engine.settings belowChain = 0 ∧ belowChain.Relative)
    (wholeSecs partsSecs : Nat) (wholeTime partsTime : Clock) :
    ∃ whole parts,
      (engine.handle tree.world (.root path wholeSecs true) wholeTime).1 = .ok whole
      ∧ (engine.handle tree.world (.descendant root below partsSecs true) partsTime).1 = .ok parts
      ∧ whole.SameBelow parts := by
  obtain ⟨hrootChain, belowChain, hbelowChain, hrest⟩ := hcut.readPath hchain
  obtain ⟨hfirst, hrelative⟩ := hbelow belowChain hbelowChain
  have halike := Search.rootPass_alike (E := Place) engine.reach hrest hrelative root
  obtain ⟨f, g, hsame, hf, hg⟩ :=
    halike.run (tree.world_answers wholeTime) (tree.world_answers partsTime)
  obtain ⟨result, after, vs, hreturns, -⟩ :=
    Search.rootPass_goesBy hlisted hreach chain.rootGoal (Progress.start chain).unmarked
  obtain rfl : f = .ok (result, after) :=
    congrArg Ending.result ((hf {}).symm.trans (hreturns.run {}))
  obtain ⟨g, rfl, hbelow⟩ := hsame.exists_of_ok
  obtain ⟨whole, _, hwhole, hwholeReports⟩ :=
    Engine.locateRoot_reports hreturns wholeSecs engine.memory
  obtain ⟨parts, hparts, hpartsReports⟩ := handle_descendant_reports (by rw [hfresh]; rfl)
    hrootChain hbelowChain hfirst hg partsSecs
  refine ⟨whole, parts, ?_, hparts, hwholeReports.sameBelow hpartsReports hrest hbelow⟩
  rw [(Engine.handle_of_program (Engine.program_root hchain) tree.world wholeTime).1, hwhole]

/-- The second button of a window, by one path and as a descendant of the window. -/
theorem two_ways_agree_window :
    ∃ whole parts,
      ((windowTree.engine {}).handle windowTree.world
        (.root "Class=Window;\\;Class=Button;ObjectIndex=3" 0 true) {}).1 = .ok whole
      ∧ ((windowTree.engine {}).handle windowTree.world
        (.descendant "Class=Window" "Class=Button;ObjectIndex=3" 0 true) {}).1 = .ok parts
      ∧ whole.SameBelow parts ∧ whole.located?.map (·.element) = some ⟨[0, 1]⟩ := by
  have hcut : FirstCut "Class=Window;\\;Class=Button;ObjectIndex=3" "Class=Window"
      "Class=Button;ObjectIndex=3" := .of_notMem (by decide +kernel) (by decide +kernel)
  have hchain : Engine.readPath "Class=Window;\\;Class=Button;ObjectIndex=3"
      = .ok ⟨"Class=Window;\\;Class=Button;ObjectIndex=3", Level.ofText "Class=Window",
        [Level.ofText "Class=Button;ObjectIndex=3"]⟩ := by decide +kernel
  have hbelow : ∀ belowChain, Engine.readPath "Class=Button;ObjectIndex=3" = .ok belowChain →
      Engine.firstSearched {} belowChain = 0 ∧ belowChain.Relative := by
    have hread : Engine.readPath "Class=Button;ObjectIndex=3"
        = .ok ⟨"Class=Button;ObjectIndex=3", Level.ofText "Class=Button;ObjectIndex=3", []⟩ := by
      decide +kernel
    rintro _ h
    obtain rfl := Except.ok.inj (hread.symm.trans h)
    refine ⟨by decide +kernel, ?_⟩
    unfold Chain.Relative Level.Relative
    decide +kernel
  have hreach : windowTree.height ≤ (windowTree.engine {}).reach := Nat.le_refl _
  obtain ⟨whole, parts, hwhole, hparts, hsame⟩ :=
    two_ways_agree rfl hreach rfl hcut hchain hbelow 0 0 {} {}
  refine ⟨whole, parts, hwhole, hparts, hsame, ?_⟩
  have helement : Engine.elementOf (Except.ok whole) = some ⟨[0, 1]⟩ := by
    rw [← hwhole]
    decide +kernel
  exact helement

end Locator
