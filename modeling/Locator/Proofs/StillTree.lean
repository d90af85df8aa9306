import Locator.Proofs.Independence

/-!
# Polling a tree that does not change

A single pass is the first pass of a request that polls, so what it finds polling finds too. Where
the tree does not change polling finds no more than that, for relative levels. But the absolute
counts go on from pass to pass, so that an element is counted again each time the tree is looked at,
and an absolute index that no element has in the first pass may be reached in a later one
(`polling_still_tree`, `counted_again`).
-/

namespace Locator

variable {E σ : Type}

namespace Search

variable {engine : Engine E} {goal : Goal E} {pass : Progress → Search E (Finding E)}
  {chain : Chain} {start : Nat} {patience : Patience} {world : World σ E} {state : σ}

/-- The pass that finds an element is counted along with those before it. -/
theorem passes_lt_of_found {started spare passes : Nat} {p : Progress} {memory : Memory E}
    {located : Located E}
    (h : ((poll chain start patience pass started spare passes p).run world memory state).result
      = .ok (.found located)) : passes < located.passes := by
  induction spare using Nat.strong_induction_on generalizing passes p memory state with
  | _ spare ih =>
  rw [poll, run_bind] at h
  rcases hrun : (pass p.unmarked).run world memory state with
    ⟨error | ⟨_ | e, after⟩, memory', state'⟩ <;> rw [hrun] at h
  · cases h
  · change (Search.run world (if _ then _ else _) memory' state').result = _ at h
    split at h
    · cases h
    · rcases spare with _ | spare
      · cases h
      · exact Nat.lt_of_succ_lt (ih spare (Nat.lt_succ_self spare) h)
  · cases h
    exact Nat.lt_succ_self passes

section First

variable {answers : Oracle E} (hpass : PassOf engine goal pass)
  (hanswers : world.Answers state answers)
include hpass hanswers

/-- Polling finds at once what the first pass finds. -/
theorem pollFromNow_of_first {e : E} {after : Progress}
    (h : firstPass pass chain answers = .ok (some e, after)) (memory : Memory E) :
    (pollFromNow chain start patience pass).run world memory state
      = ⟨.ok (.found ⟨e, chain.matchesFrom start after.marks, 1⟩), memory, state⟩ := by
  have hfirst : Returns world state (pass (Progress.start chain).unmarked) (some e, after) _ :=
    ⟨fun memory => by rw [hpass.run_first hanswers chain memory, h], rfl⟩
  exact (poll_found hfirst).run memory

/-- What polling finds the first pass found, unless it found nothing and more passes were made. -/
theorem first_of_pollFromNow {memory : Memory E} {located : Located E}
    (h : ((pollFromNow chain start patience pass).run world memory state).result
      = .ok (.found located)) :
    (∃ after, firstPass pass chain answers = .ok (some located.element, after)
        ∧ located = ⟨located.element, chain.matchesFrom start after.marks, 1⟩)
      ∨ patience.singlePass = false ∧ 1 < located.passes
        ∧ ∃ after, firstPass pass chain answers = .ok (none, after) := by
  have hrun := hpass.run_first hanswers chain
  rcases hfirst : firstPass pass chain answers with error | ⟨_ | e, after⟩
  · rw [hfirst] at hrun
    change ((poll ..).run world memory state).result = _ at h
    rw [poll, run_bind, hrun] at h
    cases h
  · have hmissed : Returns world state (pass (Progress.start chain).unmarked) (none, after) _ :=
      ⟨fun memory => by rw [hrun, hfirst], rfl⟩
    obtain ⟨spare, hspare⟩ : ∃ spare, passLimit - 1 = spare + 1 := ⟨passLimit - 2, by decide⟩
    change ((poll chain start patience pass (world.now state) (passLimit - 1) 0
      (.start chain)).run world memory state).result = _ at h
    by_cases hup : patience.singlePass = true
        ∨ 1000 * patience.timeoutSecs ≤ world.now state - world.now state
    · rw [(poll_missed hmissed (hup.imp_right .inl)).run] at h
      cases h
    · rw [hspare, (poll_again hmissed hup).2] at h
      refine .inr ⟨?_, passes_lt_of_found h, after, rfl⟩
      exact Bool.eq_false_iff.2 fun hsingle => hup (.inl hsingle)
  · rw [pollFromNow_of_first hpass hanswers hfirst] at h
    cases h
    exact .inl ⟨after, rfl, rfl⟩

end First

end Search

/-! ## Requests -/

/-- What polling finds against what a single pass finds. -/
structure FindsAsAlone (path : String) (polled alone : Except Error (Outcome Place)) : Prop where
  of_alone : ∀ located, alone = .ok (.found located) → polled = .ok (.found located)
  alone_of : ∀ located, polled = .ok (.found located) → alone = .ok (.found located)
    ∨ 1 < located.passes ∧ ∃ chain, Engine.readPath path = .ok chain ∧ ¬ chain.Relative

theorem FindsAsAlone.of_refused {path : String} {error : Error}
    {alone : Except Error (Outcome Place)} (h : alone = .error error) :
    FindsAsAlone path (.error error) alone where
  of_alone located hlocated := by
    rw [h] at hlocated
    cases hlocated
  alone_of located := nofun

section Requests

open Search

variable {engine : Engine Place} {tree : Snapshot} {path : String} {chain : Chain}

theorem Search.PassOf.findsAsAlone {goal : Goal Place}
    {pass : Progress → Search Place (Finding Place)} (hpass : PassOf engine goal pass)
    (hchain : Engine.readPath path = .ok chain)
    (hrelative : chain.Relative → ∀ level ∈ goal.level :: goal.rest, level.Relative) (start : Nat)
    (patience alonePatience : Patience) (hsingle : alonePatience.singlePass = true)
    (memory aloneMemory : Memory Place) (time aloneTime : Clock) :
    FindsAsAlone path
      ((pollFromNow chain start patience pass).run tree.world memory time).result
      ((pollFromNow chain start alonePatience pass).run tree.world aloneMemory
        aloneTime).result where
  of_alone located h := by
    rcases first_of_pollFromNow hpass (tree.world_answers aloneTime) h with
      ⟨after, hfirst, hlocated⟩ | ⟨hpolls, -⟩
    · rw [pollFromNow_of_first hpass (tree.world_answers time) hfirst, ← hlocated]
    · rw [hsingle] at hpolls
      cases hpolls
  alone_of located h := by
    rcases first_of_pollFromNow hpass (tree.world_answers time) h with
      ⟨after, hfirst, hlocated⟩ | ⟨-, hpasses, after, hfirst⟩
    · rw [pollFromNow_of_first hpass (tree.world_answers aloneTime) hfirst, ← hlocated]
      exact .inl rfl
    · refine .inr ⟨hpasses, chain, hchain, fun hchainRelative => ?_⟩
      obtain ⟨more, hends⟩ := pollFromNow_ends tree.world_answers hpass
        (hrelative hchainRelative) chain start patience time
      obtain ⟨missing, hmissing⟩ := (hfirst ▸ (hends memory).reports).eq_of_missed
      rw [hmissing] at h
      cases h

/-- Polling a tree that does not change finds whatever a single pass finds, and finds nothing else
but by counting elements again for an absolute index. A descendant request does so given its
root. -/
theorem polling_still_tree (engine : Engine Place) (tree : Snapshot) (path : String)
    (timeoutSecs aloneSecs : Nat) (time aloneTime : Clock) :
    FindsAsAlone path (engine.handle tree.world (.root path timeoutSecs false) time).1
      (engine.rootAlone path aloneSecs tree aloneTime)
    ∧ ∀ rootPath root, engine.rootInUse tree.world rootPath false time = some root →
      FindsAsAlone path
        (engine.handle tree.world (.descendant rootPath path timeoutSecs false) time).1
        (engine.belowAlone rootPath root path aloneSecs tree aloneTime) := by
  rcases hchain : Engine.readPath path with error | chain
  · refine ⟨?_, fun rootPath root _ => ?_⟩
    · rw [(Engine.handle_of_refused (Engine.program_root_unreadable hchain) _ _).1]
      exact .of_refused (Engine.handle_of_refused (Engine.program_root_unreadable hchain) _ _).1
    · rw [(Engine.handle_of_refused (Engine.program_descendant_unreadable hchain) _ _).1]
      exact .of_refused
        (Engine.handle_of_refused (Engine.program_descendant_unreadable hchain) _ _).1
  refine ⟨?_, fun rootPath root hroot => ?_⟩
  · obtain ⟨_, hpolled⟩ :=
      Engine.run_locateRoot engine tree.world chain timeoutSecs false engine.memory time
    rw [(Engine.handle_of_program (Engine.program_root hchain) tree.world time).1, hpolled,
      Engine.rootAlone_eq hchain]
    exact (PassOf.root chain).findsAsAlone hchain id 0 _ _ rfl _ _ _ _
  obtain ⟨cachedRoot, memory, later, hanswer, -⟩ :=
    Engine.handle_descendant timeoutSecs hchain hroot
  rw [hanswer]
  rcases hgoal : Engine.goalBelow? engine.settings chain root with _ | goal
  · obtain ⟨_, hpolled⟩ := Engine.run_locateBelow_nothing engine tree.world hgoal cachedRoot
      timeoutSecs false memory later
    rw [hpolled, Engine.belowAlone_nothing hchain hgoal]
    exact ⟨fun _ h => h, fun _ h => .inl h⟩
  · obtain ⟨_, hpolled⟩ := Engine.run_locateBelow engine tree.world hgoal cachedRoot timeoutSecs
      false memory later
    rw [hpolled, Engine.belowAlone_eq hchain hgoal]
    exact (PassOf.descendant hgoal).findsAsAlone hchain (Engine.relative_of_goalBelow hgoal)
      goal.position _ _ rfl _ _ _ _

end Requests

/-- Polling for the button of a window, and a single pass for it. -/
theorem polling_still_tree_window :
    (windowTree.engine {}).rootInUse windowTree.world "Class=Window" false {} = some ⟨[0]⟩
      ∧ FindsAsAlone "Class=Button;AbsClassIndex=2"
        ((windowTree.engine {}).handle windowTree.world
          (.descendant "Class=Window" "Class=Button;AbsClassIndex=2" 5 false) {}).1
        ((windowTree.engine {}).belowAlone "Class=Window" ⟨[0]⟩ "Class=Button;AbsClassIndex=2" 0
          windowTree {}) := by
  have hroot : (windowTree.engine {}).rootInUse windowTree.world "Class=Window" false {}
      = some ⟨[0]⟩ := by decide +kernel
  exact ⟨hroot, (polling_still_tree (windowTree.engine {}) windowTree _ 5 0 {} {}).2 _ _ hroot⟩

def loneTree : Snapshot where
  roots := [{ className := "R" }]

/-- The only element of a tree is the second of its class as soon as it is counted again. -/
theorem counted_again :
    Engine.elementOf ((loneTree.engine {}).handle loneTree.world
        (.root "Class=R;AbsClassIndex=2" 1 false) {}).1 = some ⟨[0]⟩
      ∧ Engine.elementOf ((loneTree.engine {}).rootAlone "Class=R;AbsClassIndex=2" 1 loneTree {})
        = none := by
  decide +kernel

end Locator
