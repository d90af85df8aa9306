import Locator.Proofs.Chains
import Locator.Proofs.Histories
import Mathlib.Logic.Relation
import Mathlib.Order.WellFounded

/-!
# A reach that is large enough

The reach of an engine ends a descent that goes on for too many generations. A search without a
reach has no such end: it goes on below every element, and comes to an end if its descents do. Then
it is what searches with larger and larger reaches settle on (`Search.Settles`).

Where no descent goes on for ever (`World.Grounded`) every request settles, so some reach is enough
for it (`Engine.exists_reachesAll`). Where every element ranks above what is listed below it, a
reach that no rank exceeds is (`Engine.reachesAll_of_ranked`). A world that shows snapshots, perhaps
another one after each sleep, is ranked by their heights (`World.ranked_of_answers`).
-/

namespace Locator

variable {E α β σ : Type}

/-! ## Worlds in which descents end -/

namespace World

/-- A world may come from one state to another by answering questions. -/
def Asked (world : World σ E) : σ → σ → Prop :=
  Relation.ReflTransGen fun state later => ∃ query, (world.answer query state).2 = later

/-- An element is listed below another in its state, and is come to after some more questions. -/
def Lists (world : World σ E) (above below : E × σ) : Prop :=
  ∃ (listed : List E) (between : σ),
    world.answer (.children above.1) above.2 = (.ok listed, between)
    ∧ below.1 ∈ listed ∧ world.Asked between below.2

/-- No descent goes on for ever: there is no endless row of elements, each listed below the one
before it while nothing but questions comes between. -/
def Grounded (world : World σ E) : Prop :=
  WellFounded fun below above => world.Lists above below

/-- What is listed below an element ranks lower than the element, each in its state, and no rank
exceeds `reach`. -/
structure Ranked (world : World σ E) (rank : E × σ → Nat) (reach : Nat) : Prop where
  lower : ∀ above below, world.Lists above below → rank below < rank above
  le_reach : ∀ spot, rank spot ≤ reach

/-- Bounds on the generations below an element in a state: where nothing is listed there need be
none, and above what is listed there is one more. The limit bounds them all. -/
structure Generations (world : World σ E) (within : E × σ → Nat → Prop) (limit : Nat → Prop) :
    Prop where
  grounded : world.Grounded
  leaf : ∀ spot, within spot 0
  above : ∀ spot below n, world.Lists spot below → within below n → within spot (n + 1)
  within_limit : ∀ spot n, within spot n → limit n
  limit_zero : limit 0

variable {world : World σ E} {rank : E × σ → Nat} {reach : Nat}

theorem Ranked.grounded (h : world.Ranked rank reach) : world.Grounded :=
  Subrelation.wf (h.lower _ _) (InvImage.wf rank Nat.lt_wfRel.wf)

theorem Ranked.generations (h : world.Ranked rank reach) :
    world.Generations (fun spot n => n ≤ rank spot) (· ≤ reach) where
  grounded := h.grounded
  leaf _ := Nat.zero_le _
  above spot below _ hlists hle := hle.trans_lt (h.lower spot below hlists)
  within_limit spot _ hle := hle.trans (h.le_reach spot)
  limit_zero := Nat.zero_le reach

theorem Grounded.generations (h : world.Grounded) :
    world.Generations (fun _ _ => True) fun _ => True where
  grounded := h
  leaf _ := trivial
  above _ _ _ _ _ := trivial
  within_limit _ _ _ := trivial
  limit_zero := trivial

end World

/-! ## Programs that do the same -/

namespace Search

/-- Programs that come to the same from a state on, by the same visits and events. -/
structure SameFrom (world : World σ E) (state : σ) (p q : Search E α) : Prop where
  run : ∀ memory, p.run world memory state = q.run world memory state
  visits : p.visits world state = q.visits world state
  history : p.history world state = q.history world state

/-- Programs that come to the same in a world by the same visits and events. -/
structure Same (world : World σ E) (p q : Search E α) : Prop where
  run : ∀ memory state, p.run world memory state = q.run world memory state
  visits : ∀ state, p.visits world state = q.visits world state
  history : ∀ state, p.history world state = q.history world state

variable {world : World σ E} {state : σ}

theorem Same.of_from {p q : Search E α} (h : ∀ state, SameFrom world state p q) :
    Same world p q :=
  ⟨fun memory state => (h state).run memory, fun state => (h state).visits,
    fun state => (h state).history⟩

/-- What a program comes to does not depend on what was remembered before. -/
theorem run_of_memory (world : World σ E) (program : Search E α) :
    ∀ (memory memory' : Memory E) (state : σ),
    (program.run world memory state).result = (program.run world memory' state).result
      ∧ (program.run world memory state).state = (program.run world memory' state).state := by
  induction program with
  | done _ => exact fun _ _ _ => ⟨rfl, rfl⟩
  | ask query _ ih =>
    intro memory memory' state
    rcases h : world.answer query state with ⟨error | answer, between⟩
    · simp only [run, h, and_self]
    · simpa only [run, h] using ih answer memory memory' between
  | clock _ ih => exact fun memory memory' state => ih _ memory memory' state
  | sleep _ _ ih => exact fun memory memory' state => ih memory memory' _
  | remember _ _ _ => exact fun _ _ _ => ⟨rfl, rfl⟩
  | visit _ _ ih => exact ih

/-- A program that only asks and visits leaves a state that the world comes to by answering. -/
theorem Alike.asked {R : α → β → Prop} {p : Search E α} {q : Search E β} (h : Alike R p q)
    (world : World σ E) : ∀ (memory : Memory E) (state : σ),
      world.Asked state (p.run world memory state).state := by
  induction h with
  | done _ => exact fun _ _ => .refl
  | @ask query go go' _ ih =>
    intro memory state
    have hfirst : world.Asked state (world.answer query state).2 := .single ⟨query, rfl⟩
    rcases hanswer : world.answer query state with ⟨error | answer, between⟩ <;>
      rw [hanswer] at hfirst
    · simp only [Search.run, hanswer]
      exact hfirst
    · simp only [Search.run, hanswer]
      exact hfirst.trans (ih answer memory between)
  | visit _ ih => exact ih

namespace SameFrom

theorem refl (p : Search E α) : SameFrom world state p p :=
  ⟨fun _ => rfl, rfl, rfl⟩

theorem bind {p q : Search E α} (h : SameFrom world state p q) {f g : α → Search E β}
    (hnext : ∀ memory a memory' later, p.run world memory state = ⟨.ok a, memory', later⟩ →
      SameFrom world later (f a) (g a)) : SameFrom world state (p >>= f) (q >>= g) where
  run memory := by
    rw [run_bind, run_bind, ← h.run]
    rcases hrun : p.run world memory state with ⟨error | a, memory', later⟩
    · rfl
    · exact (hnext memory a memory' later hrun).run memory'
  visits := by
    rw [visits_bind _ _ {}, visits_bind _ _ {}, ← h.run, h.visits]
    rcases hrun : p.run world {} state with ⟨error | a, memory', later⟩
    · rfl
    · exact congrArg (_ ++ ·) (hnext {} a memory' later hrun).visits
  history := by
    rw [history_bind _ _ {}, history_bind _ _ {}, ← h.run, h.history]
    rcases hrun : p.run world {} state with ⟨error | a, memory', later⟩
    · rfl
    · exact congrArg (_ ++ ·) (hnext {} a memory' later hrun).history

theorem clock {f g : Nat → Search E α}
    (h : SameFrom world state (f (world.now state)) (g (world.now state))) :
    SameFrom world state (clock f) (clock g) :=
  ⟨h.run, h.visits, h.history⟩

theorem sleep {p q : Search E α} (ms : Nat) (h : SameFrom world (world.sleep ms state) p q) :
    SameFrom world state (sleep ms p) (sleep ms q) :=
  ⟨h.run, h.visits, congrArg (_ :: ·) h.history⟩

end SameFrom

/-! ## Families that settle -/

/-- From some number on, which is within a limit, all programs of a family do the same. -/
def Settles (world : World σ E) (limit : Nat → Prop) (state : σ) (f : Nat → Search E α) : Prop :=
  ∃ enough, limit enough ∧ ∀ n m, enough ≤ n → enough ≤ m → SameFrom world state (f n) (f m)

variable {limit limit' : Nat → Prop}

namespace Settles

theorem const (h : limit 0) (p : Search E α) : Settles world limit state fun _ => p :=
  ⟨0, h, fun _ _ _ _ => .refl p⟩

theorem mono {f : Nat → Search E α} (h : Settles world limit state f)
    (hlimit : ∀ n, limit n → limit' n) : Settles world limit' state f := by
  obtain ⟨enough, henough, hsame⟩ := h
  exact ⟨enough, hlimit enough henough, hsame⟩

/-- A family settles if it does so without its first program. -/
theorem of_succ {f : Nat → Search E α} (h : Settles world limit state fun n => f (n + 1))
    (hlimit : ∀ n, limit n → limit' (n + 1)) : Settles world limit' state f := by
  obtain ⟨enough, henough, hsame⟩ := h
  refine ⟨enough + 1, hlimit enough henough, fun n m hn hm => ?_⟩
  obtain ⟨n, rfl⟩ := Nat.exists_eq_succ_of_ne_zero (Nat.ne_zero_of_lt hn)
  obtain ⟨m, rfl⟩ := Nat.exists_eq_succ_of_ne_zero (Nat.ne_zero_of_lt hm)
  exact hsame n m (Nat.le_of_succ_le_succ hn) (Nat.le_of_succ_le_succ hm)

theorem bind {f : Nat → Search E α} (h : Settles world limit state f)
    {next : Nat → α → Search E β}
    (hnext : ∀ n a memory later, (f n).run world {} state = ⟨.ok a, memory, later⟩ →
      Settles world limit later fun m => next m a) :
    Settles world limit state fun n => f n >>= next n := by
  obtain ⟨enough, henough, hsame⟩ := h
  -- for all large numbers the first program ends alike, whatever was remembered before it
  have hends : ∀ n, enough ≤ n → ∀ memory,
      ((f n).run world memory state).result = ((f enough).run world {} state).result
      ∧ ((f n).run world memory state).state = ((f enough).run world {} state).state := by
    intro n hn memory
    rw [(hsame n enough hn le_rfl).run]
    exact run_of_memory world (f enough) memory {} state
  rcases hrun : (f enough).run world {} state with ⟨error | a, memory, later⟩
  · refine ⟨enough, henough, fun n m hn hm => (hsame n m hn hm).bind ?_⟩
    intro memory a memory' later hend
    have hresult := (hends n hn memory).1
    rw [hend, hrun] at hresult
    cases hresult
  · obtain ⟨enough', henough', hsame'⟩ := hnext enough a memory later hrun
    refine ⟨max enough enough', ?_, fun n m hn hm => ?_⟩
    · rcases Nat.le_total enough enough' with hle | hle
      · rwa [Nat.max_eq_right hle]
      · rwa [Nat.max_eq_left hle]
    obtain ⟨hn, hn'⟩ := Nat.max_le.1 hn
    obtain ⟨hm, hm'⟩ := Nat.max_le.1 hm
    refine (hsame n m hn hm).bind fun memory b memory' between hend => ?_
    obtain ⟨hresult, hstate⟩ := hends n hn memory
    rw [hend, hrun] at hresult hstate
    cases hresult
    obtain rfl : between = later := hstate
    exact hsame' n m hn' hm'

theorem clock {next : Nat → Nat → Search E α}
    (h : Settles world limit state fun n => next n (world.now state)) :
    Settles world limit state fun n => Search.clock (next n) := by
  obtain ⟨enough, henough, hsame⟩ := h
  exact ⟨enough, henough, fun n m hn hm => .clock (hsame n m hn hm)⟩

theorem sleep {f : Nat → Search E α} (ms : Nat)
    (h : Settles world limit (world.sleep ms state) f) :
    Settles world limit state fun n => Search.sleep ms (f n) := by
  obtain ⟨enough, henough, hsame⟩ := h
  exact ⟨enough, henough, fun n m hn hm => .sleep ms (hsame n m hn hm)⟩

end Settles

/-! ## Searches -/

theorem judge_asks (goal : Goal E) (e : E) (p : Progress) :
    Alike Eq (judge goal e p) (judge goal e p) :=
  (judge_alike goal goal rfl rfl (Counters.View.all_suffices goal.level) rfl e).self

theorem searchBelow_asks (reach : Nat) (e : E) (goal : Goal E) (p : Progress) :
    Alike Eq (searchBelow reach e goal p) (searchBelow reach e goal p) := by
  have hagree : Counters.View.all.Agree [] p.marks.byLevel.length p p :=
    ⟨rfl, ⟨p.marks.byLevel, rfl, rfl⟩, rfl⟩
  have hgoal : goal.Counterpart ([] : List (Option Counters)).length goal := .self goal
  exact (searchBelow_alike reach e goal goal p p hgoal
    (fun level _ => Counters.View.all_suffices level) hagree).self

/-- A scan settles if the searches below the siblings do, whenever they begin. -/
theorem scan_settles (h : limit 0) : ∀ (goal : Goal E) (siblings : List E) (p : Progress)
    (state : σ),
    (∀ e ∈ siblings, ∀ goal p later, world.Asked state later →
      Settles world limit later fun reach => searchBelow reach e goal p) →
    Settles world limit state fun reach => scan (searchBelow reach) goal siblings p
  | _, [], _, _, _ => .const h _
  | goal, e :: siblings, p, state, hbelow => by
    obtain ⟨hfirst, hrest⟩ := List.forall_mem_cons.1 hbelow
    unfold scan
    refine (Settles.const h (judge goal e p)).bind fun _ judged memory later hjudged => ?_
    have hlater : world.Asked state later := by
      simpa only [hjudged] using (judge_asks goal e p).asked world {} state
    obtain ⟨satisfied, progress⟩ := judged
    cases satisfied with
    | true =>
      simp only [if_true, commit]
      split
      · exact .const h _
      · exact hfirst _ _ later hlater
    | false =>
      simp only [Bool.false_eq_true, if_false]
      split
      · exact scan_settles h goal siblings progress later fun x hx goal p after hafter =>
          hrest x hx goal p after (hlater.trans hafter)
      refine (hfirst goal progress later hlater).bind fun reach finding memory' after hfailed => ?_
      have hafter : world.Asked later after := by
        simpa only [hfailed] using
          (searchBelow_asks reach e goal progress).asked world {} later
      obtain ⟨found, progress'⟩ := finding
      cases found with
      | some _ => exact .const h _
      | none =>
        exact scan_settles h goal siblings _ after fun x hx goal p last hlast =>
          hrest x hx goal p last ((hlater.trans hafter).trans hlast)

section Generations

variable {within : E × σ → Nat → Prop} (h : world.Generations within limit)
include h

/-- The induction is on the descent: where one ends, nothing is left to search. -/
theorem searchBelow_settles (spot : E × σ) : ∀ (goal : Goal E) (p : Progress),
    Settles world (within spot) spot.2 fun reach => searchBelow reach spot.1 goal p := by
  induction spot using h.grounded.induction with
  | _ spot ih =>
  obtain ⟨e, state⟩ := spot
  intro goal p
  unfold searchBelow
  refine (Settles.const (h.leaf _) (question (.children e))).bind
    fun _ listed memory between hasked => ?_
  have hlisted : world.answer (.children e) state = (.ok listed, between) := by
    rw [run_question] at hasked
    exact Prod.ext (congrArg Ending.result hasked) (congrArg Ending.state hasked)
  rcases listed with _ | ⟨x, listed⟩
  · refine ⟨0, h.leaf _, fun n m _ _ => ?_⟩
    cases n <;> cases m <;> exact .refl _
  have hlists : ∀ y ∈ x :: listed, ∀ later, world.Asked between later →
      world.Lists (e, state) (y, later) :=
    fun y hy later hlater => ⟨_, between, hlisted, hy, hlater⟩
  refine .of_succ ?_ fun _ hn => hn
  refine scan_settles (h.above _ _ 0 (hlists x List.mem_cons_self between .refl) (h.leaf _)) goal
    (x :: listed) p between fun y hy goal p later hlater => ?_
  have hbelow := hlists y hy later hlater
  exact (ih (y, later) hbelow goal p).mono fun n hn => h.above _ _ n hbelow hn

theorem descendantPass_settles (root : E) (goal : Goal E) (p : Progress) (state : σ) :
    Settles world limit state fun reach => descendantPass reach root goal p :=
  (searchBelow_settles h (root, state) goal _).mono (h.within_limit _)

theorem rootPass_settles (goal : Goal E) (p : Progress) (state : σ) :
    Settles world limit state fun reach => rootPass reach goal p :=
  (Settles.const h.limit_zero (question .roots)).bind fun _ roots _ later _ =>
    scan_settles h.limit_zero goal roots _ later fun e _ goal p after _ =>
      (searchBelow_settles h (e, after) goal p).mono (h.within_limit _)

end Generations

theorem PassOf.eq {engine : Engine E} {goal : Goal E} {pass : Progress → Search E (Finding E)}
    (h : PassOf engine goal pass) :
    (goal.anchor = none ∧ pass = rootPass engine.reach goal)
      ∨ ∃ root, goal.anchor = some root ∧ pass = descendantPass engine.reach root goal := by
  cases h with
  | root chain => exact .inl ⟨rfl, rfl⟩
  | descendant hgoal => exact .inr ⟨_, (Goal.ofLevels?_eq_some.1 hgoal).1, rfl⟩

/-- A pass does the same within every reach that no rank exceeds. -/
theorem PassOf.same {engine : Engine E} {goal : Goal E} {rank : E × σ → Nat} {reach' : Nat}
    {pass pass' : Progress → Search E (Finding E)} (h : PassOf engine goal pass)
    (h' : PassOf { engine with reach := reach' } goal pass')
    (hranked : world.Ranked rank engine.reach) (hle : engine.reach ≤ reach') (p : Progress) :
    Same world (pass p) (pass' p) := by
  refine .of_from fun state => ?_
  rcases h.eq with ⟨hanchor, rfl⟩ | ⟨root, hanchor, rfl⟩ <;>
    rcases h'.eq with ⟨hanchor', rfl⟩ | ⟨root', hanchor', rfl⟩ <;> rw [hanchor] at hanchor'
  · obtain ⟨enough, henough, hsame⟩ := rootPass_settles hranked.generations goal p state
    exact hsame engine.reach reach' henough (henough.trans hle)
  · cases hanchor'
  · cases hanchor'
  · cases hanchor'
    obtain ⟨enough, henough, hsame⟩ := descendantPass_settles hranked.generations root goal p state
    exact hsame engine.reach reach' henough (henough.trans hle)

section Poll

variable {chain : Chain} {start : Nat} {patience : Patience}
  {pass : Nat → Progress → Search E (Finding E)}
  (h : limit 0) (hpass : ∀ p state, Settles world limit state fun reach => pass reach p)
include h hpass

theorem poll_settles (started spare passes : Nat) (p : Progress) (state : σ) :
    Settles world limit state fun reach =>
      poll chain start patience (pass reach) started spare passes p := by
  induction spare using Nat.strong_induction_on generalizing passes p state with
  | _ spare ih =>
  unfold poll
  refine (hpass p.unmarked state).bind fun _ finding _ later _ => ?_
  rcases finding with ⟨_ | e, after⟩
  · refine .clock ?_
    simp only [andThen]
    split
    · exact .const h _
    · rcases spare with _ | spare
      · exact .const h _
      · exact .sleep _ (ih spare (Nat.lt_succ_self spare) _ _ _)
  · exact .const h _

theorem pollFromNow_settles (state : σ) :
    Settles world limit state fun reach => pollFromNow chain start patience (pass reach) :=
  (Settles.const h now).bind fun _ started _ later _ =>
    poll_settles h hpass started _ 0 _ later

end Poll

end Search

/-! ## Requests -/

namespace Engine

open Search

variable {world : World σ E} {within : E × σ → Nat → Prop} {limit : Nat → Prop}

section Locate

variable (h : world.Generations within limit) (engine : Engine E)
include h

theorem locateRoot_settles (chain : Chain) (timeoutSecs : Nat) (singlePass : Bool) (state : σ) :
    Settles world limit state fun reach =>
      { engine with reach }.locateRoot chain timeoutSecs singlePass := by
  simp only [locateRoot, patience]
  exact .bind (pollFromNow_settles h.limit_zero (rootPass_settles h _) state)
    fun _ _ _ _ _ => .const h.limit_zero _

theorem locateBelow_settles (cachedRoot : Option (String × E)) (root : E) (chain : Chain)
    (timeoutSecs : Nat) (singlePass : Bool) (state : σ) :
    Settles world limit state fun reach =>
      { engine with reach }.locateBelow cachedRoot root chain timeoutSecs singlePass := by
  simp only [locateBelow, patience]
  split
  · exact .const h.limit_zero _
  · exact .bind (pollFromNow_settles h.limit_zero (descendantPass_settles h root _) state)
      fun _ _ _ _ _ => .const h.limit_zero _

theorem locateRootAndBelow_settles (rootChain chain : Chain) (timeoutSecs : Nat)
    (singlePass : Bool) (state : σ) :
    Settles world limit state fun reach =>
      { engine with reach }.locateRootAndBelow rootChain chain timeoutSecs singlePass := by
  unfold locateRootAndBelow
  refine .bind (locateRoot_settles h engine rootChain engine.settings.rootRefreshTimeoutSecs
    singlePass state) fun _ outcome _ later _ => ?_
  rcases outcome with located | missing
  · exact locateBelow_settles h engine _ _ _ _ _ later
  · exact .const h.limit_zero _

/-- Engines that differ in their reach refuse the same requests. To any other they answer by
programs that settle. -/
theorem program_settles (request : Request) :
    (∃ error, ∀ reach, { engine with reach }.program request = .error error)
    ∨ ∃ program : Nat → Search E (Outcome E),
      (∀ reach, { engine with reach }.program request = .ok (program reach))
      ∧ ∀ state, Settles world limit state program := by
  rcases request with ⟨path, timeoutSecs, singlePass⟩ | ⟨rootPath, path, timeoutSecs, singlePass⟩
  · rcases hchain : readPath path with error | chain
    · exact .inl ⟨error, fun _ => program_root_unreadable hchain⟩
    · exact .inr ⟨_, fun _ => program_root hchain,
        locateRoot_settles h engine chain timeoutSecs singlePass⟩
  rcases hchain : readPath path with error | chain
  · exact .inl ⟨error, fun _ => program_descendant_unreadable hchain⟩
  rcases hremembered : engine.memory.rootFor? rootPath with _ | root
  · rcases hroot : readPath rootPath with error | rootChain
    · exact .inl ⟨error, fun _ => program_root_of_descendant_unreadable hchain hremembered hroot⟩
    · exact .inr ⟨_, fun _ => program_not_remembered hchain hremembered hroot,
        locateRootAndBelow_settles h engine rootChain chain timeoutSecs singlePass⟩
  · exact .inr ⟨_, fun _ => program_remembered hchain hremembered,
      locateBelow_settles h engine engine.memory.cachedRoot root chain timeoutSecs singlePass⟩

end Locate

/-- With any larger reach the engine does and answers the same to a request. A search that has no
reach ends just when some reach is enough in this sense: every generation that it goes down costs a
question. -/
def ReachesAll (engine : Engine E) (world : World σ E) (request : Request) (state : σ) : Prop :=
  ∀ reach, engine.reach ≤ reach →
    let answer := engine.handle world request state
    { engine with reach }.handle world request state
        = (answer.1, { answer.2.1 with reach }, answer.2.2)
      ∧ { engine with reach }.history world request state = engine.history world request state

/-- Where descents end, some reach is enough for a request, and so is every larger one. -/
theorem exists_reachesAll (h : world.Generations within limit) (engine : Engine E)
    (request : Request) (state : σ) :
    ∃ enough, limit enough ∧
      ∀ reach, enough ≤ reach → { engine with reach }.ReachesAll world request state := by
  rcases program_settles h engine request with ⟨error, hrefused⟩ | ⟨program, hprogram, hsettles⟩
  · refine ⟨0, h.limit_zero, fun reach _ reach' _ => ?_⟩
    simp only [handle, history, hrefused, and_self]
  · obtain ⟨enough, henough, hsame⟩ := hsettles state
    refine ⟨enough, henough, fun reach hreach reach' hle => ?_⟩
    have hboth := hsame reach' reach (hreach.trans hle) hreach
    simp only [handle, history, hprogram, hboth.run, hboth.history, and_self]

/-- A reach that no rank exceeds is enough. -/
theorem reachesAll_of_ranked {engine : Engine E} {rank : E × σ → Nat}
    (h : world.Ranked rank engine.reach) (request : Request) (state : σ) :
    engine.ReachesAll world request state := by
  obtain ⟨enough, henough, hall⟩ := exists_reachesAll h.generations engine request state
  exact hall engine.reach henough

end Engine

/-! ## The height of a snapshot -/

/-- The number of generations from an element on. -/
def Snapshot.rank (tree : Snapshot) (e : Place) : Nat :=
  (tree.node? e).elim 0 (·.height)

theorem World.Asked.eq_of_answers {world : World σ E} {answers : σ → Oracle E}
    (h : ∀ state, world.Answers state (answers state)) {state later : σ}
    (hasked : world.Asked state later) : later = state := by
  induction hasked with
  | refl => rfl
  | tail _ hlast ih =>
    obtain ⟨query, rfl⟩ := hlast
    rw [h, ih]

/-- A world that shows a snapshot in each state is ranked, though it may show others later. -/
theorem World.ranked_of_answers {world : World σ Place} {tree : σ → Snapshot} {reach : Nat}
    (h : ∀ state, world.Answers state (tree state).answer)
    (hreach : ∀ state, (tree state).height ≤ reach) :
    world.Ranked (fun spot => (tree spot.2).rank spot.1) reach where
  lower := by
    rintro ⟨e, state⟩ ⟨x, later⟩ ⟨listed, between, hlisted, hx, hasked⟩
    obtain ⟨hanswer, rfl⟩ := Prod.mk.inj ((h state (.children e)).symm.trans hlisted)
    obtain rfl := hasked.eq_of_answers h
    obtain ⟨-, -, hlisted⟩ := bind_eq_ok.1 hanswer
    obtain ⟨node, hnode, ⟨⟩⟩ := bind_eq_ok.1 hlisted
    rcases he : (tree later).node? e with _ | found
    · simp only [Snapshot.node, he] at hnode
      cases hnode
    · obtain rfl : found = node := by
        simp only [Snapshot.node, he] at hnode
        exact Except.ok.inj hnode
      rw [← Snapshot.children_eq he] at hx
      obtain ⟨child, hchild, hlt⟩ := Snapshot.exists_node_of_mem_children he hx
      simpa only [Snapshot.rank, he, hchild, Option.elim_some] using hlt
  le_reach spot := by
    obtain ⟨e, state⟩ := spot
    rw [Snapshot.rank]
    rcases he : (tree state).node? e with _ | node
    · exact Nat.zero_le reach
    · exact (Snapshot.height_le he).trans (hreach state)

theorem Snapshot.ranked {tree : Snapshot} {reach : Nat} (hreach : tree.height ≤ reach) :
    tree.world.Ranked (fun spot => tree.rank spot.1) reach :=
  World.ranked_of_answers tree.world_answers fun _ => hreach

end Locator
