import Locator.Proofs.Identifying

/-!
# Counting by lineages

A visit counts its element under each name of its lineage, once for each time that the name stands
there (`KinCounted`). In a chain without repetitions that is once for every name, but a chain may
repeat a name, and only a first entry that repeats the class name is set aside. So a single pass for
`Subclass=k;AbsSubclassIndex=n` comes to the first element that brings the count of `k` to `n`
(`Engine.last_level_kin`). That is the `n`th element with `k` in its lineage just when the first `n`
have it once each (`firstBringing_eq_getElem?_iff`), and otherwise it is an earlier one or none
(`counted_by_entry`).
-/

namespace Locator

open Text

/-! ## The text of the level -/

namespace Level

/-- A level that asks for an ancestor and for its count in the whole search. -/
def nthKin (ancestor : String) (n : Nat) : Level :=
  ofText ("Subclass=" ++ ancestor ++ ";AbsSubclassIndex=" ++ n.repr)

theorem ofText_nthKin {ancestor : String} (h : separator ∉ ancestor.toList) (n : Nat) :
    (nthKin ancestor n).fpsm = false
      ∧ (nthKin ancestor n).qualifiers = [{ kind := .subclass, value := ancestor },
        { kind := .absSubclassIndex, value := n.repr }] := by
  let level : Level :=
    { raw := "", fpsm := false, dropped := []
      qualifiers := [{ kind := .subclass, value := ancestor },
        { kind := .absSubclassIndex, value := n.repr }] }
  have hwritten : level.Written := List.forall_mem_cons.2
    ⟨.of_assignment h, List.forall_mem_singleton.2 (.of_assignment (notMem_repr n))⟩
  refine ofText_of_render hwritten ?_
  simp [level, render, Qualifier.render, Qualifier.Kind.keyword, Qualifier.assignment, separator,
    List.intercalate_cons_cons]

end Level

/-! ## What a visit counts -/

namespace Facts

/-- How often a name stands in the lineage of an element: in its class name and in its superclasses,
without a first that repeats the class name. -/
def kinCount (className : String) (superclasses : List String) (name : String) : Nat :=
  (if className = name then 1 else 0)
    + (if superclasses.head? = some className then superclasses.tail else superclasses).count name

variable {className name : String} {superclasses : List String}

theorem count_lineageOf :
    (lineageOf className superclasses).count name = kinCount className superclasses name := by
  rcases superclasses with _ | ⟨first, rest⟩
  · simp [lineageOf, kinCount, List.count_singleton]
  · by_cases hfirst : first = className <;>
      simp [lineageOf, kinCount, hfirst, List.count_cons, Nat.add_comm]

theorem mem_lineageOf :
    name ∈ lineageOf className superclasses ↔ name = className ∨ name ∈ superclasses := by
  rcases superclasses with _ | ⟨first, rest⟩
  · simp [lineageOf]
  · by_cases hfirst : first = className <;> simp [lineageOf, hfirst]

theorem kinCount_eq_zero_iff :
    kinCount className superclasses name = 0 ↔ name ≠ className ∧ name ∉ superclasses := by
  rw [← count_lineageOf, List.count_eq_zero, mem_lineageOf, not_or]

theorem nodup_lineageOf (hnodup : superclasses.Nodup) (hown : className ∉ superclasses.tail) :
    (lineageOf className superclasses).Nodup := by
  rcases superclasses with _ | ⟨first, rest⟩
  · exact List.nodup_singleton className
  rw [List.tail_cons] at hown
  by_cases hfirst : first = className
  · simpa [lineageOf, hfirst, hown] using hnodup.of_cons
  · simpa [lineageOf, hfirst, hown, Ne.symm hfirst] using hnodup

/-- A lineage without repetitions has each of its names once. -/
theorem kinCount_of_nodup (hnodup : superclasses.Nodup) (hown : className ∉ superclasses.tail) :
    kinCount className superclasses name
      = if name = className ∨ name ∈ superclasses then 1 else 0 := by
  rw [← count_lineageOf, (nodup_lineageOf hnodup hown).count, if_congr mem_lineageOf rfl rfl]

end Facts

theorem Search.exists_reply {E α σ : Type} {world : World σ E} {query : Query E}
    {next : query.Answer → Search E α} {memory : Memory E} {state : σ} {answer : α}
    (h : ((question query >>= next).run world memory state).result = .ok answer) :
    ∃ reply, (world.answer query state).1 = .ok reply
      ∧ ((next reply).run world memory (world.answer query state).2).result = .ok answer := by
  rw [run_bind, run_question] at h
  rcases hreply : (world.answer query state).1 with error | reply <;> rw [hreply] at h
  · cases h
  · exact ⟨reply, rfl, h⟩

/-- The lineage that is collected of an element is made of what the world answers. -/
theorem Search.lineage_of_facts {E σ : Type} {world : World σ E} {e : E} {memory : Memory E}
    {state : σ} {collected : Facts}
    (h : ((facts e).run world memory state).result = .ok collected) :
    ∃ superclasses : List String,
      (world.answer (.className e) state).1 = .ok collected.className
      ∧ (world.answer (.superclasses e) (world.answer (.className e) state).2).1 = .ok superclasses
      ∧ collected.lineage = Facts.lineageOf collected.className superclasses := by
  unfold facts at h
  obtain ⟨className, hclassName, h⟩ := exists_reply h
  obtain ⟨superclasses, hsuperclasses, h⟩ := exists_reply h
  obtain ⟨resolvedType, -, h⟩ := exists_reply h
  obtain ⟨ident, -, h⟩ := exists_reply h
  obtain ⟨name, -, h⟩ := exists_reply h
  cases h
  exact ⟨superclasses, hclassName, hsuperclasses, rfl⟩

/-- What a visit adds to the counts of a name: how often the name stands in the lineage, which is
not at all for a name that is neither the class name nor a superclass, and once for every other if
no name is repeated. -/
structure KinCounted (facts : Facts) (superclasses : List String) (name : String) : Prop where
  relative : ∀ counters : Counters, (counters.visit facts).count .subclass name
    = counters.count .subclass name + Facts.kinCount facts.className superclasses name
  absolute : ∀ counters : Counters, (counters.visit facts).absoluteCount .subclass name
    = counters.absoluteCount .subclass name + Facts.kinCount facts.className superclasses name
  zero : Facts.kinCount facts.className superclasses name = 0
    ↔ name ≠ facts.className ∧ name ∉ superclasses
  once : superclasses.Nodup → facts.className ∉ superclasses.tail →
    Facts.kinCount facts.className superclasses name
      = if name = facts.className ∨ name ∈ superclasses then 1 else 0

theorem KinCounted.of_lineage {facts : Facts} {superclasses : List String}
    (h : facts.lineage = Facts.lineageOf facts.className superclasses) (name : String) :
    KinCounted facts superclasses name where
  relative counters := by rw [Counters.count_visit, Facts.share, h, Facts.count_lineageOf]
  absolute counters := by rw [Counters.absoluteCount_visit, Facts.share, h, Facts.count_lineageOf]
  zero := Facts.kinCount_eq_zero_iff
  once := Facts.kinCount_of_nodup

/-! ## A total that grows -/

section Total

variable {α : Type} {f : α → Nat} {n total : Nat} {xs before after : List α} {x : α}

/-- The first of some elements that adds to a total and brings it to `n`. -/
def firstBringing (f : α → Nat) (n : Nat) : Nat → List α → Option α
  | _, [] => none
  | total, x :: xs =>
    if 0 < f x ∧ total + f x = n then some x else firstBringing f n (total + f x) xs

theorem firstBringing_eq_some_iff : firstBringing f n total xs = some x
    ↔ ∃ before after, xs = before ++ x :: after ∧ 0 < f x
      ∧ total + (before.map f).sum + f x = n := by
  induction xs generalizing total with
  | nil => simp [firstBringing]
  | cons y xs ih =>
    rw [firstBringing]
    by_cases hy : 0 < f y ∧ total + f y = n
    · rw [if_pos hy, Option.some.injEq]
      constructor
      · rintro rfl
        exact ⟨[], xs, rfl, hy⟩
      · rintro ⟨_ | ⟨z, before⟩, after, hsplit, hx, hsum⟩
        · exact (List.cons.inj hsplit).1
        · obtain rfl := (List.cons.inj hsplit).1
          rw [List.map_cons, List.sum_cons] at hsum
          omega
    · rw [if_neg hy, ih]
      constructor
      · rintro ⟨before, after, rfl, hx, hsum⟩
        refine ⟨y :: before, after, rfl, hx, ?_⟩
        rw [List.map_cons, List.sum_cons]
        omega
      · rintro ⟨_ | ⟨z, before⟩, after, hsplit, hx, hsum⟩
        · obtain ⟨rfl, -⟩ := List.cons.inj hsplit
          exact absurd ⟨hx, hsum⟩ hy
        · obtain ⟨rfl, rfl⟩ := List.cons.inj hsplit
          rw [List.map_cons, List.sum_cons] at hsum
          exact ⟨before, after, rfl, hx, by omega⟩

theorem firstBringing_of_initial (h : before <+: xs)
    (hsome : firstBringing f n total before = some x) : firstBringing f n total xs = some x := by
  obtain ⟨rest, rfl⟩ := h
  obtain ⟨pre, post, rfl, hx, hsum⟩ := firstBringing_eq_some_iff.1 hsome
  exact firstBringing_eq_some_iff.2 ⟨pre, post ++ rest, by simp, hx, hsum⟩

variable {p : α → Bool} (hp : ∀ x, p x ↔ 0 < f x)
include hp

theorem countP_le_sum : xs.countP p ≤ (xs.map f).sum := by
  induction xs with
  | nil => exact Nat.le_refl 0
  | cons x xs ih =>
    rw [List.map_cons, List.sum_cons]
    by_cases hx : p x
    · have := (hp x).1 hx
      rw [List.countP_cons_of_pos hx]
      omega
    · rw [List.countP_cons_of_neg hx]
      omega

/-- A total is the number of those that add to it just when each of them adds one. -/
theorem sum_eq_countP_iff :
    (xs.map f).sum = xs.countP p ↔ ∀ x ∈ xs.filter p, f x = 1 := by
  induction xs with
  | nil => simp
  | cons x xs ih =>
    have hle : xs.countP p ≤ (xs.map f).sum := countP_le_sum hp
    rw [List.map_cons, List.sum_cons]
    by_cases hx : p x
    · have hpos := (hp x).1 hx
      rw [List.countP_cons_of_pos hx, List.filter_cons_of_pos hx, List.forall_mem_cons, ← ih]
      omega
    · have hzero := (hp x).not.1 hx
      rw [List.countP_cons_of_neg hx, List.filter_cons_of_neg hx, ← ih]
      omega

/-- The first that brings a total to `n` is the `n`th of those that add to it just when the first
`n` of these add one each, or when there are fewer and none brings it there. -/
theorem firstBringing_eq_getElem?_iff (hnodup : xs.Nodup) (hn : 1 ≤ n) :
    firstBringing f n 0 xs = (xs.filter p)[n - 1]?
      ↔ (∀ x ∈ (xs.filter p).take n, f x = 1)
        ∨ (xs.filter p).length < n ∧ firstBringing f n 0 xs = none := by
  rcases hnth : (xs.filter p)[n - 1]? with _ | x
  · have hfew : (xs.filter p).length < n := by
      have := List.getElem?_eq_none_iff.1 hnth
      omega
    refine ⟨fun h => .inr ⟨hfew, h⟩, ?_⟩
    rintro (hones | ⟨-, h⟩)
    · -- elements that add one each do not bring the total beyond their number
      rw [List.take_of_length_le hfew.le, ← sum_eq_countP_iff hp,
        List.countP_eq_length_filter] at hones
      rcases hfirst : firstBringing f n 0 xs with _ | x
      · rfl
      · obtain ⟨before, after, rfl, -, hsum⟩ := firstBringing_eq_some_iff.1 hfirst
        rw [List.map_append, List.sum_append, List.map_cons, List.sum_cons] at hones
        omega
    · exact h
  · have hlength : ¬ (xs.filter p).length < n := by
      have := (List.getElem?_eq_some_iff.1 hnth).1
      omega
    obtain ⟨before, after, rfl, hx, hcount⟩ := getElem?_filter_eq_some.1 hnth
    have hcount : before.countP p + 1 = n := by omega
    have htotal : firstBringing f n 0 (before ++ x :: after) = some x
        ↔ ((before ++ [x]).map f).sum = (before ++ [x]).countP p := by
      rw [firstBringing_eq_some_iff, List.map_append, List.sum_append, List.countP_append,
        List.map_singleton, List.sum_singleton, List.countP_singleton, if_pos hx, hcount]
      constructor
      · rintro ⟨before', after', hsplit, -, hsum⟩
        rw [before_eq_of_nodup hnodup hsplit] at hsum
        omega
      · exact fun h => ⟨before, after, rfl, (hp x).1 hx, by omega⟩
    rw [or_iff_left (fun h => hlength h.1), take_filter_of_split hx hcount, htotal,
      sum_eq_countP_iff hp, List.filter_append, List.filter_cons_of_pos hx, List.filter_nil]

end Total

/-! ## A scan for the level -/

namespace Snapshot

/-- How often a name stands in the lineage of an element. -/
def kinCount (tree : Snapshot) (name : String) (e : Place) : Nat :=
  (tree.node? e).elim 0 fun node => Facts.kinCount node.className node.superclasses name

/-- The class name of an element or one of its superclasses is the name. -/
def isKin (tree : Snapshot) (name : String) (e : Place) : Bool :=
  (tree.node? e).any fun node => node.className == name || node.superclasses.contains name

/-- The elements below an element that have a name in their lineage, in document order. -/
def withKin (tree : Snapshot) (name : String) (s : Place) : List Place :=
  (tree.below s).filter (tree.isKin name)

/-- What a level with an ancestor and a count selects below an element: the first element of the
lineage up to which the name stands `n` times in the lineages of all. -/
def nthKin (tree : Snapshot) (name : String) (n : Nat) (s : Place) : Option Place :=
  firstBringing (tree.kinCount name) n 0 (tree.below s)

theorem isKin_iff {tree : Snapshot} {name : String} {e : Place} :
    tree.isKin name e ↔ 0 < tree.kinCount name e := by
  rcases he : tree.node? e with _ | node
  · simp [isKin, kinCount, he]
  · rw [isKin, kinCount, he, Option.any_some, Option.elim_some, Nat.pos_iff_ne_zero, ne_eq,
      Facts.kinCount_eq_zero_iff, Bool.or_eq_true, beq_iff_eq, List.contains_iff_mem, not_and_or,
      not_ne_iff, not_not, eq_comm]

end Snapshot

/-- An element satisfies the level just when it has the name in its lineage and the name has been
counted so often. -/
theorem Node.meets_nthKin {goal : Goal Place} {name : String} {n : Nat}
    (hname : Level.separator ∉ name.toList) (hlevel : goal.level = Level.nthKin name n)
    (node : Node) (counters : Counters) :
    node.meets goal counters ↔ 0 < Facts.kinCount node.className node.superclasses name
      ∧ counters.absoluteCount .subclass name = n := by
  obtain ⟨-, hqualifiers⟩ := Level.ofText_nthKin hname n
  rw [← hlevel] at hqualifiers
  rw [Node.meets, hqualifiers, ← Facts.count_lineageOf, List.count_pos_iff]
  simp only [Node.satisfies, Qualifier.holds, Qualifier.ancestorAfter, Option.any_some,
    Bool.and_true, Bool.and_eq_true, isCount_repr, List.contains_iff_mem]
  rfl

/-- Among visits at which a count grows, the first that adds to it and brings it to `n`. -/
theorem Grows.find?_eq {r : Counters → Nat} {adds : Facts → Nat} {f : Place → Nat} {n : Nat}
    {good : Visit Place → Bool} : ∀ {total : Nat} {vs : List (Visit Place)},
      Grows r adds total vs → (∀ v ∈ vs, adds v.facts = f v.element
        ∧ (good v ↔ 0 < f v.element ∧ r v.counters = n)) →
      (vs.find? good).map (·.element) = firstBringing f n total (vs.map (·.element))
  | _, [], _, _ => rfl
  | total, v :: vs, ⟨hv, hgrows⟩, hgood => by
    obtain ⟨⟨hadds, hiff⟩, hrest⟩ := List.forall_mem_cons.1 hgood
    rw [hadds] at hv hgrows
    rw [hv] at hiff
    rw [List.map_cons, firstBringing]
    by_cases h : 0 < f v.element ∧ total + f v.element = n
    · rw [List.find?_cons_of_pos (hiff.2 h), if_pos h]
      rfl
    · rw [List.find?_cons_of_neg (hiff.not.2 h), if_neg h]
      exact hgrows.find?_eq hrest

section Scan

variable {tree : Snapshot} {goal : Goal Place} {siblings : List Place} {before after : Progress}
  {result : Option Place} {vs : List (Visit Place)} {name : String} {n : Nat}

/-- The absolute counts are not taken back after an excursion, so a scan for the level comes to the
first element that brings the count of the name there. -/
theorem Scan.firstBringing (h : Scan tree goal siblings before result after vs)
    (hrest : goal.rest = []) (hname : Level.separator ∉ name.toList)
    (hlevel : goal.level = Level.nthKin name n) :
    result = firstBringing (tree.kinCount name) n (before.counters.absoluteCount .subclass name)
      (tree.lookedAt goal siblings) := by
  obtain ⟨hgrows, -⟩ := h.running (r := (Counters.absoluteCount · .subclass name))
    (fun c facts => c.absoluteCount_visit facts .subclass name) (fun _ _ => rfl) hrest
  have hvisits : ∀ v ∈ vs, v.facts.share .subclass name = tree.kinCount name v.element
      ∧ (tree.met v ↔ 0 < tree.kinCount name v.element
        ∧ v.counters.absoluteCount .subclass name = n) := by
    intro v hv
    obtain ⟨node, hnode, hfacts⟩ := h.facts_of_mem v hv
    have hlevel : v.goal.level = Level.nthKin name n := by rw [h.goal_eq hrest v hv, hlevel]
    rw [Snapshot.kinCount, Snapshot.met, hnode, hfacts]
    exact ⟨Facts.count_lineageOf, Node.meets_nthKin hname hlevel node v.counters⟩
  have hfirst := (h.find?_met hrest).trans (hgrows.find?_eq hvisits)
  obtain ⟨hfront, hall⟩ := h.prefix_lookedAt hrest
  cases result with
  | some x => exact (firstBringing_of_initial hfront hfirst.symm).symm
  | none => rwa [hall rfl] at hfirst

end Scan

/-! ## A request -/

theorem Snapshot.nthKin_eq_iff {tree : Snapshot} {name : String} {n : Nat} (hn : 1 ≤ n)
    (s : Place) :
    tree.nthKin name n s = (tree.withKin name s)[n - 1]?
      ↔ (∀ e ∈ (tree.withKin name s).take n, tree.kinCount name e = 1)
        ∨ (tree.withKin name s).length < n ∧ tree.nthKin name n s = none :=
  firstBringing_eq_getElem?_iff (fun _ => Snapshot.isKin_iff) (tree.nodup_below s) hn

theorem Snapshot.nthKin_of_once {tree : Snapshot} {name : String} {n : Nat} (hn : 1 ≤ n)
    {s : Place} (honce : ∀ e ∈ tree.below s, tree.kinCount name e ≤ 1) :
    tree.nthKin name n s = (tree.withKin name s)[n - 1]? := by
  refine (nthKin_eq_iff hn s).2 (.inl fun e he => ?_)
  obtain ⟨hbelow, hkin⟩ := List.mem_filter.1 (List.mem_of_mem_take he)
  exact Nat.le_antisymm (honce e hbelow) (isKin_iff.1 hkin)

namespace Engine

/-- A single pass for the level alone comes to what the level selects below the root in use, since
it begins with nothing counted. -/
theorem handle_nthKin {tree : Snapshot} {engine : Engine Place} (hlisted : tree.unlisted = false)
    (hreach : tree.height ≤ engine.reach) {name : String} {n : Nat}
    (hname : Level.separator ∉ name.toList) {rootPath path : String} {time : Clock} {root : Place}
    (hroot : engine.rootInUse tree.world rootPath true time = some root)
    (hthere : (tree.node? root).isSome) {chain : Chain} (hchain : readPath path = .ok chain)
    (hone : chain.levels.drop (firstSearched engine.settings chain) = [Level.nthKin name n])
    (timeoutSecs : Nat) :
    ∃ outcome,
      (engine.handle tree.world (.descendant rootPath path timeoutSecs true) time).1 = .ok outcome
      ∧ outcome.located?.map (·.element) = tree.nthKin name n root := by
  obtain ⟨node, hnode⟩ := Option.isSome_iff_exists.1 hthere
  obtain ⟨cachedRoot, memory, later, hhandle, -⟩ := handle_descendant timeoutSecs hchain hroot
  have hgoal : goalBelow? engine.settings chain root
      = some ⟨some root, firstSearched engine.settings chain, Level.nthKin name n, []⟩ :=
    Goal.ofLevels?_eq_some.2 ⟨rfl, rfl, hone⟩
  obtain ⟨result, after, vs, hscan, outcome, hend, houtcome⟩ :=
    locateBelow_scan hlisted hreach hnode hgoal cachedRoot timeoutSecs memory later
  refine ⟨outcome, hhandle.trans hend, ?_⟩
  have hselected := hscan.firstBringing rfl hname rfl
  rw [Snapshot.lookedAt_children rfl, (Level.ofText_nthKin hname n).1,
    if_neg Bool.false_ne_true] at hselected
  exact houtcome.trans hselected

/-- A visit counts an element under a name as often as the name stands in its class name and its
superclasses, a first superclass that repeats the class name set aside. So a single pass for a level
that asks for an ancestor and its count in the search comes to the first element below its root that
brings the count there. This is the element of that number with the name in its lineage just when
the first so many have the name once each, or when there are fewer and none is found. -/
theorem last_level_kin :
    (∀ (E σ : Type) (world : World σ E) (e : E) (memory : Memory E) (state : σ)
        (collected : Facts),
      ((Search.facts e).run world memory state).result = .ok collected →
      ∃ superclasses : List String,
        (world.answer (.className e) state).1 = .ok collected.className
        ∧ (world.answer (.superclasses e) (world.answer (.className e) state).2).1
          = .ok superclasses
        ∧ ∀ name, KinCounted collected superclasses name)
    ∧ ∀ (tree : Snapshot) (engine : Engine Place) (name : String) (n : Nat),
      tree.unlisted = false → tree.height ≤ engine.reach → ';' ∉ name.toList → 1 ≤ n →
      (∀ rootPath path timeoutSecs time root chain,
        engine.rootInUse tree.world rootPath true time = some root →
        (tree.node? root).isSome → readPath path = .ok chain →
        chain.levels.drop (firstSearched engine.settings chain) = [Level.nthKin name n] →
        ∃ outcome,
          (engine.handle tree.world (.descendant rootPath path timeoutSecs true) time).1
            = .ok outcome
          ∧ outcome.located?.map (·.element) = tree.nthKin name n root)
      ∧ ∀ s, (tree.nthKin name n s = (tree.withKin name s)[n - 1]?
          ↔ (∀ e ∈ (tree.withKin name s).take n, tree.kinCount name e = 1)
            ∨ (tree.withKin name s).length < n ∧ tree.nthKin name n s = none)
        ∧ ((∀ e ∈ tree.below s, tree.kinCount name e ≤ 1) →
          tree.nthKin name n s = (tree.withKin name s)[n - 1]?) := by
  refine ⟨fun E σ world e memory state collected h => ?_,
    fun tree engine name n hlisted hreach hname hn => ⟨?_, fun s =>
      ⟨Snapshot.nthKin_eq_iff hn s, Snapshot.nthKin_of_once hn⟩⟩⟩
  · obtain ⟨superclasses, hclassName, hsuperclasses, hlineage⟩ := Search.lineage_of_facts h
    exact ⟨superclasses, hclassName, hsuperclasses, .of_lineage hlineage⟩
  · intro rootPath path timeoutSecs time root chain hroot hthere hchain hone
    exact handle_nthKin hlisted hreach hname hroot hthere hchain hone timeoutSecs

end Engine

/-- A window with a panel, whose only superclass is reported twice, a button in the panel, and a
label whose superclasses begin with its class. -/
def kinTree : Snapshot where
  roots :=
    [{ className := "Window"
       children :=
        [{ className := "Panel", superclasses := ["Base", "Base"]
           children := [{ className := "Button", superclasses := ["Control", "Base"] }] },
          { className := "Label", superclasses := ["Label", "Control"] }] }]

namespace Engine

/-- The label is counted once under its class, and is the second control. The button brings the
count of the base to three. -/
theorem last_level_kin_control :
    let engine := kinTree.engine {}
    (∃ superclasses : List String,
      kinTree.answer (.superclasses ⟨[0, 1]⟩) = .ok superclasses
      ∧ KinCounted ⟨"Label", ["Label", "Control"], "Label", none, none⟩ superclasses "Label")
    ∧ (∃ outcome, (engine.handle kinTree.world
          (.descendant "Class=Window" "Subclass=Control;AbsSubclassIndex=2" 0 true) {}).1
            = .ok outcome
        ∧ outcome.located?.map (·.element) = (kinTree.withKin "Control" ⟨[0]⟩)[1]?)
    ∧ ∃ outcome, (engine.handle kinTree.world
          (.descendant "Class=Window" "Subclass=Base;AbsSubclassIndex=3" 0 true) {}).1
            = .ok outcome
        ∧ outcome.located?.map (·.element) = some ⟨[0, 0, 0]⟩ := by
  intro engine
  obtain ⟨hcounted, hselects⟩ := last_level_kin
  obtain ⟨hcontrol, hnth⟩ := hselects kinTree engine "Control" 2 rfl (Nat.le_refl _) (by decide)
    (by decide)
  obtain ⟨hbase, -⟩ := hselects kinTree engine "Base" 3 rfl (Nat.le_refl _) (by decide) (by decide)
  have hroot : engine.rootInUse kinTree.world "Class=Window" true {} = some ⟨[0]⟩ := by
    decide +kernel
  have hthird : kinTree.nthKin "Base" 3 ⟨[0]⟩ = some ⟨[0, 0, 0]⟩ := by decide +kernel
  refine ⟨?_, ?_, ?_⟩
  · obtain ⟨superclasses, -, hsuperclasses, hkin⟩ := hcounted _ _ kinTree.world ⟨[0, 1]⟩ {} {}
      ⟨"Label", ["Label", "Control"], "Label", none, none⟩ rfl
    exact ⟨superclasses, hsuperclasses, hkin "Label"⟩
  · rw [← (hnth ⟨[0]⟩).1.2 (.inl (by decide +kernel))]
    exact hcontrol _ "Subclass=Control;AbsSubclassIndex=2" 0 {} ⟨[0]⟩
      ⟨"Subclass=Control;AbsSubclassIndex=2", Level.nthKin "Control" 2, []⟩ hroot
      (by decide +kernel) (by decide +kernel) (by decide +kernel)
  · rw [← hthird]
    exact hbase _ "Subclass=Base;AbsSubclassIndex=3" 0 {} ⟨[0]⟩
      ⟨"Subclass=Base;AbsSubclassIndex=3", Level.nthKin "Base" 3, []⟩ hroot
      (by decide +kernel) (by decide +kernel) (by decide +kernel)

end Engine

/-- The panel is the first element with the base in its lineage, but it is counted twice. So nothing
is found for the first, and the panel for the second in place of the button. -/
theorem counted_by_entry :
    kinTree.withKin "Base" ⟨[0]⟩ = [⟨[0, 0]⟩, ⟨[0, 0, 0]⟩]
      ∧ (kinTree.node? ⟨[0, 0]⟩).map (fun node =>
          (Counters.visit {} node.facts).absoluteCount .subclass "Base") = some 2
      ∧ Engine.elementOf ((kinTree.engine {}).handle kinTree.world
          (.descendant "Class=Window" "Subclass=Base;AbsSubclassIndex=1" 0 true) {}).1 = none
      ∧ Engine.elementOf ((kinTree.engine {}).handle kinTree.world
          (.descendant "Class=Window" "Subclass=Base;AbsSubclassIndex=2" 0 true) {}).1
            = some ⟨[0, 0]⟩ := by
  decide +kernel

end Locator
