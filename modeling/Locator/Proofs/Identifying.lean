import Locator.Proofs.FirstMatch
import Locator.Proofs.Selecting
import Mathlib.Data.List.Find

/-!
# Selecting by an id and an index

A level `Id=v;Index=n` compares ids as numbers, but its index is the count of the id as it is
spelled. So a scan for it comes to the first element with the id that is the `n`th of those that
spell it the same way (`Scan.nthOfKey`). That is the `n`th element with the id just when the first
`n` of these spell it alike (`nthOfKey_eq_iff`), and otherwise it is a later one or none
(`spelled_otherwise`).
-/

namespace Locator

open Text

/-! ## The text of the level -/

namespace Level

/-- A level that asks for a value and an index. -/
def nthOf (kind : Qualifier.Kind) (value : String) (n : Nat) : Level :=
  ofText (kind.keyword ++ "=" ++ value ++ ";Index=" ++ n.repr)

variable {kind : Qualifier.Kind} {value : String}

theorem ofText_nthOf (hvalue : separator ∉ value.toList) (n : Nat) :
    (nthOf kind value n).fpsm = false
      ∧ (nthOf kind value n).qualifiers
        = [{ kind, value }, { kind := .index, value := n.repr }] := by
  refine ofText_indexed hvalue ?_
  simp [indexed, render, Qualifier.render, Qualifier.Kind.keyword, Qualifier.assignment, separator,
    List.intercalate_cons_cons]

end Level

/-! ## What an index counts after another qualifier -/

/-- The kinds of qualifiers after which an index counts in a family of their own. -/
inductive Keyed : Qualifier.Kind → Family → Prop
  | ident : Keyed .ident .ident
  | name : Keyed .name .name
  | type : Keyed .type .type

theorem Keyed.rolledBack {kind : Qualifier.Kind} {family : Family} (h : Keyed kind family) :
    family.rolledBack = false := by
  cases h <;> rfl

namespace Snapshot

/-- An element satisfies a qualifier by its attributes. -/
def bearsOne (tree : Snapshot) (q : Qualifier) (e : Place) : Bool :=
  (tree.node? e).any (·.bears q)

/-- Two elements are counted under the same key. -/
def sharesKey (tree : Snapshot) (family : Family) (e d : Place) : Bool :=
  decide (tree.key? family d = tree.key? family e)

/-- Where an element stands, in a list without repetitions, among those counted under its key. -/
def ordinal (tree : Snapshot) (family : Family) (order : List Place) (e : Place) : Nat :=
  (order.takeWhile (· ≠ e)).countP (tree.sharesKey family e) + 1

/-- The first of some elements that satisfies a qualifier and is the `n`th of those counted under
its key. -/
def nthOfKey (tree : Snapshot) (q : Qualifier) (family : Family) (n : Nat) (order : List Place) :
    Option Place :=
  order.find? fun e => tree.bearsOne q e && tree.ordinal family order e == n

end Snapshot

/-- An element that satisfies the qualifier has a key. -/
theorem Keyed.exists_key {kind : Qualifier.Kind} {family : Family} (h : Keyed kind family)
    {tree : Snapshot} {value : String} {e : Place} (hbears : tree.bearsOne { kind, value } e) :
    ∃ key, tree.key? family e = some key := by
  rcases he : tree.node? e with _ | node
  · simp [Snapshot.bearsOne, he] at hbears
  rw [Snapshot.bearsOne, he, Option.any_some] at hbears
  rw [Snapshot.key?, he]
  cases h with
  | ident => exact Option.isSome_iff_exists.1 (Option.isSome_of_any hbears)
  | name => exact ⟨value, beq_iff_eq.1 hbears⟩
  | type => exact ⟨node.facts.typeKey, rfl⟩

/-- After the qualifier an index counts under the key of the element. -/
theorem Keyed.indexCount {kind : Qualifier.Kind} {family : Family} (h : Keyed kind family)
    {s : Situation} {value index : String}
    (hqualifiers : s.level.qualifiers = [{ kind, value }, { kind := .index, value := index }])
    {tree : Snapshot} {e : Place} {node : Node} (he : tree.node? e = some node)
    (hfacts : s.facts = node.facts) {key : String} (hkey : tree.key? family e = some key) :
    s.indexCount = s.counters.count family key := by
  rw [Snapshot.key?, he, Option.bind_some] at hkey
  cases h with
  | ident =>
    have hkey : s.facts.ident = some key := hfacts ▸ hkey
    simp [Situation.indexCount, Level.has, hqualifiers, hkey, Situation.countAny]
  | name =>
    have hkey : s.facts.name = some key := hfacts ▸ hkey
    simp [Situation.indexCount, Level.has, hqualifiers, hkey, Situation.countAny]
  | type =>
    have hkey : s.facts.typeKey = key := hfacts ▸ Option.some.inj hkey
    simp [Situation.indexCount, Level.has, hqualifiers, hkey]

/-- An element satisfies the level just when it satisfies the qualifier and so many elements of its
key have been counted. -/
theorem Node.meets_nthOf {tree : Snapshot} {kind : Qualifier.Kind} {family : Family}
    (hkeyed : Keyed kind family) {goal : Goal Place} {value : String} {n : Nat}
    (hvalue : Level.separator ∉ value.toList) (hlevel : goal.level = Level.nthOf kind value n)
    {e : Place} {node : Node} (he : tree.node? e = some node) (counters : Counters) :
    node.meets goal counters ↔ tree.bearsOne { kind, value } e
      ∧ ∀ key, tree.key? family e = some key → counters.count family key = n := by
  obtain ⟨-, hqualifiers⟩ := @Level.ofText_nthOf kind value hvalue n
  rw [← hlevel] at hqualifiers
  have hfirst := holds_eq_bears node { kind, value } (by cases hkeyed <;> rfl)
    (by cases hkeyed <;> exact nofun) goal.level counters goal.scope none
  have hbearsOne : tree.bearsOne { kind, value } e = node.bears { kind, value } := by
    rw [Snapshot.bearsOne, he, Option.any_some]
  rw [Node.meets, hqualifiers, hbearsOne]
  simp only [Node.satisfies, Bool.and_true, Bool.and_eq_true, hfirst]
  refine and_congr_right fun hbears => ?_
  obtain ⟨key, hkey⟩ := hkeyed.exists_key (hbearsOne.trans hbears)
  have hcount := hkeyed.indexCount (s := ⟨node.facts, goal.level, counters, goal.scope⟩)
    hqualifiers he rfl hkey
  rw [Qualifier.holds, isCount_repr, hcount, hkey]
  simp

/-! ## A scan for the level -/

theorem takeWhile_ne_of_nodup {α : Type} [DecidableEq α] {before after : List α} {x : α}
    (h : (before ++ x :: after).Nodup) : (before ++ x :: after).takeWhile (· ≠ x) = before := by
  have hx : ∀ y ∈ before, decide (y ≠ x) = true := fun y hy =>
    decide_eq_true fun heq => List.disjoint_of_nodup_append h (heq ▸ hy) List.mem_cons_self
  rw [List.takeWhile_append_of_pos hx, List.takeWhile_cons_of_neg (by simp), List.append_nil]

/-- In a list without repetitions an element stands at one place. -/
theorem before_eq_of_nodup {α : Type} {before before' after after' : List α} {x : α}
    (h : (before ++ x :: after).Nodup) (hsplit : before ++ x :: after = before' ++ x :: after') :
    before' = before := by
  classical
  have hbefore := takeWhile_ne_of_nodup h
  rwa [hsplit, takeWhile_ne_of_nodup (hsplit ▸ h)] at hbefore

theorem Snapshot.nodup_below (tree : Snapshot) (s : Place) : (tree.below s).Nodup :=
  (tree.pairwise_below s).imp fun {d e} hlt (heq : d = e) => lt_irrefl _ (heq ▸ hlt)

section Scan

variable {tree : Snapshot} {goal : Goal Place} {siblings : List Place} {after : Progress}
  {result : Option Place} {vs : List (Visit Place)}

/-- A scan for the last level that judges each element as it is judged by itself comes to the first
of those that it looks at. -/
theorem Scan.find?_judged {p : Progress} (h : Scan tree goal siblings p result after vs)
    (hrest : goal.rest = []) (judge : Place → Bool)
    (hjudge : ∀ v ∈ vs, tree.met v = judge v.element) :
    result = (tree.lookedAt goal siblings).find? judge := by
  obtain ⟨⟨others, hothers⟩, hall⟩ := h.prefix_lookedAt hrest
  have hfind : result = (vs.map (·.element)).find? judge := by
    rw [h.find?_met hrest, List.find?_map]
    exact congrArg _ (List.find?_congr hjudge)
  cases result with
  | some x => rw [← hothers, List.find?_append, ← hfind, Option.some_or]
  | none => rw [← hall rfl, hfind]

/-- In a scan begun in a new scope an element satisfies the level just when it satisfies the
qualifier and is the `n`th of those counted under its key. -/
theorem Scan.met_nthOf {kind : Qualifier.Kind} {family : Family} (hkeyed : Keyed kind family)
    {value : String} {n : Nat} (hvalue : Level.separator ∉ value.toList) {p : Progress}
    (h : Scan tree goal siblings p.newScope result after vs) (hrest : goal.rest = [])
    (hlevel : goal.level = Level.nthOf kind value n)
    (hnodup : (tree.lookedAt goal siblings).Nodup) :
    ∀ v ∈ vs, tree.met v = (tree.bearsOne { kind, value } v.element
      && tree.ordinal family (tree.lookedAt goal siblings) v.element == n) := by
  intro v hv
  obtain ⟨node, hnode, -⟩ := h.facts_of_mem v hv
  obtain ⟨⟨others, hothers⟩, -⟩ := h.prefix_lookedAt hrest
  have hgoal := h.goal_eq hrest v hv
  obtain ⟨pre, post, rfl⟩ := List.mem_iff_append.1 hv
  have horder : tree.lookedAt goal siblings
      = pre.map (·.element) ++ v.element :: (post.map (·.element) ++ others) := by
    rw [← hothers, List.map_append, List.map_cons, List.append_assoc, List.cons_append]
  rw [horder] at hnodup
  have hordinal : tree.ordinal family (tree.lookedAt goal siblings) v.element
      = (pre.map (·.element)).countP (tree.sharesKey family v.element) + 1 := by
    rw [horder, Snapshot.ordinal, takeWhile_ne_of_nodup hnodup]
  rw [Bool.eq_iff_iff, Snapshot.met, hnode, Option.any_some, hgoal,
    Node.meets_nthOf hkeyed hvalue hlevel hnode, Bool.and_eq_true, beq_iff_eq, hordinal]
  refine and_congr_right fun hbears => ?_
  obtain ⟨key, hkey⟩ := hkeyed.exists_key hbears
  have hcount : v.counters.count family key
      = (pre.map (·.element)).countP (tree.sharesKey family v.element) + 1 := by
    have hshares : tree.sharesKey family v.element
        = fun d => decide (tree.key? family d = some key) :=
      funext fun d => by rw [Snapshot.sharesKey, hkey]
    have hown : decide (tree.key? family v.element = some key) = true := decide_eq_true hkey
    rw [(h.counted hrest).2 family hkeyed.rolledBack key, List.map_append, List.countP_append,
      List.map_singleton, List.countP_singleton, if_pos hown, hshares]
  rw [← hcount, hkey]
  simp

/-- A scan for the level below an element comes to what the level is to select there. -/
theorem Scan.nthOfKey {kind : Qualifier.Kind} {family : Family} (hkeyed : Keyed kind family)
    {value : String} (hvalue : Level.separator ∉ value.toList) (n : Nat) :
    SelectedBy tree (Level.nthOf kind value n)
      fun s => tree.nthOfKey { kind, value } family n (tree.below s) := by
  intro goal s p result after vs h hanchor hrest hlevel
  have horder : tree.lookedAt goal (tree.children s) = tree.below s := by
    rw [Snapshot.lookedAt_children hanchor, hlevel, (Level.ofText_nthOf hvalue n).1,
      if_neg Bool.false_ne_true]
  have hjudge := h.met_nthOf hkeyed hvalue hrest hlevel (horder ▸ tree.nodup_below s)
  rw [h.find?_judged hrest (fun e => tree.bearsOne { kind, value } e
    && tree.ordinal family (tree.lookedAt goal (tree.children s)) e == n) hjudge, horder]
  rfl

end Scan

/-! ## The `n`th of its key and the `n`th of all -/

theorem take_filter_of_split {α : Type} {p : α → Bool} {before after : List α} {x : α} {n : Nat}
    (hx : p x) (hcount : before.countP p + 1 = n) :
    ((before ++ x :: after).filter p).take n = before.filter p ++ [x] := by
  rw [List.countP_eq_length_filter] at hcount
  rw [List.filter_append, List.filter_cons_of_pos hx, List.take_append, ← hcount,
    List.take_of_length_le (Nat.le_succ _), Nat.add_sub_cancel_left, List.take_succ_cons,
    List.take_zero]

section Nth

variable {tree : Snapshot} {order before after : List Place} {e : Place} {q : Qualifier}
  {family : Family} {n : Nat}

theorem ordinal_of_split (hnodup : (before ++ e :: after).Nodup) :
    tree.ordinal family (before ++ e :: after) e = before.countP (tree.sharesKey family e) + 1 := by
  rw [Snapshot.ordinal, takeWhile_ne_of_nodup hnodup]

variable (hkey : ∀ d e, tree.bearsOne q e → tree.key? family d = tree.key? family e →
  tree.bearsOne q d)
include hkey

theorem countP_sharesKey_le (he : tree.bearsOne q e) :
    before.countP (tree.sharesKey family e) ≤ before.countP (tree.bearsOne q) :=
  List.countP_mono_left fun d _ hd => hkey d e he (of_decide_eq_true hd)

/-- All that satisfy the qualifier are counted just when they share the key. -/
theorem countP_sharesKey_eq_iff (he : tree.bearsOne q e) :
    before.countP (tree.sharesKey family e) = before.countP (tree.bearsOne q)
      ↔ ∀ d ∈ before.filter (tree.bearsOne q), tree.key? family d = tree.key? family e := by
  have hboth : before.countP (tree.sharesKey family e)
      = (before.filter (tree.bearsOne q)).countP (tree.sharesKey family e) := by
    rw [List.countP_filter]
    refine List.countP_congr fun d _ => ?_
    rw [Bool.and_eq_true, iff_self_and]
    exact fun hd => hkey d e he (of_decide_eq_true hd)
  rw [hboth, List.countP_eq_length_filter (p := tree.bearsOne q), List.countP_eq_length]
  simp only [Snapshot.sharesKey, decide_eq_true_eq]

/-- An element that satisfies the qualifier is not the `n`th of its key as long as fewer than `n`
elements satisfy the qualifier. -/
theorem not_nthOfKey_of_few (hnodup : (before ++ after).Nodup)
    (hfew : before.countP (tree.bearsOne q) < n) :
    ∀ e ∈ before, (tree.bearsOne q e && tree.ordinal family (before ++ after) e == n) = false := by
  intro e he
  rw [Bool.and_eq_false_imp]
  intro hbears
  obtain ⟨pre, post, rfl⟩ := List.mem_iff_append.1 he
  have hle : pre.countP (tree.sharesKey family e) ≤ pre.countP (tree.bearsOne q) :=
    countP_sharesKey_le hkey hbears
  rw [List.countP_append, List.countP_cons_of_pos hbears] at hfew
  rw [List.append_assoc, List.cons_append] at hnodup ⊢
  rw [ordinal_of_split hnodup]
  exact beq_false_of_ne (by omega)

/-- The `n`th of all that satisfy the qualifier is the first that is the `n`th of its key just when
it shares its key with those before it. -/
theorem nthOfKey_eq_some_iff (hnodup : (before ++ e :: after).Nodup) (he : tree.bearsOne q e)
    (hcount : before.countP (tree.bearsOne q) + 1 = n) :
    tree.nthOfKey q family n (before ++ e :: after) = some e
      ↔ ∀ d ∈ before.filter (tree.bearsOne q), tree.key? family d = tree.key? family e := by
  have hordinal : tree.ordinal family (before ++ e :: after) e = n
      ↔ before.countP (tree.sharesKey family e) = before.countP (tree.bearsOne q) := by
    rw [ordinal_of_split hnodup]
    omega
  rw [← countP_sharesKey_eq_iff hkey he, ← hordinal]
  constructor
  · intro h
    have := List.find?_some h
    exact beq_iff_eq.1 (Bool.and_eq_true_iff.1 this).2
  · intro h
    refine List.find?_eq_some_iff_append.2 ⟨by simp [he, h], before, after, rfl, fun d hd => ?_⟩
    rw [not_nthOfKey_of_few hkey hnodup (by omega) d hd]
    rfl

/-- The first of some elements that satisfies a qualifier and is the `n`th of its key is the `n`th
of all that satisfy the qualifier just when there are fewer, and so neither is there, or the first
`n` of them share a key. -/
theorem nthOfKey_eq_iff (hnodup : order.Nodup) (hn : 1 ≤ n) :
    tree.nthOfKey q family n order = (order.filter (tree.bearsOne q))[n - 1]?
      ↔ (order.filter (tree.bearsOne q)).length < n
        ∨ ∀ d ∈ (order.filter (tree.bearsOne q)).take n,
            ∀ e ∈ (order.filter (tree.bearsOne q)).take n,
              tree.key? family d = tree.key? family e := by
  rcases hnth : (order.filter (tree.bearsOne q))[n - 1]? with _ | x
  · -- with fewer than `n` that satisfy the qualifier, none is the `n`th of its key
    have hfew : (order.filter (tree.bearsOne q)).length < n := by
      have := List.getElem?_eq_none_iff.1 hnth
      omega
    refine iff_of_true (List.find?_eq_none.2 fun e he => ?_) (.inl hfew)
    rw [← List.countP_eq_length_filter] at hfew
    have hmissed : (tree.bearsOne q e && tree.ordinal family (order ++ []) e == n) = false :=
      not_nthOfKey_of_few hkey (by rwa [List.append_nil]) hfew e he
    rw [List.append_nil] at hmissed
    exact Bool.eq_false_iff.1 hmissed
  · have hlength : ¬ (order.filter (tree.bearsOne q)).length < n := by
      have := (List.getElem?_eq_some_iff.1 hnth).1
      omega
    -- what is counted before the `n`th under its key is what satisfies the qualifier, or less
    obtain ⟨before, after, rfl, hx, hcount⟩ := getElem?_filter_eq_some.1 hnth
    have hcount : before.countP (tree.bearsOne q) + 1 = n := by omega
    rw [or_iff_right hlength, take_filter_of_split hx hcount,
      nthOfKey_eq_some_iff hkey hnodup hx hcount]
    constructor
    · intro h d hd e he
      have hsame : ∀ d ∈ before.filter (tree.bearsOne q) ++ [x],
          tree.key? family d = tree.key? family x :=
        List.forall_mem_append.2 ⟨h, List.forall_mem_singleton.2 rfl⟩
      rw [hsame d hd, hsame e he]
    · exact fun h d hd => h d (List.mem_append_left _ hd) x
        (List.mem_append_right _ (List.mem_singleton_self x))

end Nth

/-! ## A request -/

namespace Snapshot

variable {value : String} {d e : Place} {n : Nat}

/-- The elements below an element that have an id of some value, in document order. -/
def withId (tree : Snapshot) (value : String) (s : Place) : List Place :=
  (tree.below s).filter (tree.bearsOne { kind := .ident, value })

/-- What a level with an id and an index selects below an element. -/
def identified (tree : Snapshot) (value : String) (n : Nat) (s : Place) : Option Place :=
  tree.nthOfKey { kind := .ident, value } .ident n (tree.below s)

variable {tree : Snapshot}

theorem bearsOne_ident :
    tree.bearsOne { kind := .ident, value } e = (tree.key? .ident e).any (sameNumber · value) := by
  rcases he : tree.node? e with _ | node <;> simp [bearsOne, key?, he, Node.bears]

/-- An element with an id that is spelled the same has an id of the same value. -/
theorem bearsOne_of_same_spelling (he : tree.bearsOne { kind := .ident, value } e)
    (hsame : tree.key? .ident d = tree.key? .ident e) :
    tree.bearsOne { kind := .ident, value } d := by
  rw [bearsOne_ident] at he ⊢
  rwa [hsame]

theorem identified_eq_iff (hn : 1 ≤ n) (s : Place) :
    tree.identified value n s = (tree.withId value s)[n - 1]?
      ↔ (tree.withId value s).length < n
        ∨ ∀ d ∈ (tree.withId value s).take n, ∀ e ∈ (tree.withId value s).take n,
            tree.key? .ident d = tree.key? .ident e :=
  nthOfKey_eq_iff (fun _ _ => bearsOne_of_same_spelling) (tree.nodup_below s) hn

end Snapshot

namespace Engine

variable {tree : Snapshot} {engine : Engine Place} {value : String} {n : Nat}

/-- A last level that asks for an id and an index selects, below each element that it is looked for
below, the first element with the id that is the `n`th of those that spell it the same way; a
request for that level alone finds it below its root. This is the `n`th element with the id, if
there is one, just when the first `n` of them spell it alike. -/
theorem last_level_ids (hlisted : tree.unlisted = false) (hreach : tree.height ≤ engine.reach)
    (hvalue : ';' ∉ value.toList) (hn : 1 ≤ n) :
    (∀ goal pass, Search.PassOf engine goal pass → goal.EndsIn (Level.nthOf .ident value n) →
      (∀ root, goal.anchor = some root → (tree.node? root).isSome) →
      ∀ p time, ∃ result after,
        (∀ memory, (pass p).run tree.world memory time = ⟨.ok (result, after), memory, time⟩)
        ∧ Selects tree goal ((pass p).visits tree.world time) (Level.nthOf .ident value n)
            (tree.identified value n) result)
    ∧ (∀ rootPath path timeoutSecs singlePass time root chain,
        engine.rootInUse tree.world rootPath singlePass time = some root →
        (tree.node? root).isSome → readPath path = .ok chain →
        chain.levels.drop (firstSearched engine.settings chain) = [Level.nthOf .ident value n] →
        ∃ outcome,
          (engine.handle tree.world (.descendant rootPath path timeoutSecs singlePass) time).1
            = .ok outcome
          ∧ outcome.located?.map (·.element) = tree.identified value n root)
    ∧ ∀ s, tree.identified value n s = (tree.withId value s)[n - 1]?
        ↔ (tree.withId value s).length < n
          ∨ ∀ d ∈ (tree.withId value s).take n, ∀ e ∈ (tree.withId value s).take n,
              tree.key? .ident d = tree.key? .ident e := by
  have hselect : SelectedBy tree (Level.nthOf .ident value n) (tree.identified value n) :=
    Scan.nthOfKey .ident hvalue n
  refine ⟨?_, ?_, Snapshot.identified_eq_iff hn⟩
  · intro goal pass hpass hends hthere p time
    obtain ⟨result, after, vs, hreturns, hscan⟩ := hpass.goesBy hlisted hreach hthere p time
    refine ⟨result, after, hreturns.run, ?_⟩
    rw [hreturns.visits]
    exact hscan.selects_of hends hselect
  · intro rootPath path timeoutSecs singlePass time root chain hroot hthere hchain hone
    exact handle_selects hlisted hreach hselect hroot hthere hchain hone timeoutSecs

end Engine

/-- A window with a panel, a button in the panel and a label beside it, all with the id `5`, which
the button alone spells with a zero. -/
def spelledTree : Snapshot where
  roots :=
    [{ className := "Window"
       children :=
        [{ className := "Panel", ident := some "5"
           children := [{ className := "Button", ident := some "05" }] },
          { className := "Label", ident := some "5" }] }]

namespace Engine

/-- The panel is the first element with the id, and the first that spells it as it does. The label
is the second that spells it so. -/
theorem last_level_ids_spelled :
    let engine := spelledTree.engine {}
    (∃ outcome, (engine.handle spelledTree.world
          (.descendant "Class=Window" "Id=5;Index=1" 0 true) {}).1 = .ok outcome
        ∧ outcome.located?.map (·.element) = (spelledTree.withId "5" ⟨[0]⟩)[0]?)
    ∧ (∃ outcome, (engine.handle spelledTree.world
          (.descendant "Class=Window" "Id=5;Index=2" 0 true) {}).1 = .ok outcome
        ∧ outcome.located?.map (·.element) = some ⟨[0, 1]⟩)
    ∧ ∀ p time, ∃ result after,
        (∀ memory, (Search.rootPass engine.reach
            ⟨none, 0, Level.ofText "Class=Window", [Level.nthOf .ident "5" 2]⟩ p).run
            spelledTree.world memory time = ⟨.ok (result, after), memory, time⟩)
        ∧ Selects spelledTree ⟨none, 0, Level.ofText "Class=Window", [Level.nthOf .ident "5" 2]⟩
            ((Search.rootPass engine.reach
              ⟨none, 0, Level.ofText "Class=Window", [Level.nthOf .ident "5" 2]⟩ p).visits
              spelledTree.world time)
            (Level.nthOf .ident "5" 2) (spelledTree.identified "5" 2) result := by
  intro engine
  have hroot : engine.rootInUse spelledTree.world "Class=Window" true {} = some ⟨[0]⟩ := by
    decide +kernel
  obtain ⟨-, hfirst, hnth⟩ :=
    @last_level_ids spelledTree engine "5" 1 rfl (Nat.le_refl _) (by decide) (Nat.le_refl 1)
  obtain ⟨hpasses, hsecond, -⟩ :=
    @last_level_ids spelledTree engine "5" 2 rfl (Nat.le_refl _) (by decide) (by decide)
  have hspelled : spelledTree.identified "5" 2 ⟨[0]⟩ = some ⟨[0, 1]⟩ := by decide +kernel
  refine ⟨?_, ?_, ?_⟩
  · rw [← (hnth ⟨[0]⟩).2 (.inr (by decide +kernel))]
    exact hfirst _ "Id=5;Index=1" 0 true {} ⟨[0]⟩ ⟨"Id=5;Index=1", Level.nthOf .ident "5" 1, []⟩
      hroot (by decide +kernel) (by decide +kernel) (by decide +kernel)
  · rw [← hspelled]
    exact hsecond _ "Id=5;Index=2" 0 true {} ⟨[0]⟩ ⟨"Id=5;Index=2", Level.nthOf .ident "5" 2, []⟩
      hroot (by decide +kernel) (by decide +kernel) (by decide +kernel)
  · exact hpasses _ _ (.root ⟨"Class=Window;\\;Id=5;Index=2", Level.ofText "Class=Window",
      [Level.nthOf .ident "5" 2]⟩) (.inl rfl) nofun

end Engine

/-- The button is the second element in the window with the id, but the label is found in its
stead; and the label is the third, but nothing is found for that. -/
theorem spelled_otherwise :
    spelledTree.withId "5" ⟨[0]⟩ = [⟨[0, 0]⟩, ⟨[0, 0, 0]⟩, ⟨[0, 1]⟩]
      ∧ Engine.elementOf ((spelledTree.engine {}).handle spelledTree.world
          (.descendant "Class=Window" "Id=5;Index=2" 0 true) {}).1 = some ⟨[0, 1]⟩
      ∧ Engine.elementOf ((spelledTree.engine {}).handle spelledTree.world
          (.descendant "Class=Window" "Id=5;Index=3" 0 true) {}).1 = none := by
  decide +kernel

end Locator
