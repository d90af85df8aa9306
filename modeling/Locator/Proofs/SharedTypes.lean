import Locator.Proofs.Identifying
import Locator.Proofs.Texts

/-!
# Selecting by a type and an index

A level `Type=v;Index=n` compares types without regard to ASCII case, but its index is the count of
the lowercase of the type, in which letters outside ASCII lose their case too. So all elements of
the type are counted under one key (`key?_of_bearsOne`), and others may be counted along with them:
the level selects the `n`th of those under the key, if that one is of the type (`typed_eq`). That is
the `n`th element of the type just when the first `n` under the key are of the type, or when there
are fewer of the type and the `n`th under the key is not one (`typed_eq_iff`). So it is where no
type has a letter that has a case outside ASCII (`typed_of_plain`), but not everywhere
(`typed_otherwise`).
-/

namespace Locator

namespace Text

/-! ## ASCII case and lowercase -/

/-- Two characters have the same part in a lowercase. -/
def LoweredAlike (c d : Char) : Prop :=
  isCased c = isCased d ∧ isCaseIgnorable c = isCaseIgnorable d ∧ lowerChar c = lowerChar d
    ∧ (c == 'Σ') = (d == 'Σ')

instance (c d : Char) : Decidable (LoweredAlike c d) :=
  inferInstanceAs (Decidable (_ ∧ _ ∧ _ ∧ _))

theorem loweredAlike_toLower (c : Char) : LoweredAlike c.toLower c := by
  have hletters : ∀ n < 0x5B, LoweredAlike (Char.ofNat n).toLower (Char.ofNat n) := by
    decide +kernel
  have hcode := toNat_toLower c
  split at hcode
  · next hupper =>
    have := hletters c.toNat (by omega)
    rwa [Char.ofNat_toNat] at this
  · rw [Char.toNat_inj.1 hcode]
    exact ⟨rfl, rfl, rfl, rfl⟩

theorem startsCased_map_toLower (s : List Char) :
    startsCased (s.map Char.toLower) = startsCased s := by
  induction s with
  | nil => rfl
  | cons c s ih =>
    obtain ⟨hcased, hignorable, -⟩ := loweredAlike_toLower c
    unfold startsCased at ih ⊢
    rw [List.map_cons, List.dropWhile_cons, List.dropWhile_cons, hignorable]
    cases isCaseIgnorable c with
    | true => exact ih
    | false => exact hcased

theorem lowerFrom_map_toLower (afterCased : Bool) (s : List Char) :
    lowerFrom afterCased (s.map Char.toLower) = lowerFrom afterCased s := by
  induction s generalizing afterCased with
  | nil => rfl
  | cons c s ih =>
    obtain ⟨hcased, hignorable, hchar, hsigma⟩ := loweredAlike_toLower c
    simp only [List.map_cons, lowerFrom, hcased, hignorable, hchar, hsigma,
      startsCased_map_toLower, ih]

/-- Texts that differ in ASCII case at most have the same lowercase. -/
theorem lower_of_sameIgnoringCase {s t : List Char} (h : sameIgnoringCase s t) :
    lower s = lower t := by
  rw [lower, ← lowerFrom_map_toLower, sameIgnoringCase_iff.1 h, lowerFrom_map_toLower, lower]

/-- A text in which no letter has a case but in ASCII: the first that does is `À`. -/
def PlainLetters (text : String) : Prop :=
  ∀ c ∈ text.toList, c.toNat < 0xC0

theorem lower_of_plain {text : String} (h : PlainLetters text) :
    lower text.toList = text.toList.map Char.toLower := by
  unfold PlainLetters at h
  rw [lower]
  generalize false = afterCased
  generalize text.toList = s at h ⊢
  induction s generalizing afterCased with
  | nil => rfl
  | cons c s ih =>
    obtain ⟨hc, hs⟩ := List.forall_mem_cons.1 h
    have hsigma : (c == 'Σ') = false := by
      rw [beq_eq_false_iff_ne]
      rintro rfl
      exact absurd hc (by decide)
    rw [lowerFrom, hsigma, lowerChar_of_lt hc, ih _ hs]
    rfl

end Text

open Text

/-! ## The `n`th under the key -/

section Find

variable {α : Type} {p : α → Bool} {xs : List α} {k : Nat}

theorem getElem?_filter_of_take (h : ∀ x ∈ xs.take (k + 1), p x) :
    (xs.filter p)[k]? = xs[k]? := by
  conv_lhs => rw [← List.take_append_drop (k + 1) xs]
  rw [List.filter_append, List.filter_eq_self.2 h]
  by_cases hk : k < xs.length
  · rw [List.getElem?_append_left (by rw [List.length_take]; omega),
      List.getElem?_take_of_lt (Nat.lt_succ_self k)]
  · rw [List.take_of_length_le (by omega), List.drop_of_length_le (by omega), List.filter_nil,
      List.append_nil]

/-- What stands at a position is, if it passes, what stands there among all that pass just when all
up to it pass, or neither is there. -/
theorem filter_getElem?_eq_iff (hnodup : xs.Nodup) :
    (xs[k]?).filter p = (xs.filter p)[k]?
      ↔ (∀ x ∈ xs.take (k + 1), p x)
        ∨ (xs.filter p).length ≤ k ∧ ∀ x, xs[k]? = some x → p x = false := by
  constructor
  · intro h
    rcases hpassed : (xs.filter p)[k]? with _ | x <;> rw [hpassed] at h
    · exact .inr ⟨List.getElem?_eq_none_iff.1 hpassed, by simpa [Option.filter_eq_none_iff] using h⟩
    · obtain ⟨hx, hpx⟩ := Option.filter_eq_some_iff.1 h
      obtain ⟨before, after, rfl, -, hcount⟩ := getElem?_filter_eq_some.1 hpassed
      -- as many pass before it as stand before it
      have hk : before.length = k := by
        refine (List.getElem?_inj (by simp) hnodup).1 ?_
        rw [List.getElem?_append_right (Nat.le_refl _), Nat.sub_self, hx]
        rfl
      have hall : ∀ y ∈ before, p y := List.countP_eq_length.1 (hcount.trans hk.symm)
      rw [← hk, List.take_append, List.take_of_length_le (Nat.le_succ _),
        Nat.add_sub_cancel_left, List.take_succ_cons, List.take_zero]
      exact .inl (List.forall_mem_append.2 ⟨hall, List.forall_mem_singleton.2 hpx⟩)
  · rintro (hall | ⟨hfew, hnot⟩)
    · rw [getElem?_filter_of_take hall]
      rcases hx : xs[k]? with _ | x
      · rfl
      · rw [Option.filter_some, if_pos]
        have htaken := (List.getElem?_take_of_lt (Nat.lt_succ_self k)).trans hx
        exact hall x (List.mem_of_getElem? htaken)
    · rw [List.getElem?_eq_none hfew, Option.filter_eq_none_iff]
      exact fun x hx hpx => Bool.false_ne_true ((hnot x hx).symm.trans hpx)

/-- To look for an element that passes and is the one in hand is to check the one in hand. -/
theorem find?_and_eq [DecidableEq α] {o : Option α} (h : ∀ x, o = some x → x ∈ xs) :
    (xs.find? fun e => p e && o == some e) = o.filter p := by
  rcases o with _ | x
  · exact List.find?_eq_none.2 fun e _ => by simp
  rcases hfind : xs.find? fun e => p e && some x == some e with _ | y
  · have hnot : ¬ p x := by simpa using List.find?_eq_none.1 hfind x (h x rfl)
    rw [Option.filter_some, if_neg hnot]
  · have hy := List.find?_some hfind
    rw [Bool.and_eq_true, beq_iff_eq, Option.some.injEq] at hy
    obtain ⟨hpass, rfl⟩ := hy
    rw [Option.filter_some, if_pos hpass]

/-- An element stands at one place among others that are counted with it. -/
theorem ordinal_eq_iff {tree : Snapshot} {family : Family} {order : List Place} {e : Place}
    {n : Nat} {counted : Place → Bool} (hshares : tree.sharesKey family e = counted)
    (hcounted : counted e) (hnodup : order.Nodup) (he : e ∈ order) (hn : 1 ≤ n) :
    tree.ordinal family order e = n ↔ (order.filter counted)[n - 1]? = some e := by
  obtain ⟨before, after, rfl⟩ := List.mem_iff_append.1 he
  rw [ordinal_of_split hnodup, hshares, getElem?_filter_eq_some]
  constructor
  · exact fun h => ⟨before, after, rfl, hcounted, by omega⟩
  · rintro ⟨before', after', hsplit, -, hcount⟩
    rw [before_eq_of_nodup hnodup hsplit] at hcount
    omega

end Find

namespace Snapshot

variable {value : String} {d e : Place} {n : Nat}

/-- The elements below an element that are of some type, in document order. -/
def withType (tree : Snapshot) (value : String) (s : Place) : List Place :=
  (tree.below s).filter (tree.bearsOne { kind := .type, value })

/-- The elements below an element that are counted under the key of some type. -/
def countedAs (tree : Snapshot) (value : String) (s : Place) : List Place :=
  (tree.below s).filter fun e => decide (tree.key? .type e = some (lowercase value))

/-- What a level with a type and an index selects below an element. -/
def typed (tree : Snapshot) (value : String) (n : Nat) (s : Place) : Option Place :=
  tree.nthOfKey { kind := .type, value } .type n (tree.below s)

variable {tree : Snapshot}

/-- An element of a type is counted under the key of the type. -/
theorem key?_of_bearsOne (he : tree.bearsOne { kind := .type, value } e) :
    tree.key? .type e = some (lowercase value) := by
  rcases hnode : tree.node? e with _ | node
  · simp [bearsOne, hnode] at he
  rw [bearsOne, hnode, Option.any_some] at he
  rw [key?, hnode]
  exact congrArg (fun s => some (String.ofList s)) (lower_of_sameIgnoringCase he)

/-- Elements of a type are counted under one key, so the first of them that is the `n`th of its key
is the `n`th under the key of the type, if that is of the type. -/
theorem nthOfKey_type {order : List Place} (hnodup : order.Nodup) (hn : 1 ≤ n) :
    tree.nthOfKey { kind := .type, value } .type n order
      = ((order.filter fun e => decide (tree.key? .type e = some (lowercase value)))[n - 1]?).filter
          (tree.bearsOne { kind := .type, value }) := by
  set bears := tree.bearsOne { kind := .type, value }
  set counted : Place → Bool := fun e => decide (tree.key? .type e = some (lowercase value))
  have hjudged : ∀ e ∈ order, (bears e && tree.ordinal .type order e == n)
      = (bears e && (order.filter counted)[n - 1]? == some e) := by
    intro e he
    cases hbears : bears e with
    | false => rfl
    | true =>
      have hkey := key?_of_bearsOne hbears
      have hshares : tree.sharesKey .type e = counted := by
        funext d
        rw [sharesKey, hkey]
      rw [Bool.true_and, Bool.true_and, Bool.eq_iff_iff, beq_iff_eq, beq_iff_eq]
      exact ordinal_eq_iff hshares (decide_eq_true hkey) hnodup he hn
  rw [nthOfKey, List.find?_congr hjudged]
  exact find?_and_eq fun x hx => List.mem_of_mem_filter (List.mem_of_getElem? hx)

theorem typed_eq (hn : 1 ≤ n) (s : Place) :
    tree.typed value n s
      = ((tree.countedAs value s)[n - 1]?).filter (tree.bearsOne { kind := .type, value }) :=
  nthOfKey_type (tree.nodup_below s) hn

theorem filter_countedAs (s : Place) :
    (tree.countedAs value s).filter (tree.bearsOne { kind := .type, value })
      = tree.withType value s := by
  rw [countedAs, withType, List.filter_filter]
  refine List.filter_congr fun e _ => ?_
  rw [Bool.and_eq_left_iff_imp]
  exact fun he => decide_eq_true (key?_of_bearsOne he)

/-- The level selects the `n`th element of the type just when the first `n` that are counted under
its key are of the type, or when there are fewer of the type and what is counted there is not. -/
theorem typed_eq_iff (hn : 1 ≤ n) (s : Place) :
    tree.typed value n s = (tree.withType value s)[n - 1]?
      ↔ (∀ e ∈ (tree.countedAs value s).take n, tree.bearsOne { kind := .type, value } e)
        ∨ (tree.withType value s).length < n
          ∧ ∀ e, (tree.countedAs value s)[n - 1]? = some e →
            tree.bearsOne { kind := .type, value } e = false := by
  have hnodup : (tree.countedAs value s).Nodup := (tree.nodup_below s).filter _
  rw [typed_eq hn, ← filter_countedAs, filter_getElem?_eq_iff hnodup, Nat.sub_add_cancel hn,
    Nat.lt_iff_le_pred hn]

/-- Among types in plain letters those counted under the key of the type are of the type. -/
theorem typed_of_plain (hn : 1 ≤ n) {s : Place} (hvalue : PlainLetters value)
    (htypes : ∀ e ∈ tree.below s, ∀ node, tree.node? e = some node →
      PlainLetters node.typeOrClass) :
    tree.typed value n s = (tree.withType value s)[n - 1]? := by
  refine (typed_eq_iff hn s).2 (.inl fun e he => ?_)
  obtain ⟨hbelow, hcounted⟩ := List.mem_filter.1 (List.mem_of_mem_take he)
  obtain ⟨node, hnode, hkey⟩ := Option.bind_eq_some_iff.1 (of_decide_eq_true hcounted)
  have hlower : lower node.typeOrClass.toList = lower value.toList :=
    String.ofList_injective (Option.some.inj hkey)
  rw [lower_of_plain (htypes e hbelow node hnode), lower_of_plain hvalue] at hlower
  rw [bearsOne, hnode, Option.any_some]
  exact sameIgnoringCase_iff.2 hlower

end Snapshot

namespace Engine

variable {tree : Snapshot} {engine : Engine Place} {value : String} {n : Nat}

/-- A last level that asks for a type and an index selects, below each element that it is looked for
below, the `n`th of those that are counted under the key of the type, if it is of the type; a
request for that level alone finds it below its root. This is the `n`th element of the type, or
nothing where there are fewer, just when the first `n` under the key are of the type, or when there
are fewer of the type and what is counted there is not. -/
theorem last_level_types (hlisted : tree.unlisted = false) (hreach : tree.height ≤ engine.reach)
    (hvalue : ';' ∉ value.toList) (hn : 1 ≤ n) :
    (∀ goal pass, Search.PassOf engine goal pass → goal.EndsIn (Level.nthOf .type value n) →
      (∀ root, goal.anchor = some root → (tree.node? root).isSome) →
      ∀ p time, ∃ result after,
        (∀ memory, (pass p).run tree.world memory time = ⟨.ok (result, after), memory, time⟩)
        ∧ Selects tree goal ((pass p).visits tree.world time) (Level.nthOf .type value n)
            (tree.typed value n) result)
    ∧ (∀ rootPath path timeoutSecs singlePass time root chain,
        engine.rootInUse tree.world rootPath singlePass time = some root →
        (tree.node? root).isSome → readPath path = .ok chain →
        chain.levels.drop (firstSearched engine.settings chain) = [Level.nthOf .type value n] →
        ∃ outcome,
          (engine.handle tree.world (.descendant rootPath path timeoutSecs singlePass) time).1
            = .ok outcome
          ∧ outcome.located?.map (·.element) = tree.typed value n root)
    ∧ ∀ s, tree.typed value n s
          = ((tree.countedAs value s)[n - 1]?).filter (tree.bearsOne { kind := .type, value })
        ∧ (tree.typed value n s = (tree.withType value s)[n - 1]?
          ↔ (∀ e ∈ (tree.countedAs value s).take n, tree.bearsOne { kind := .type, value } e)
            ∨ (tree.withType value s).length < n
              ∧ ∀ e, (tree.countedAs value s)[n - 1]? = some e →
                tree.bearsOne { kind := .type, value } e = false)
        ∧ (PlainLetters value → (∀ e ∈ tree.below s, ∀ node, tree.node? e = some node →
            PlainLetters node.typeOrClass) →
          tree.typed value n s = (tree.withType value s)[n - 1]?) := by
  have hselect : SelectedBy tree (Level.nthOf .type value n) (tree.typed value n) :=
    Scan.nthOfKey .type hvalue n
  refine ⟨fun goal pass hpass hends hthere p time =>
      hpass.selects hlisted hreach hselect hends hthere p time, ?_,
    fun s => ⟨Snapshot.typed_eq hn s, Snapshot.typed_eq_iff hn s, Snapshot.typed_of_plain hn⟩⟩
  intro rootPath path timeoutSecs singlePass time root chain hroot hthere hchain hone
  exact handle_selects hlisted hreach hselect hroot hthere hchain hone timeoutSecs

end Engine

/-- A window with two labels, typed `é` and `É`, and two buttons, typed `Button` and `BUTTON`. -/
def accentedTree : Snapshot where
  roots :=
    [{ className := "Window"
       children :=
        [{ className := "Label", resolvedType := some "é" },
          { className := "Label", resolvedType := some "É" },
          { className := "Button" },
          { className := "Button", resolvedType := some "BUTTON" }] }]

namespace Engine

/-- The second button is typed in another ASCII case. -/
theorem last_level_types_button :
    let engine := accentedTree.engine {}
    (∃ outcome, (engine.handle accentedTree.world
          (.descendant "Class=Window" "Type=button;Index=2" 0 true) {}).1 = .ok outcome
        ∧ outcome.located?.map (·.element) = (accentedTree.withType "button" ⟨[0]⟩)[1]?)
    ∧ ∀ p time, ∃ result after,
        (∀ memory, (Search.rootPass engine.reach
            ⟨none, 0, Level.ofText "Class=Window", [Level.nthOf .type "button" 2]⟩ p).run
            accentedTree.world memory time = ⟨.ok (result, after), memory, time⟩)
        ∧ Selects accentedTree
            ⟨none, 0, Level.ofText "Class=Window", [Level.nthOf .type "button" 2]⟩
            ((Search.rootPass engine.reach
              ⟨none, 0, Level.ofText "Class=Window", [Level.nthOf .type "button" 2]⟩ p).visits
              accentedTree.world time)
            (Level.nthOf .type "button" 2) (accentedTree.typed "button" 2) result := by
  intro engine
  have hroot : engine.rootInUse accentedTree.world "Class=Window" true {} = some ⟨[0]⟩ := by
    decide +kernel
  obtain ⟨hpasses, hrequest, hnth⟩ :=
    @last_level_types accentedTree engine "button" 2 rfl (Nat.le_refl _) (by decide) (by decide)
  refine ⟨?_, ?_⟩
  · rw [← (hnth ⟨[0]⟩).2.1.2 (.inl (by decide +kernel))]
    exact hrequest _ "Type=button;Index=2" 0 true {} ⟨[0]⟩
      ⟨"Type=button;Index=2", Level.nthOf .type "button" 2, []⟩ hroot (by decide +kernel)
      (by decide +kernel) (by decide +kernel)
  · exact hpasses _ _ (.root ⟨"Class=Window;\\;Type=button;Index=2", Level.ofText "Class=Window",
      [Level.nthOf .type "button" 2]⟩) (.inl rfl) nofun

end Engine

/-- One label is of the type `É`, but it is counted as the second, behind one that is not. -/
theorem typed_otherwise :
    accentedTree.withType "É" ⟨[0]⟩ = [⟨[0, 1]⟩]
      ∧ Engine.elementOf ((accentedTree.engine {}).handle accentedTree.world
          (.descendant "Class=Window" "Type=É;Index=1" 0 true) {}).1 = none
      ∧ Engine.elementOf ((accentedTree.engine {}).handle accentedTree.world
          (.descendant "Class=Window" "Type=É;Index=2" 0 true) {}).1 = some ⟨[0, 1]⟩ := by
  decide +kernel

end Locator
