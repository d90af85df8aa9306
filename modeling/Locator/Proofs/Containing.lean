import Locator.Proofs.Conjunction
import Locator.Proofs.SharedTypes

/-!
# Looking for a part

The kinds `NameContains`, `TextContains` and `PropertyContains` look for the lowercase of a part in
the lowercase of a whole text (`accepts_iff`). Every letter but `Σ` is lowered for itself, so the
lowercase of a part is in the lowercase of a text that contains it, if only each `Σ` comes to the
same there as in the part alone (`lowerBetween_infix`). That does not depend on the text when the
part has enough around its `Σ`, and there is a text in which the part is not found when it has not
(`settled_iff`, `settled_of_beside`).
-/

namespace Locator

namespace Text

theorem contains_iff {needle s : List Char} : contains needle s ↔ needle <:+: s := by
  induction s with
  | nil => rw [contains, List.isEmpty_iff, List.infix_nil]
  | cons c s ih =>
    rw [contains, Bool.or_eq_true, List.isPrefixOf_iff_prefix, ih, List.infix_cons_iff]

/-! ## The lowercase of a part -/

/-- Whether the first character that is not `Case_Ignorable` is a cased letter, if there is one. -/
def firstCase? (s : List Char) : Option Bool :=
  (s.find? (!isCaseIgnorable ·)).map isCased

theorem firstCase?_cons (c : Char) (s : List Char) :
    firstCase? (c :: s) = if isCaseIgnorable c then firstCase? s else some (isCased c) := by
  unfold firstCase?
  rw [List.find?_cons]
  cases isCaseIgnorable c <;> rfl

theorem firstCase?_append (s t : List Char) :
    firstCase? (s ++ t) = (firstCase? s).or (firstCase? t) := by
  unfold firstCase?
  rw [List.find?_append, Option.map_or]

theorem getD_firstCase?_reverse_cons (c : Char) (s : List Char) (before : Bool) :
    (firstCase? (c :: s).reverse).getD before
      = (firstCase? s.reverse).getD (if isCaseIgnorable c then before else isCased c) := by
  rw [List.reverse_cons, firstCase?_append, firstCase?_cons, Option.getD_or]
  split <;> rfl

theorem startsCased_eq (s : List Char) : startsCased s = (firstCase? s).getD false := by
  induction s with
  | nil => rfl
  | cons c s ih =>
    unfold startsCased at ih ⊢
    rw [firstCase?_cons, List.dropWhile_cons]
    cases isCaseIgnorable c with
    | true => exact ih
    | false => rfl

/-- A `Σ` ends a word. What is cased beside the part of a text in which it stands counts where the
part has nothing to tell by. -/
def endsWord (before after : Option Bool) (casedBefore casedAfter : Bool) : Bool :=
  before.getD casedBefore && !after.getD casedAfter

/-- The lowercase of a part of a text. The last character before it and the first after it that are
not `Case_Ignorable` are cased letters or not. -/
def lowerBetween (casedBefore casedAfter : Bool) : List Char → List Char
  | [] => []
  | c :: cs =>
    (if c == 'Σ' then
      [if endsWord none (firstCase? cs) casedBefore casedAfter then 'ς' else 'σ']
    else lowerChar c)
      ++ lowerBetween (if isCaseIgnorable c then casedBefore else isCased c) casedAfter cs

theorem lowerBetween_false (casedBefore : Bool) (s : List Char) :
    lowerBetween casedBefore false s = lowerFrom casedBefore s := by
  induction s generalizing casedBefore with
  | nil => rfl
  | cons c s ih =>
    rw [lowerBetween, lowerFrom, ih, startsCased_eq]
    rfl

theorem lowerBetween_append (casedBefore casedAfter : Bool) (s t : List Char) :
    lowerBetween casedBefore casedAfter (s ++ t)
      = lowerBetween casedBefore ((firstCase? t).getD casedAfter) s
        ++ lowerBetween ((firstCase? s.reverse).getD casedBefore) casedAfter t := by
  induction s generalizing casedBefore with
  | nil => rfl
  | cons c s ih =>
    rw [List.cons_append, lowerBetween, lowerBetween, ih, getD_firstCase?_reverse_cons,
      firstCase?_append, List.append_assoc]
    unfold endsWord
    rw [Option.getD_or]

/-- The lowercase of a text contains that of each of its parts, as the part is lowered there. -/
theorem lowerBetween_infix (before part after : List Char) :
    lowerBetween (startsCased before.reverse) (startsCased after) part
      <:+: lower (before ++ part ++ after) := by
  rw [lower, ← lowerBetween_false, lowerBetween_append, lowerBetween_append, startsCased_eq,
    startsCased_eq]
  exact List.infix_append _ _ _

/-! ## Settled parts -/

theorem lowerBetween_cons_eq_iff {casedBefore casedAfter casedBefore' casedAfter' : Bool}
    {c : Char} {s : List Char} :
    lowerBetween casedBefore casedAfter (c :: s) = lowerBetween casedBefore' casedAfter' (c :: s)
      ↔ (c = 'Σ' → endsWord none (firstCase? s) casedBefore casedAfter
          = endsWord none (firstCase? s) casedBefore' casedAfter')
        ∧ lowerBetween (if isCaseIgnorable c then casedBefore else isCased c) casedAfter s
          = lowerBetween (if isCaseIgnorable c then casedBefore' else isCased c) casedAfter' s := by
  rw [lowerBetween, lowerBetween]
  by_cases hc : c = 'Σ'
  · have hform : ∀ ends ends' : Bool,
        (if ends then 'ς' else 'σ') = (if ends' then 'ς' else 'σ') ↔ ends = ends' := by decide
    rw [if_pos (beq_iff_eq.2 hc), if_pos (beq_iff_eq.2 hc), List.singleton_append,
      List.singleton_append, List.cons.injEq, hform, forall_prop_of_true hc]
  · have hnot : ¬(c == 'Σ') = true := mt beq_iff_eq.1 hc
    rw [if_neg hnot, if_neg hnot, List.append_right_inj, forall_prop_of_false hc, true_and]

/-- A part is lowered differently in different places only where a `Σ` ends a word in one of them
and not in the other. -/
theorem lowerBetween_eq_iff {casedBefore casedAfter casedBefore' casedAfter' : Bool}
    {s : List Char} :
    lowerBetween casedBefore casedAfter s = lowerBetween casedBefore' casedAfter' s
      ↔ ∀ i, s[i]? = some 'Σ' →
        endsWord (firstCase? (s.take i).reverse) (firstCase? (s.drop (i + 1)))
            casedBefore casedAfter
          = endsWord (firstCase? (s.take i).reverse) (firstCase? (s.drop (i + 1)))
            casedBefore' casedAfter' := by
  induction s generalizing casedBefore casedBefore' with
  | nil => simp [lowerBetween]
  | cons c s ih =>
    -- the first place is that of `c`, and `c` is what precedes the places of `s`
    rw [lowerBetween_cons_eq_iff, ← Nat.and_forall_add_one, ih]
    unfold endsWord
    simp only [List.getElem?_cons_zero, List.getElem?_cons_succ, List.take_zero, List.drop_zero,
      List.take_succ_cons, List.drop_succ_cons, getD_firstCase?_reverse_cons, Option.some.injEq]
    rfl

/-- A `Σ` in a part ends a word or not wherever the part stands: a cased letter follows it in the
part, or something else than one precedes it there, or the part has both its neighbours. -/
def SettledBetween (before after : Option Bool) : Prop :=
  after = some true ∨ before = some false ∨ before.isSome ∧ after.isSome

instance (before after : Option Bool) : Decidable (SettledBetween before after) :=
  inferInstanceAs (Decidable (_ ∨ _ ∨ _))

theorem SettledBetween.endsWord_eq {before after : Option Bool} (h : SettledBetween before after)
    (casedBefore casedAfter : Bool) :
    endsWord before after casedBefore casedAfter = endsWord before after false false := by
  unfold endsWord
  rcases h with rfl | rfl | ⟨hbefore, hafter⟩
  · simp
  · simp
  · obtain ⟨x, rfl⟩ := Option.isSome_iff_exists.1 hbefore
    obtain ⟨y, rfl⟩ := Option.isSome_iff_exists.1 hafter
    rfl

/-- One cased letter before and one after are enough to tell. -/
theorem settledBetween_of_beside {before after : Option Bool}
    (hbefore : endsWord before after true false = endsWord before after false false)
    (hafter : endsWord before after false true = endsWord before after false false) :
    SettledBetween before after := by
  rcases before with _ | _ | _ <;> rcases after with _ | _ | _ <;> revert hbefore hafter <;> decide

/-- Each `Σ` of a text is settled by what stands beside it in the text. -/
def Settled (s : List Char) : Prop :=
  ∀ i, s[i]? = some 'Σ' →
    SettledBetween (firstCase? (s.take i).reverse) (firstCase? (s.drop (i + 1)))

instance (s : List Char) : Decidable (Settled s) :=
  decidable_of_iff (∀ i < s.length, s[i]? = some 'Σ' →
      SettledBetween (firstCase? (s.take i).reverse) (firstCase? (s.drop (i + 1))))
    ⟨fun h i hi => h i (List.getElem?_eq_some_iff.1 hi).1 hi, fun h i _ => h i⟩

theorem settled_of_notMem {s : List Char} (h : 'Σ' ∉ s) : Settled s :=
  fun _ hi => absurd (List.mem_of_getElem? hi) h

theorem settled_iff {s : List Char} :
    Settled s ↔ ∀ casedBefore casedAfter, lowerBetween casedBefore casedAfter s = lower s := by
  simp only [lower, ← lowerBetween_false, lowerBetween_eq_iff]
  constructor
  · exact fun h casedBefore casedAfter i hi => (h i hi).endsWord_eq casedBefore casedAfter
  · exact fun h i hi => settledBetween_of_beside (h true false i hi) (h false true i hi)

/-! ## Parts that are not found -/

/-- The two forms of a lowercase `Σ` as one. -/
def unfinal (c : Char) : Char :=
  if c = 'ς' then 'σ' else c

theorem map_unfinal_lowerBetween (casedBefore casedAfter casedBefore' casedAfter' : Bool)
    (s : List Char) :
    (lowerBetween casedBefore casedAfter s).map unfinal
      = (lowerBetween casedBefore' casedAfter' s).map unfinal := by
  induction s generalizing casedBefore casedBefore' with
  | nil => rfl
  | cons c s ih =>
    have hform : ∀ ends : Bool, unfinal (if ends then 'ς' else 'σ') = 'σ' := by decide
    rw [lowerBetween, lowerBetween, List.map_append, List.map_append, ih]
    split
    · rw [List.map_singleton, List.map_singleton, hform, hform]
    · rfl

section Shift

variable {α β : Type} {f : α → β} {x : α}

theorem eq_of_front_cons (hx : ∀ y, f y = f x → y = x) :
    ∀ {s t : List α}, s.map f = t.map f → s <+: x :: t → s = t
  | [], [], _, _ => rfl
  | y :: s, z :: t, hmap, hfront => by
    obtain ⟨hyz, hst⟩ := List.cons.inj hmap
    obtain ⟨hyx, hrest⟩ := List.cons_prefix_cons.1 hfront
    -- so what stands behind `x` is `x` again
    have hzx : z = x := hx z (hyz.symm.trans (congrArg f hyx))
    rw [hzx] at hrest
    rw [hyx, hzx, eq_of_front_cons hx hst hrest]

/-- A list that is in another behind one more element, and is the same apart from what a function
does not tell, is the other, if the function tells the element from all others: it could only be
shifted by one, and then it would have that element throughout. -/
theorem eq_of_infix_cons {s t : List α} (hx : ∀ y, f y = f x → y = x) (hmap : s.map f = t.map f)
    (h : s <:+: x :: t) : s = t := by
  rcases List.infix_cons_iff.1 h with hfront | hinfix
  · exact eq_of_front_cons hx hmap hfront
  · exact hinfix.eq_of_length (by simpa using congrArg List.length hmap)

theorem eq_of_infix_concat {s t : List α} (hx : ∀ y, f y = f x → y = x) (hmap : s.map f = t.map f)
    (h : s <:+: t ++ [x]) : s = t := by
  rw [← List.reverse_infix, List.reverse_concat] at h
  refine List.reverse_injective (eq_of_infix_cons hx ?_ h)
  rw [List.map_reverse, List.map_reverse, hmap]

end Shift

theorem unfinal_eq_a (c : Char) (h : unfinal c = unfinal 'a') : c = 'a' := by
  unfold unfinal at h
  split at h
  · exact absurd h (by decide)
  · exact h

/-- A part that is found behind a letter and before one is settled. -/
theorem settled_of_beside {s : List Char} (hbehind : lower s <:+: lower ('a' :: s))
    (hbefore : lower s <:+: lower (s ++ ['a'])) : Settled s := by
  have hcons : lower ('a' :: s) = 'a' :: lowerBetween true false s := by
    rw [lower, ← lowerBetween_false]
    rfl
  have hconcat : lower (s ++ ['a']) = lowerBetween false true s ++ ['a'] := by
    rw [lower, ← lowerBetween_false, lowerBetween_append]
    rfl
  rw [hcons, lower, ← lowerBetween_false] at hbehind
  rw [hconcat, lower, ← lowerBetween_false] at hbefore
  have htrue := eq_of_infix_cons unfinal_eq_a (map_unfinal_lowerBetween ..) hbehind
  have hfalse := eq_of_infix_concat unfinal_eq_a (map_unfinal_lowerBetween ..) hbefore
  exact fun i hi => settledBetween_of_beside (lowerBetween_eq_iff.1 htrue.symm i hi)
    (lowerBetween_eq_iff.1 hfalse.symm i hi)

end Text

open Text

/-! ## Qualifiers that look for a part -/

/-- A part is found in a text behind any other qualifiers, wherever an element has the text: in its
name, in its own text or in one of its properties. -/
structure Accepts (part text : String) : Prop where
  inName : ∀ {σ E : Type} (t : Trial σ E) (before : List Qualifier),
    t.situation.facts.name = some text → t.Passes before { kind := .nameContains, value := part }
  inText : ∀ {σ E : Type} (t : Trial σ E) (before : List Qualifier),
    (t.world.answer (.text t.element) (t.stateAfter before)).1 = .ok text →
    t.Passes before { kind := .textContains, value := part }
  inProperty : ∀ {σ E : Type} (t : Trial σ E) (before : List Qualifier) (name : String),
    Qualifier.propertySeparator ∉ name.toList →
    (t.world.answer (.property t.element name) (t.stateAfter before)).1 = .ok text →
    t.Passes before { kind := .propertyContains, value := name ++ ":" ++ part }

theorem Qualifier.propertyParts?_append {kind : Kind} {name : String}
    (h : propertySeparator ∉ name.toList) (part : String) :
    propertyParts? { kind, value := name ++ ":" ++ part } = some (name, part) := by
  have hvalue : (name ++ ":" ++ part).toList = name.toList ++ propertySeparator :: part.toList := by
    rw [String.toList_append, String.toList_append, List.append_assoc]
    rfl
  simp only [propertyParts?, hvalue, cutAt_append h, Option.map_some, String.ofList_toList]

theorem accepts_iff {part text : String} :
    Accepts part text ↔ lower part.toList <:+: lower text.toList := by
  rw [← contains_iff]
  change _ ↔ containsIgnoringCase text part
  constructor
  · -- a name is enough to tell
    intro h
    let facts : Facts := ⟨"", [], "", none, some text⟩
    let tree : Snapshot := { roots := [] }
    let t : Trial Clock Place := ⟨tree.world, ⟨[]⟩, ⟨facts, Level.ofText "", {}, .descendant⟩, {}⟩
    obtain ⟨_, -, hholds⟩ := h.inName t [] rfl
    exact hholds
  · intro h
    refine ⟨fun t before hname => ⟨"", rfl, ?_⟩, fun t before htext => ⟨text, htext, h⟩,
      fun t before name hname hproperty => ⟨text, ?_, ?_⟩⟩
    · rw [Qualifier.holds, hname]
      exact h
    · unfold Trial.readFor Qualifier.reading?
      rw [Qualifier.propertyParts?_append hname]
      exact hproperty
    · unfold Qualifier.holds
      rw [Qualifier.propertyParts?_append hname]
      exact h

/-- The `Contains` kinds find a part in every text that contains it, whatever the ASCII case of
either, just when each `Σ` of the part is settled by what stands beside it in the part. So they do
for a part without a `Σ`. Any part is found where it is lowered as it is alone. -/
theorem accepts_occurrences (part : String) :
    (Settled part.toList ↔ ∀ whole : String, part.toList <:+: whole.toList → ∀ sought text : String,
      sameIgnoringCase sought.toList part.toList → sameIgnoringCase text.toList whole.toList →
      Accepts sought text)
    ∧ (∀ before after : String, lowerBetween (startsCased before.toList.reverse)
        (startsCased after.toList) part.toList = lower part.toList →
      Accepts part (before ++ part ++ after))
    ∧ ('Σ' ∉ part.toList → Settled part.toList) := by
  refine ⟨⟨?_, ?_⟩, ?_, settled_of_notMem⟩
  · rintro hsettled whole ⟨before, after, hwhole⟩ sought text hsought htext
    rw [accepts_iff, lower_of_sameIgnoringCase hsought, lower_of_sameIgnoringCase htext, ← hwhole,
      ← settled_iff.1 hsettled (startsCased before.reverse) (startsCased after)]
    exact lowerBetween_infix before part.toList after
  · intro h
    have hfound (whole : List Char) (hwhole : part.toList <:+: whole) :
        lower part.toList <:+: lower whole := by
      have := h (String.ofList whole) (by simpa using hwhole) part (String.ofList whole)
        (sameIgnoringCase_self _) (sameIgnoringCase_self _)
      simpa using accepts_iff.1 this
    exact settled_of_beside (hfound _ (List.suffix_cons _ _).isInfix)
      (hfound _ (List.prefix_append _ _).isInfix)
  · intro before after hsame
    rw [accepts_iff, String.toList_append, String.toList_append, ← hsame]
    exact lowerBetween_infix _ _ _

/-- A cased letter follows the `Σ` in the part, and ASCII case does not matter. Before a comma a
part whose `Σ` is not settled is found too. -/
theorem accepts_occurrences_save :
    Settled "Save ΣΗΜΑ".toList
      ∧ Accepts "SAVE ΣΗΜΑ" "save ΣΗΜΑΤΑ as"
      ∧ Accepts "ΑΣ" ("ΚΑΛ" ++ "ΑΣ" ++ ", ΑΣΑ")
      ∧ Settled "Save".toList := by
  obtain ⟨hsettled, -, -⟩ := accepts_occurrences "Save ΣΗΜΑ"
  obtain ⟨-, halike, -⟩ := accepts_occurrences "ΑΣ"
  obtain ⟨-, -, hplain⟩ := accepts_occurrences "Save"
  have hsigma : Settled "Save ΣΗΜΑ".toList := by decide +kernel
  refine ⟨hsigma, hsettled.1 hsigma "Save ΣΗΜΑΤΑ as" ?_ _ _ ?_ ?_, halike _ _ ?_, hplain ?_⟩ <;>
    decide +kernel

/-- A window with a label. -/
def sigmaTree : Snapshot where
  roots := [{ className := "Window", children := [{ className := "Label", name := some "ΑΣΑ" }] }]

/-- The lowercase `ας` of the part is not in the lowercase `ασα` of the name, so the part is not
found in a name that contains it. -/
theorem contained_otherwise :
    "ΑΣ".toList <:+: "ΑΣΑ".toList
      ∧ ¬ Accepts "ΑΣ" "ΑΣΑ"
      ∧ Engine.elementOf ((sigmaTree.engine {}).handle sigmaTree.world
          (.descendant "Class=Window" "NameContains=ΑΣ" 0 true) {}).1 = none := by
  rw [accepts_iff]
  decide +kernel

end Locator
