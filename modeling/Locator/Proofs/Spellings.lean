import Locator.Proofs.Counterparts
import Locator.Proofs.Rendering

/-!
# Other spellings of a path

The canonical text of a path asks for what the path asks for, so a single pass for either locates
the same (`canonical_locates`). For a root that is always so. Below a root the first level is set
aside if its text begins with `current`, which is all that the default sentinels come to, while in
the canonical text what comes first is the first qualifier. So there the two have to say the same
(`Level.OpensAsRead`), as they do if the first token is a qualifier.
-/

namespace Locator

open Text

/-! ## Texts that begin with `current` -/

/-- Blanks set aside, a text begins with `current` in some ASCII case. -/
def BeginsCurrent (s : List Char) : Prop :=
  "current".toList <+: (trimStart s).map Char.toLower

instance (s : List Char) : Decidable (BeginsCurrent s) :=
  inferInstanceAs (Decidable (_ <+: _))

theorem plain_current : ∀ c ∈ "current".toList, isPlain c :=
  List.all_eq_true.1 (by decide)

theorem beginsCurrent_trim (s : List Char) : BeginsCurrent (trim s) ↔ BeginsCurrent s := by
  rw [BeginsCurrent, trimStart_trim]
  exact prefix_map_trimEnd_iff plain_current (trimStart s)

/-- What stands behind a separator does not matter. -/
theorem beginsCurrent_append {c : Char} (hblank : isBlank c = false)
    (hc : c.toLower ∉ "current".toList) (s t : List Char) :
    BeginsCurrent (s ++ c :: t) ↔ BeginsCurrent s := by
  rw [BeginsCurrent, trimStart_append_cons hblank, List.map_append, List.map_cons]
  exact prefix_append_cons_iff hc

/-- The default sentinels are the texts that begin with `current`. -/
theorem Settings.isTopLevelSentinel_default (s : List Char) :
    ({} : Settings).isTopLevelSentinel s ↔ BeginsCurrent s := by
  have hsentinels : ({} : Settings).topLevelSentinels.map (fun sentinel => lower sentinel.toList)
      = ["currentwindow".toList, "current=window".toList, "current".toList] := by decide +kernel
  have hany : ({} : Settings).isTopLevelSentinel s
      = (({} : Settings).topLevelSentinels.map fun sentinel => lower sentinel.toList).any
          (·.isPrefixOf (lower (trim s))) := by
    rw [List.any_map]
    rfl
  rw [hany, hsentinels, ← beginsCurrent_trim, BeginsCurrent, trimStart_trim,
    ← prefix_lower_iff plain_current]
  simp only [List.any_cons, List.any_nil, Bool.or_false, Bool.or_eq_true,
    List.isPrefixOf_iff_prefix]
  refine ⟨?_, fun h => .inr (.inr h)⟩
  rintro (h | h | h)
  · exact (show "current".toList <+: "currentwindow".toList by decide).trans h
  · exact (show "current".toList <+: "current=window".toList by decide).trans h
  · exact h

/-- The only keyword that begins with `current` is that of the kind. -/
theorem Qualifier.Kind.eq_current_iff {word : List Char} {kind : Kind}
    (htrim : trimStart word = word) (hread : read? word = some kind) :
    kind = .current ↔ BeginsCurrent word := by
  have hkeyword : kind = .current ↔ "current".toList <+: kind.keyword.toList.map Char.toLower := by
    cases kind <;> decide
  rw [BeginsCurrent, htrim, ← sameIgnoringCase_iff.1 (sameIgnoringCase_of_read? hread)]
  exact hkeyword

/-- A token begins with `current` just when it is read as a `Current` qualifier, if it is read. -/
theorem Qualifier.kind_eq_current_iff {token : List Char} {q : Qualifier}
    (h : ofToken token = .ok q) : q.kind = .current ↔ BeginsCurrent token := by
  cases readFrom_of_ofToken h with
  | current _ hcurrent =>
    rw [← beginsCurrent_trim, BeginsCurrent, trimStart_trim]
    exact ⟨fun _ => hcurrent, fun _ => rfl⟩
  | keyword _ _ hword =>
    rw [← beginsCurrent_trim]
    exact Kind.eq_current_iff (trimStart_trim token) hword
  | @assignment _ key _ htoken hword =>
    rw [htoken, beginsCurrent_append (by decide) (by decide), ← beginsCurrent_trim]
    exact Kind.eq_current_iff (trimStart_trim key) hword

theorem Qualifier.not_allBlank_of_ofToken {token : List Char} {q : Qualifier}
    (h : ofToken token = .ok q) : ¬ allBlank token := by
  intro hblank
  have hblank : ∀ c ∈ token, isBlank c := List.all_eq_true.1 hblank
  have htrim : trim token = [] := by
    rw [trim, trimStart, List.dropWhile_eq_nil_iff.2 hblank]
    rfl
  cases readFrom_of_ofToken h with
  | current _ hcurrent =>
    rw [htrim] at hcurrent
    cases hcurrent.length_le
  | keyword _ _ hword =>
    rw [htrim] at hword
    cases hword
  | assignment htoken _ =>
    have hmem : '=' ∈ token := htoken ▸ List.mem_append_right _ List.mem_cons_self
    exact absurd (hblank '=' hmem) (by decide)

/-! ## First levels -/

namespace Level

/-- What a level is read from, the mark for direct children set aside. -/
def body (level : Level) : List Char :=
  (stripFpsm level.raw.toList).2

def firstToken (body : List Char) : List Char :=
  match cutAt separator body with
  | none => body
  | some (first, _) => first

def firstIsCurrent (level : Level) : Bool :=
  level.qualifiers.head?.any fun q => q.kind == .current

/-- The text of a level begins with `current` just when its first qualifier is a `Current`. -/
def OpensAsRead (level : Level) : Prop :=
  BeginsCurrent level.body ↔ level.firstIsCurrent

instance (level : Level) : Decidable level.OpensAsRead :=
  inferInstanceAs (Decidable (_ ↔ _))

theorem beginsCurrent_firstToken (body : List Char) :
    BeginsCurrent (firstToken body) ↔ BeginsCurrent body := by
  rw [firstToken]
  rcases hcut : cutAt separator body with _ | ⟨first, rest⟩
  · rfl
  · rw [cutAt_eq_some hcut]
    exact (beginsCurrent_append (by decide) (by decide) first rest).symm

theorem splitOn_eq_firstToken (body : List Char) :
    ∃ rest, body.splitOn separator = firstToken body :: rest := by
  rw [firstToken]
  rcases hcut : cutAt separator body with _ | ⟨first, rest⟩
  · exact ⟨[], List.splitOn_eq_singleton (cutAt_eq_none.1 hcut)⟩
  · exact ⟨_, splitOn_of_cutAt hcut⟩

/-- So it is if the first token is a qualifier. -/
theorem opensAsRead_of_firstToken {raw : List Char} {q : Qualifier}
    (h : Qualifier.ofToken (firstToken (ofChars raw).body) = .ok q) :
    (ofChars raw).OpensAsRead := by
  have hbody : (ofChars raw).body = (stripFpsm raw).2 := by
    rw [body, ofChars, String.toList_ofList]
  obtain ⟨rest, hsplit⟩ := splitOn_eq_firstToken (ofChars raw).body
  have hfirst : (ofChars raw).qualifiers.head? = some q := by
    have htokens : tokens (stripFpsm raw).2
        = firstToken (ofChars raw).body :: rest.filter fun token => !allBlank token := by
      rw [tokens, ← hbody, hsplit, List.filter_cons_of_pos]
      simpa using Qualifier.not_allBlank_of_ofToken h
    change (accepted ((tokens (stripFpsm raw).2).map Qualifier.ofToken)).head? = some q
    rw [htokens, List.map_cons, h]
    rfl
  rw [OpensAsRead, firstIsCurrent, hfirst, ← beginsCurrent_firstToken,
    ← Qualifier.kind_eq_current_iff h, Option.any_some, beq_iff_eq]

-- a blank token, or one that is dropped, may hide what the first qualifier is
example : ¬ (ofText ";CurrentWindow").OpensAsRead := by decide +kernel

example : ¬ (ofText "Currently=1;Class=Button").OpensAsRead := by decide +kernel

/-- In the canonical text of a level the first token is its first qualifier. -/
theorem Written.opensAsRead_normal {level : Level} (h : level.Written) (husable : level.usable) :
    level.normal.OpensAsRead := by
  obtain ⟨raw, fpsm, _ | ⟨q, rest⟩, dropped⟩ := level
  · cases husable
  have hbody : (ofChars (render ⟨raw, fpsm, q :: rest, dropped⟩)).body
      = [separator].intercalate ((q :: rest).map Qualifier.render) := by
    rw [body, ofChars, String.toList_ofList, stripFpsm_render h]
  have hfirst : firstToken ([separator].intercalate ((q :: rest).map Qualifier.render))
      = q.render := by
    obtain ⟨tokens, hsplit⟩ :=
      splitOn_eq_firstToken ([separator].intercalate ((q :: rest).map Qualifier.render))
    rw [List.splitOn_intercalate] at hsplit
    · exact (List.cons.inj hsplit).1.symm
    · exact List.forall_mem_map.2 fun q hq => (h q hq).whole
    · exact List.cons_ne_nil _ _
  rw [← ofChars_render h]
  refine opensAsRead_of_firstToken (q := q) ?_
  rw [hbody, hfirst]
  exact (h q List.mem_cons_self).reads

end Level

/-- Both spellings of a path have the same first level to search for, if the path opens as it is
read. -/
theorem Chain.firstSearched_normal {path : String} {chain : Chain}
    (hchain : Engine.readPath path = .ok chain) (hopens : chain.first.OpensAsRead) :
    Engine.firstSearched {} chain.normal = Engine.firstSearched {} chain := by
  obtain ⟨-, -, husable⟩ := readPath_eq_ok.1 hchain
  have hnormal : chain.normal.first.OpensAsRead :=
    (Chain.written_levels hchain _ List.mem_cons_self).opensAsRead_normal
      (husable _ List.mem_cons_self)
  have hsame : BeginsCurrent chain.normal.first.body ↔ BeginsCurrent chain.first.body :=
    hnormal.trans hopens.symm
  rw [← Settings.isTopLevelSentinel_default, ← Settings.isTopLevelSentinel_default] at hsame
  unfold Engine.firstSearched
  simp only [Level.body] at hsame
  simp only [hsame]

theorem Chain.counterpart_normal (chain : Chain) :
    chain.Counterpart LevelMatch.counters 0 chain.normal where
  meaning := by
    rw [normal_levels, List.map_map]
    rfl
  shown := by
    rw [normal_levels, List.map_map]
    rfl

/-! ## What is located -/

/-- A single pass locates the same root by a path and by its canonical text, through levels with the
same counts. It locates the same descendant by both, if the path opens as it is read. -/
theorem canonical_locates {tree : Snapshot} (hlisted : tree.unlisted = false) {path : String}
    {chain : Chain} (hchain : Engine.readPath path = .ok chain) (timeoutSecs : Nat)
    (time later : Clock) :
    (∃ outcome again,
      ((tree.engine {}).handle tree.world (.root path timeoutSecs true) time).1 = .ok outcome
      ∧ ((tree.engine {}).handle tree.world (.root chain.canonical timeoutSecs true) later).1
        = .ok again
      ∧ outcome.SameBy LevelMatch.counters again)
    ∧ (chain.first.OpensAsRead → ∀ root rootChain, Engine.readPath root = .ok rootChain →
      ∃ outcome again,
        ((tree.engine {}).handle tree.world (.descendant root path timeoutSecs true) time).1
          = .ok outcome
        ∧ ((tree.engine {}).handle tree.world
          (.descendant root chain.canonical timeoutSecs true) later).1 = .ok again
        ∧ outcome.SameBy LevelMatch.counters again) := by
  have hcanonical := Chain.readPath_canonical hchain
  have hanswer : ∀ {request : Request} {time : Clock}, request.singlePass = true →
      ((tree.engine {}).fresh.handle tree.world request time).1
        = (tree.engine {}).once tree.answer request := fun hsingle =>
    Engine.fresh_handle (tree.world_answers _) hsingle
  have hfresh : (tree.engine {}).fresh = tree.engine {} := rfl
  rw [hfresh] at hanswer
  have hreach : tree.height ≤ (tree.engine {}).reach := Nat.le_refl _
  refine ⟨?_, fun hopens root rootChain hroot => ?_⟩
  · rw [hanswer rfl, hanswer rfl, Engine.once_root hchain, Engine.once_root hcanonical]
    obtain ⟨outcome, houtcome, -⟩ := Engine.rootOnce_ok hlisted hreach chain timeoutSecs
    have hsame := (tree.engine {}).rootOnce_same tree.answer chain.counterpart_normal timeoutSecs
    exact hsame.exists_of_both ⟨outcome, houtcome⟩
  · rw [hanswer rfl, hanswer rfl]
    have hfirst : Engine.firstSearched (tree.engine {}).settings chain
        = 0 + Engine.firstSearched (tree.engine {}).settings chain.normal := by
      rw [Nat.zero_add]
      exact (Chain.firstSearched_normal hchain hopens).symm
    have hsame := (tree.engine {}).once_descendant_same tree.answer hchain hcanonical
      chain.counterpart_normal hfirst hroot timeoutSecs true
    exact hsame.exists_of_both
      (Engine.once_descendant_ok hlisted hreach hchain hroot timeoutSecs true)

/-- A window by a path with a key in another case and a token that is dropped, and its button by one
with blank tokens besides. -/
theorem canonical_locates_window :
    (∃ outcome again,
      ((windowTree.engine {}).handle windowTree.world (.root " CLASS =Window;bogus" 0 true) {}).1
        = .ok outcome
      ∧ ((windowTree.engine {}).handle windowTree.world (.root "Class=Window" 0 true) {}).1
        = .ok again
      ∧ outcome.SameBy LevelMatch.counters again
      ∧ outcome.located?.map (·.element) = some ⟨[0]⟩)
    ∧ ∃ outcome again,
      ((windowTree.engine {}).handle windowTree.world
        (.descendant "Class=Window" "class =Button; ;bogus;ObjectIndex=2" 0 true) {}).1
          = .ok outcome
      ∧ ((windowTree.engine {}).handle windowTree.world
        (.descendant "Class=Window" "Class=Button;ObjectIndex=2" 0 true) {}).1 = .ok again
      ∧ outcome.SameBy LevelMatch.counters again
      ∧ outcome.located?.map (·.element) = some ⟨[0, 0, 0]⟩ := by
  have hwindow : Engine.readPath " CLASS =Window;bogus"
      = .ok ⟨" CLASS =Window;bogus", Level.ofText " CLASS =Window;bogus", []⟩ := by decide +kernel
  have hbutton : Engine.readPath "class =Button; ;bogus;ObjectIndex=2"
      = .ok ⟨"class =Button; ;bogus;ObjectIndex=2",
        Level.ofText "class =Button; ;bogus;ObjectIndex=2", []⟩ := by decide +kernel
  have hroot : Engine.readPath "Class=Window"
      = .ok ⟨"Class=Window", Level.ofText "Class=Window", []⟩ := by decide +kernel
  have hopens : (Level.ofText "class =Button; ;bogus;ObjectIndex=2").OpensAsRead :=
    Level.opensAsRead_of_firstToken (q := { kind := .className, value := "Button" })
      (by decide +kernel)
  have hlisted : windowTree.unlisted = false := rfl
  refine ⟨?_, ?_⟩
  · obtain ⟨outcome, again, houtcome, hagain, hsame⟩ :=
      (canonical_locates hlisted hwindow 0 {} {}).1
    refine ⟨outcome, again, houtcome, hagain, hsame, ?_⟩
    rw [Engine.elementOf_of_ok houtcome]
    decide +kernel
  · obtain ⟨outcome, again, houtcome, hagain, hsame⟩ :=
      (canonical_locates hlisted hbutton 0 {} {}).2 hopens _ _ hroot
    refine ⟨outcome, again, houtcome, hagain, hsame, ?_⟩
    rw [Engine.elementOf_of_ok houtcome]
    decide +kernel

/-- With a blank token before the first qualifier a first level is searched for and not found. In
the canonical text it is set aside, and the button is found. -/
theorem canonical_sets_aside :
    (∃ chain, Engine.readPath ";CurrentWindow;\\;Class=Button" = .ok chain
      ∧ chain.canonical = "CurrentWindow;\\;Class=Button")
    ∧ ((windowTree.engine {}).handle windowTree.world
        (.descendant "Class=Window" ";CurrentWindow;\\;Class=Button" 0 true) {}).1
      = .ok (.notFound ⟨";CurrentWindow;\\;Class=Button", 0, 0, 1⟩)
    ∧ Engine.elementOf ((windowTree.engine {}).handle windowTree.world
        (.descendant "Class=Window" "CurrentWindow;\\;Class=Button" 0 true) {}).1
      = some ⟨[0, 0, 0]⟩ := by
  have hread : Engine.readPath ";CurrentWindow;\\;Class=Button"
      = .ok ⟨";CurrentWindow;\\;Class=Button", Level.ofText ";CurrentWindow",
        [Level.ofText "Class=Button"]⟩ := by decide +kernel
  exact ⟨⟨_, hread, by decide +kernel⟩, by decide +kernel, by decide +kernel⟩

end Locator
