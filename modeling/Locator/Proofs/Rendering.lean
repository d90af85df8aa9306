import Locator.Proofs.Chains
import Locator.Proofs.Texts
import Mathlib.Data.List.Chain

/-!
# Reading what is rendered

The canonical text of a chain is read as a chain of the same meaning, whatever the text looked like
that the chain was read from (`canonical_round_trip`). What carries this is how a qualifier that was
read is written (`Qualifier.Written`): with a letter first and without a separator of levels, so
that neither a token nor a level ends before it should.
-/

namespace Locator

open Text

/-! ## Qualifiers -/

namespace Qualifier

/-- How a qualifier is read from a token: from a word that begins with `current`, from a keyword, or
from a key and a value. -/
inductive ReadFrom (token : List Char) : Qualifier → Prop
  | current (hbare : assignment ∉ token)
      (hcurrent : "current".toList <+: (trim token).map Char.toLower) :
      ReadFrom token { kind := .current, value := String.ofList (trim token), bare := true }
  | keyword {kind : Kind} (hbare : assignment ∉ token)
      (hcurrent : ¬ "current".toList <+: (trim token).map Char.toLower)
      (hread : Kind.read? (trim token) = some kind) :
      ReadFrom token { kind, value := "", bare := true }
  | assignment {kind : Kind} {key value : List Char} (htoken : token = key ++ '=' :: value)
      (hread : Kind.read? (trim key) = some kind) :
      ReadFrom token { kind, value := String.ofList value }

theorem readFrom_of_ofToken {token : List Char} {q : Qualifier} (h : ofToken token = .ok q) :
    ReadFrom token q := by
  rw [ofToken] at h
  rcases hcut : cutAt assignment token with _ | ⟨key, value⟩ <;> rw [hcut] at h
  · have hbare : assignment ∉ token := cutAt_eq_none.1 hcut
    change ofWord (trim token) = _ at h
    rw [ofWord] at h
    split at h
    · next hcurrent =>
      cases h
      exact .current hbare (List.isPrefixOf_iff_prefix.1 hcurrent)
    · next hcurrent =>
      rw [List.isPrefixOf_iff_prefix] at hcurrent
      rcases hread : Kind.read? (trim token) with _ | kind <;> rw [hread] at h
      · cases h
      · cases h
        exact .keyword hbare hcurrent hread
  · rcases hread : Kind.read? (trim key) with _ | kind <;> simp only [hread] at h
    · cases h
    · cases h
      exact .assignment (cutAt_eq_some hcut) hread

/-- A qualifier that is read back from its canonical text, which begins with a letter and holds no
separator. -/
structure Written (q : Qualifier) : Prop where
  reads : ofToken q.render = .ok q
  whole : Level.separator ∉ q.render
  letter : ∃ c s, q.render = c :: s ∧ c.isAlpha

theorem Kind.sameIgnoringCase_of_read? {word : List Char} {kind : Kind}
    (h : Kind.read? word = some kind) : sameIgnoringCase kind.keyword.toList word :=
  List.find?_some (p := fun kind : Kind => sameIgnoringCase kind.keyword.toList word) h

theorem Kind.keyword_letter (kind : Kind) :
    ∃ c s, kind.keyword.toList = c :: s ∧ c.isAlpha := by
  cases kind <;> exact ⟨_, _, rfl, by decide⟩

theorem Kind.separator_notMem_keyword (kind : Kind) : Level.separator ∉ kind.keyword.toList := by
  cases kind <;> decide

theorem Written.of_assignment {kind : Kind} {value : String} (h : Level.separator ∉ value.toList) :
    Written { kind, value } where
  reads := ofToken_keyword kind value
  whole hmem := by
    rcases List.mem_append.1 hmem with hmem | hmem
    · exact kind.separator_notMem_keyword hmem
    · exact h ((List.mem_cons.1 hmem).resolve_left (by decide))
  letter := by
    obtain ⟨c, s, hkeyword, hc⟩ := kind.keyword_letter
    exact ⟨c, s ++ assignment :: value.toList, by simp only [render, hkeyword]; rfl, hc⟩

/-- A word that begins with `current` is read as it stands. -/
theorem Written.of_current {word : List Char}
    (hcurrent : "current".toList <+: word.map Char.toLower) (htrim : trim word = word)
    (hassignment : assignment ∉ word) (hseparator : Level.separator ∉ word) :
    Written { kind := .current, value := String.ofList word, bare := true } := by
  obtain ⟨c, s, rfl, hc⟩ : ∃ c s, word = c :: s ∧ c.toLower = 'c' := by
    rcases word with _ | ⟨c, s⟩
    · cases hcurrent.length_le
    · exact ⟨c, s, rfl, (List.cons_prefix_cons.1 hcurrent).1.symm⟩
  have hrender : render ⟨.current, String.ofList (c :: s), true⟩ = c :: s := by
    simp [render]
  refine ⟨?_, by rwa [hrender], c, s, hrender, ?_⟩
  · rw [hrender, ofToken, cutAt_eq_none.2 hassignment]
    simp only [htrim, ofWord, List.isPrefixOf_iff_prefix.2 hcurrent, if_true]
  · have hcode := toNat_toLower c
    rw [hc, show 'c'.toNat = 0x63 by decide] at hcode
    rw [isAlpha_iff]
    split at hcode <;> omega

/-- A keyword other than `Current` is read as it stands. -/
theorem Written.of_keyword {kind : Kind} (h : kind ≠ .current) :
    Written { kind, value := "", bare := true } where
  reads := by
    revert h
    cases kind <;> decide
  whole := kind.separator_notMem_keyword
  letter := kind.keyword_letter

/-- Whatever a token looked like, the qualifier that it was read as is well written. -/
theorem Written.of_ofToken {token : List Char} {q : Qualifier} (h : ofToken token = .ok q)
    (hseparator : Level.separator ∉ token) : q.Written := by
  cases readFrom_of_ofToken h with
  | current hbare hcurrent =>
    exact .of_current hcurrent (trim_trim token) (fun hmem => hbare (mem_of_mem_trim hmem))
      (fun hmem => hseparator (mem_of_mem_trim hmem))
  | keyword hbare hcurrent hread =>
    refine .of_keyword ?_
    rintro rfl
    -- the keyword of a `Current` begins with `current`
    have hsame := sameIgnoringCase_iff.1 (Kind.sameIgnoringCase_of_read? hread)
    exact hcurrent (by rw [← hsame]; decide)
  | assignment htoken hread =>
    refine .of_assignment fun hmem => hseparator ?_
    rw [String.toList_ofList] at hmem
    rw [htoken]
    exact List.mem_append_right _ (List.mem_cons_of_mem _ hmem)

end Qualifier

/-! ## Levels -/

namespace Level

theorem stripFpsm_sentinel (body : List Char) :
    stripFpsm (fpsmSentinel.toList ++ body) = (true, body) := by
  have htrim : trimStart (fpsmSentinel.toList ++ body) = fpsmSentinel.toList ++ body :=
    trimStart_cons_of_not_blank (by decide) _
  simp only [stripFpsm, htrim]
  rw [List.take_left' (String.length_toList), List.drop_left' (String.length_toList)]
  simp

/-- The sentinel does not begin with a letter. -/
theorem stripFpsm_letter {c : Char} (hc : c.isAlpha) (s : List Char) :
    stripFpsm (c :: s) = (false, c :: s) := by
  have hne : c.toLower ≠ ':' := by
    intro h
    have hcode := toNat_toLower c
    rw [h, show ':'.toNat = 0x3A by decide] at hcode
    rw [isAlpha_iff] at hc
    split at hcode <;> omega
  have hsentinel : ¬ sameIgnoringCase ((c :: s).take fpsmSentinel.length) fpsmSentinel.toList := by
    rw [sameIgnoringCase_iff]
    exact fun h => hne (List.cons.inj h).1
  simp only [stripFpsm, trimStart_cons_of_not_blank (isBlank_of_isAlpha hc), hsentinel,
    Bool.false_eq_true, if_false]

/-- The level as its canonical text is read. -/
def normal (level : Level) : Level :=
  { level with raw := level.canonical, dropped := [] }

def Written (level : Level) : Prop :=
  ∀ q ∈ level.qualifiers, q.Written

theorem accepted_map_ok (qualifiers : List Qualifier) :
    accepted (qualifiers.map .ok) = qualifiers ∧ refused (qualifiers.map .ok) = [] := by
  induction qualifiers with
  | nil => exact ⟨rfl, rfl⟩
  | cons q rest ih =>
    exact ⟨congrArg (q :: ·) ih.1, ih.2⟩

/-- The qualifiers of a level are written in some of its tokens. -/
theorem mem_accepted {readings : List (Except TokenFault Qualifier)} {q : Qualifier} :
    q ∈ accepted readings ↔ .ok q ∈ readings := by
  rw [accepted, List.mem_filterMap]
  constructor
  · rintro ⟨_ | _, hmem, ⟨⟩⟩
    exact hmem
  · exact fun hmem => ⟨_, hmem, rfl⟩

theorem written_ofChars (raw : List Char) : (ofChars raw).Written := by
  intro q hq
  obtain ⟨token, htoken, hreading⟩ := List.mem_map.1 (mem_accepted.1 hq)
  exact Qualifier.Written.of_ofToken hreading (notMem_of_mem_splitOn (List.mem_filter.1 htoken).1)

theorem not_allBlank_render {q : Qualifier} (h : q.Written) : ¬ allBlank q.render := by
  obtain ⟨c, s, hrender, hc⟩ := h.letter
  rw [hrender, allBlank, List.all_cons, isBlank_of_isAlpha hc]
  exact Bool.false_ne_true

/-- The canonical text of a level, the sentinel set aside, has the canonical texts of the qualifiers
as its tokens. -/
theorem tokens_intercalate {qualifiers : List Qualifier} (h : ∀ q ∈ qualifiers, q.Written) :
    tokens ([separator].intercalate (qualifiers.map Qualifier.render))
      = qualifiers.map Qualifier.render := by
  rcases qualifiers with _ | ⟨q, rest⟩
  · rfl
  rw [tokens, List.splitOn_intercalate]
  · rw [List.filter_eq_self, List.forall_mem_map]
    exact fun q hq => by simpa using not_allBlank_render (h q hq)
  · exact List.forall_mem_map.2 fun q hq => (h q hq).whole
  · exact List.cons_ne_nil _ _

theorem intercalate_letter {q : Qualifier} {rest : List Qualifier}
    (h : ∀ q' ∈ q :: rest, q'.Written) :
    ∃ c s, [separator].intercalate ((q :: rest).map Qualifier.render) = c :: s ∧ c.isAlpha := by
  obtain ⟨c, s, hrender, hc⟩ := (h q List.mem_cons_self).letter
  rcases rest with _ | ⟨q', rest⟩
  · exact ⟨c, s, by rw [List.map_singleton, List.intercalate_singleton, hrender], hc⟩
  · refine ⟨c, s ++ [separator] ++ [separator].intercalate ((q' :: rest).map Qualifier.render), ?_,
      hc⟩
    rw [List.map_cons, List.map_cons, List.intercalate_cons_cons, hrender]
    rfl

theorem stripFpsm_render {level : Level} (h : level.Written) :
    stripFpsm level.render
      = (level.fpsm, [separator].intercalate (level.qualifiers.map Qualifier.render)) := by
  obtain ⟨raw, fpsm, qualifiers, dropped⟩ := level
  cases fpsm with
  | true => exact stripFpsm_sentinel _
  | false =>
    rcases qualifiers with _ | ⟨q, rest⟩
    · rfl
    obtain ⟨c, s, hbody, hc⟩ := intercalate_letter h
    change stripFpsm (([] : List Char) ++ _) = _
    rw [List.nil_append, hbody]
    exact stripFpsm_letter hc s

/-- The canonical text of a level is read as the level, with nothing dropped. -/
theorem ofChars_render {level : Level} (h : level.Written) :
    ofChars level.render = level.normal := by
  have hreadings : (tokens ([separator].intercalate (level.qualifiers.map Qualifier.render))).map
      Qualifier.ofToken = level.qualifiers.map .ok := by
    rw [tokens_intercalate h, List.map_map]
    exact List.map_congr_left fun q hq => (h q hq).reads
  simp only [ofChars, stripFpsm_render h, hreadings, accepted_map_ok]
  rfl

theorem normal_meaning (level : Level) : level.normal.meaning = level.meaning := rfl

/-- The canonical text tells what a level that was read asks for. -/
theorem meaning_eq_of_canonical {raw raw' : String}
    (h : (ofText raw).canonical = (ofText raw').canonical) :
    (ofText raw).meaning = (ofText raw').meaning := by
  have hrender : (ofText raw).render = (ofText raw').render := String.ofList_injective h
  calc (ofText raw).meaning = (ofChars (ofText raw).render).meaning := by
        rw [ofText, ofChars_render (written_ofChars _), normal_meaning]
    _ = (ofChars (ofText raw').render).meaning := by rw [hrender]
    _ = (ofText raw').meaning := by
        rw [ofText, ofChars_render (written_ofChars _), normal_meaning]

end Level

/-! ## Chains -/

/-- No separator of qualifiers is followed by a backslash, so that no separator of levels begins
here. -/
abbrev Unbroken : List Char → Prop :=
  List.IsChain fun a b => ¬ (a = ';' ∧ b = '\\')

namespace Unbroken

variable {s t : List Char}

theorem not_broken (h : Unbroken s) : ¬ [';', '\\'] <:+: s := fun hinfix =>
  (List.isChain_cons_cons.1 <| h.infix hinfix).1 ⟨rfl, rfl⟩

theorem append_of_notMem (hs : ';' ∉ s) (ht : Unbroken t) : Unbroken (s ++ t) := by
  induction s with
  | nil => exact ht
  | cons c s ih =>
    rw [List.mem_cons, not_or] at hs
    exact List.isChain_cons.2 ⟨fun _ _ hc => hs.1 hc.1.symm, ih hs.2⟩

theorem append_separator (h : Unbroken s) : Unbroken (s ++ [';']) := by
  refine List.isChain_append.2 ⟨h, .singleton _, fun x _ y hy hxy => ?_⟩
  obtain rfl := Option.mem_some_iff.1 hy
  exact absurd hxy.2 (by decide)

/-- A text ends before a separator of levels that follows it. -/
theorem splitLevels_append (h : Unbroken s) (after : List Char) :
    splitLevels (s ++ childSeparator.toList ++ after)
      = (s, (splitLevels after).1 :: (splitLevels after).2) := by
  refine Locator.splitLevels_append s after fun b a heq => ?_
  by_contra hlt
  rw [not_le] at hlt
  -- a separator that begins in the text has its backslash there, or just behind it
  have hprefix : b ++ [';', '\\'] <+: s ++ [';'] := by
    have hb : b ++ [';', '\\'] <+: s ++ childSeparator.toList ++ after :=
      ⟨';' :: a, by rw [heq]; simp [childSeparator]⟩
    refine List.prefix_of_prefix_length_le hb ?_ ?_
    · exact ⟨'\\' :: ';' :: after, by simp [childSeparator]⟩
    · simp only [List.length_append, List.length_cons, List.length_nil]
      omega
  exact h.append_separator.not_broken ((List.suffix_append b _).isInfix.trans hprefix.isInfix)

end Unbroken

theorem splitLevels_joinLevels : ∀ {first : List Char} {rest : List (List Char)},
    (∀ s ∈ first :: rest, Unbroken s) → splitLevels (joinLevels (first :: rest)) = (first, rest)
  | first, [], h => by
    rw [joinLevels, List.intercalate_singleton]
    refine splitLevels_of_uncut first fun b a heq => ?_
    refine (h first List.mem_cons_self).not_broken ⟨b, ';' :: a, ?_⟩
    rw [heq]
    simp [childSeparator]
  | first, next :: rest, h => by
    obtain ⟨hfirst, hrest⟩ := List.forall_mem_cons.1 h
    have hnext := splitLevels_joinLevels hrest
    rw [joinLevels] at hnext ⊢
    rw [List.intercalate_cons_cons, hfirst.splitLevels_append, hnext]

namespace Level

theorem unbroken_intercalate : ∀ {qualifiers : List Qualifier}, (∀ q ∈ qualifiers, q.Written) →
    Unbroken ([separator].intercalate (qualifiers.map Qualifier.render))
  | [], _ => .nil
  | [q], h => by
    rw [List.map_singleton, List.intercalate_singleton, ← List.append_nil q.render]
    exact .append_of_notMem (h q List.mem_cons_self).whole .nil
  | q :: q' :: rest, h => by
    obtain ⟨hq, hrest⟩ := List.forall_mem_cons.1 h
    obtain ⟨c, s, hbody, hc⟩ := intercalate_letter hrest
    have hunbroken := unbroken_intercalate hrest
    rw [hbody] at hunbroken
    rw [List.map_cons, List.map_cons, List.intercalate_cons_cons, ← List.map_cons, hbody,
      List.append_assoc]
    refine .append_of_notMem hq.whole (List.isChain_cons_cons.2 ⟨fun hslash => ?_, hunbroken⟩)
    rw [hslash.2] at hc
    exact absurd hc (by decide)

theorem Written.unbroken {level : Level} (h : level.Written) : Unbroken level.render := by
  refine .append_of_notMem ?_ (unbroken_intercalate h)
  split <;> decide

end Level

namespace Chain

/-- The chain as its canonical text is read. -/
def normal (chain : Chain) : Chain :=
  { path := chain.canonical, first := chain.first.normal, rest := chain.rest.map Level.normal }

theorem normal_levels (chain : Chain) : chain.normal.levels = chain.levels.map Level.normal := rfl

theorem normal_canonical (chain : Chain) : chain.normal.canonical = chain.canonical := by
  rw [canonical, normal_levels, List.map_map]
  rfl

theorem written_levels {path : String} {chain : Chain} (h : Engine.readPath path = .ok chain) :
    ∀ level ∈ chain.levels, level.Written := by
  obtain ⟨-, hlevels, -⟩ := readPath_eq_ok.1 h
  rw [hlevels]
  exact List.forall_mem_map.2 fun raw _ => Level.written_ofChars raw

theorem pieces_canonical {chain : Chain} (h : ∀ level ∈ chain.levels, level.Written) :
    pieces chain.canonical = chain.levels.map Level.render := by
  have hunbroken : ∀ s ∈ chain.levels.map Level.render, Unbroken s :=
    List.forall_mem_map.2 fun level hlevel => (h level hlevel).unbroken
  have hsplit := splitLevels_joinLevels hunbroken
  rw [pieces, canonical, String.toList_ofList]
  exact congrArg (fun split => split.1 :: split.2) hsplit

theorem readPath_canonical {path : String} {chain : Chain}
    (h : Engine.readPath path = .ok chain) :
    Engine.readPath chain.canonical = .ok chain.normal := by
  have hwritten := written_levels h
  obtain ⟨-, -, husable⟩ := readPath_eq_ok.1 h
  refine readPath_eq_ok.2 ⟨rfl, ?_, ?_⟩
  · rw [pieces_canonical hwritten, List.map_map]
    exact List.map_congr_left fun level hlevel =>
      (Level.ofChars_render (hwritten level hlevel)).symm
  · rw [normal_levels]
    exact List.forall_mem_map.2 husable

end Chain

/-- The canonical text of a chain is read, level by level, as what the chain asks for, with nothing
dropped, and is the canonical text of what is read. So levels that were read and have the same
canonical text ask for the same. -/
theorem canonical_round_trip :
    (∀ path chain, Engine.readPath path = .ok chain →
      ∃ again, Engine.readPath chain.canonical = .ok again
        ∧ again.levels.map Level.meaning = chain.levels.map Level.meaning
        ∧ (∀ level ∈ again.levels, level.dropped = [])
        ∧ again.canonical = chain.canonical)
    ∧ ∀ raw raw', (Level.ofText raw).canonical = (Level.ofText raw').canonical →
      (Level.ofText raw).meaning = (Level.ofText raw').meaning := by
  refine ⟨fun path chain h => ⟨chain.normal, Chain.readPath_canonical h, ?_, ?_,
    chain.normal_canonical⟩, fun raw raw' => Level.meaning_eq_of_canonical⟩
  · rw [Chain.normal_levels, List.map_map]
    rfl
  · rw [Chain.normal_levels]
    exact List.forall_mem_map.2 fun level _ => rfl

/-- A chain with a token that is dropped, one that is blank, keys in other cases, and values with an
equals sign, a colon, a backslash and blanks. -/
theorem canonical_round_trip_spelling :
    (∃ chain again, Engine.readPath "  :fpsm: bogus; ;CLASS =a=b:c\\;\\;index= 2 ; CurrentTab"
        = .ok chain
      ∧ chain.canonical = ":FPSM:Class=a=b:c\\;\\;Index= 2 ;CurrentTab"
      ∧ chain.first.dropped = [.unknownKeyword "bogus"]
      ∧ Engine.readPath chain.canonical = .ok again
      ∧ again.levels.map Level.meaning = chain.levels.map Level.meaning
      ∧ (∀ level ∈ again.levels, level.dropped = [])
      ∧ again.canonical = chain.canonical)
    ∧ (Level.ofText " class =a;bogus").canonical = (Level.ofText "Class=a").canonical
    ∧ (Level.ofText " class =a;bogus").meaning = (Level.ofText "Class=a").meaning := by
  have hread : Engine.readPath "  :fpsm: bogus; ;CLASS =a=b:c\\;\\;index= 2 ; CurrentTab"
      = .ok ⟨"  :fpsm: bogus; ;CLASS =a=b:c\\;\\;index= 2 ; CurrentTab",
        Level.ofText "  :fpsm: bogus; ;CLASS =a=b:c\\",
        [Level.ofText "index= 2 ; CurrentTab"]⟩ := by decide +kernel
  have hsame : (Level.ofText " class =a;bogus").canonical = (Level.ofText "Class=a").canonical := by
    decide +kernel
  obtain ⟨again, hagain, hmeaning, hdropped, hcanonical⟩ := canonical_round_trip.1 _ _ hread
  exact ⟨⟨_, again, hread, by decide +kernel, by decide +kernel, hagain, hmeaning, hdropped,
    hcanonical⟩, hsame, canonical_round_trip.2 _ _ hsame⟩

end Locator
