import Locator.Proofs.JoinedLevels
import Locator.Proofs.Spellings
import Locator.Proofs.Refusing

/-!
# Which texts are accepted

A text is divided at the separators of levels in one way only, if each piece is to end where the
first separator after its beginning begins (`Divided.eq_pieces`). It is read as a chain just when
each piece has, behind an optional sentinel, a token that is recognized. Then the levels are the
pieces, so that no text is lost. Otherwise the first piece without such a token is what the error
is about (`accepted_pieces`).
-/

namespace Locator

open Text

/-! ## Pieces -/

/-- The pieces of a text between separators of levels, which are looked for from left to right and
do not overlap. -/
inductive Divided : List Char → List (List Char) → Prop
  | whole {text : List Char} (h : ¬ childSeparator.toList <:+: text) : Divided text [text]
  | cut {piece after : List Char} {pieces : List (List Char)}
      (hfirst : ∀ b a, piece ++ childSeparator.toList ++ after = b ++ childSeparator.toList ++ a →
        piece.length ≤ b.length)
      (hrest : Divided after pieces) :
      Divided (piece ++ childSeparator.toList ++ after) (piece :: pieces)

namespace Divided

variable {text : List Char} {pieces : List (List Char)}

theorem eq_split (h : Divided text pieces) :
    pieces = (splitLevels text).1 :: (splitLevels text).2 := by
  induction h with
  | @whole text h =>
    rw [splitLevels_of_uncut]
    exact fun b a heq => h ⟨b, a, heq.symm⟩
  | cut hfirst _ ih => rw [splitLevels_append _ _ hfirst, ih]

/-- A character in front of a text belongs to its first piece, unless a separator begins there. -/
theorem cons {c : Char} {piece : List Char} (hc : ¬ childSeparator.toList <+: c :: text)
    (h : Divided text (piece :: pieces)) : Divided (c :: text) ((c :: piece) :: pieces) := by
  cases h with
  | whole h => exact .whole (List.infix_cons_iff.not.2 (not_or.2 ⟨hc, h⟩))
  | @cut _ after _ hfirst hrest =>
    refine @Divided.cut (c :: piece) after _ (fun b a heq => ?_) hrest
    rcases b with _ | ⟨x, b⟩
    · exact absurd ⟨a, heq.symm⟩ hc
    · exact Nat.succ_le_succ (hfirst b a (List.cons.inj heq).2)

theorem split (text : List Char) : Divided text ((splitLevels text).1 :: (splitLevels text).2) := by
  fun_induction splitLevels text with
  | case1 => exact .whole (by decide)
  | case2 rest piece pieces h ih =>
    rw [h] at ih
    exact @Divided.cut [] rest _ (fun b _ _ => Nat.zero_le b.length) ih
  | case3 c rest hc piece pieces h ih =>
    rw [h] at ih
    refine ih.cons ?_
    rintro ⟨after, heq⟩
    obtain ⟨rfl, hrest⟩ := List.cons.inj heq
    exact hc after rfl hrest.symm

theorem eq_pieces {path : String} : Divided path.toList pieces ↔ pieces = Locator.pieces path := by
  refine ⟨eq_split, ?_⟩
  rintro rfl
  exact split path.toList

theorem joined (h : Divided text pieces) : joinLevels pieces = text := by
  induction h with
  | whole _ => exact List.intercalate_singleton
  | cut _ hrest ih =>
    rcases hpieces : hrest.eq_split with rfl
    rw [joinLevels] at ih ⊢
    rw [List.intercalate_cons_cons, ih]

theorem not_infix (h : Divided text pieces) :
    ∀ piece ∈ pieces, ¬ childSeparator.toList <:+: piece := by
  induction h with
  | whole h => exact List.forall_mem_singleton.2 h
  | @cut piece after _ hfirst _ ih =>
    refine List.forall_mem_cons.2 ⟨?_, ih⟩
    rintro ⟨b, a, rfl⟩
    -- the separator in the piece begins before the end of the piece
    have hle := hfirst b (a ++ childSeparator.toList ++ after) (by simp only [List.append_assoc])
    simp only [List.length_append] at hle
    have hsize : 0 < childSeparator.toList.length := by decide
    omega

end Divided

/-! ## Tokens -/

namespace Qualifier

/-- A token that is a known key with an equals sign behind it, a word that begins with `current`, or
a known key alone. Blanks around it and ASCII case do not matter. -/
inductive Recognized (token : List Char) : Prop
  | assignment (kind : Kind) {key value : List Char} (htoken : token = key ++ assignment :: value)
      (hfirst : Qualifier.assignment ∉ key)
      (hkey : sameIgnoringCase kind.keyword.toList (trim key))
  | current (hbare : Qualifier.assignment ∉ token)
      (hcurrent : "current".toList <+: (trim token).map Char.toLower)
  | keyword (kind : Kind) (hbare : Qualifier.assignment ∉ token)
      (hkey : sameIgnoringCase kind.keyword.toList (trim token))

theorem Kind.exists_read?_iff {word : List Char} : (∃ kind, read? word = some kind)
    ↔ ∃ kind : Kind, sameIgnoringCase kind.keyword.toList word := by
  rw [← Option.isSome_iff_exists, read?, List.find?_isSome]
  exact ⟨fun ⟨kind, _, h⟩ => ⟨kind, h⟩, fun ⟨kind, h⟩ => ⟨kind, mem_all kind, h⟩⟩

theorem exists_ofWord_iff {word : List Char} : (∃ q, ofWord word = .ok q)
    ↔ "current".toList <+: word.map Char.toLower
      ∨ ∃ kind : Kind, sameIgnoringCase kind.keyword.toList word := by
  rw [← Kind.exists_read?_iff, ofWord]
  split
  next hcurrent =>
    exact iff_of_true ⟨_, rfl⟩ (.inl (List.isPrefixOf_iff_prefix.1 hcurrent))
  next hcurrent =>
    rw [or_iff_right (List.isPrefixOf_iff_prefix.not.1 hcurrent)]
    rcases Kind.read? word with _ | kind <;> simp

theorem exists_ofToken_iff {token : List Char} :
    (∃ q, ofToken token = .ok q) ↔ Recognized token := by
  rcases hcut : cutAt assignment token with _ | ⟨key, value⟩
  · have hbare : assignment ∉ token := cutAt_eq_none.1 hcut
    have hword : ofToken token = ofWord (trim token) := by rw [ofToken, hcut]
    rw [hword, exists_ofWord_iff]
    constructor
    · rintro (hcurrent | ⟨kind, hkey⟩)
      · exact .current hbare hcurrent
      · exact .keyword kind hbare hkey
    · intro h
      cases h with
      | assignment _ htoken =>
        exact absurd (htoken ▸ List.mem_append_right _ List.mem_cons_self) hbare
      | current _ hcurrent => exact .inl hcurrent
      | keyword kind _ hkey => exact .inr ⟨kind, hkey⟩
  · have htoken := cutAt_eq_some hcut
    have hread : (∃ q, ofToken token = .ok q) ↔ ∃ kind, Kind.read? (trim key) = some kind := by
      simp only [ofToken, hcut]
      rcases Kind.read? (trim key) with _ | kind <;> simp
    rw [hread, Kind.exists_read?_iff]
    have hmem : assignment ∈ token := htoken ▸ List.mem_append_right _ List.mem_cons_self
    constructor
    · rintro ⟨kind, hkey⟩
      have hfirst : assignment ∉ key :=
        notMem_of_mem_splitOn (splitOn_of_cutAt hcut ▸ List.mem_cons_self)
      exact .assignment kind htoken hfirst hkey
    · intro h
      cases h with
      | assignment kind htoken' hfirst hkey =>
        rw [htoken', cutAt_append hfirst] at hcut
        cases hcut
        exact ⟨kind, hkey⟩
      | current hbare _ => exact absurd hmem hbare
      | keyword _ hbare _ => exact absurd hmem hbare

end Qualifier

/-! ## Levels -/

namespace Level

/-- What a level says behind its mark, if it has one. -/
inductive Body (text : List Char) : List Char → Prop
  | marked {head body : List Char} (htext : trimStart text = head ++ body)
      (halike : sameIgnoringCase head fpsmSentinel.toList) : Body text body
  | plain (h : ¬ Marked text) : Body text text

theorem body_iff {text body : List Char} : Body text body ↔ body = (stripFpsm text).2 := by
  constructor
  · intro h
    cases h with
    | marked htext halike => rw [stripFpsm_of_alike htext halike]
    | plain h => rw [stripFpsm_of_not_marked h]
  · rintro rfl
    by_cases h : Marked text
    · obtain ⟨head, ⟨rest, htext⟩, halike⟩ := h
      rw [stripFpsm_of_alike htext.symm halike]
      exact .marked htext.symm halike
    · rw [stripFpsm_of_not_marked h]
      exact .plain h

/-- Behind an optional mark there is a token that is recognized. -/
def Constrains (text : List Char) : Prop :=
  ∃ body, Body text body ∧ ∃ token ∈ body.splitOn separator, Qualifier.Recognized token

theorem usable_iff {text : List Char} : (ofChars text).usable ↔ Constrains text := by
  have hbody : Constrains text
      ↔ ∃ token ∈ (stripFpsm text).2.splitOn separator, Qualifier.Recognized token := by
    simp only [Constrains, body_iff, exists_eq_left]
  have hany : (ofChars text).usable ↔ ∃ q, q ∈ (ofChars text).qualifiers := by
    simp [usable, List.eq_nil_iff_forall_not_mem]
  rw [hbody, hany]
  simp only [ofChars, mem_accepted, List.mem_map, tokens, List.mem_filter]
  constructor
  · rintro ⟨q, token, ⟨htoken, -⟩, hread⟩
    exact ⟨token, htoken, Qualifier.exists_ofToken_iff.1 ⟨q, hread⟩⟩
  · rintro ⟨token, htoken, hrecognized⟩
    obtain ⟨q, hread⟩ := Qualifier.exists_ofToken_iff.2 hrecognized
    have hnotBlank := Qualifier.not_allBlank_of_ofToken hread
    exact ⟨q, token, ⟨htoken, by simpa using hnotBlank⟩, hread⟩

end Level

/-! ## Faults -/

namespace Chain

variable {number : Nat} {raws : List (List Char)} {fault : PathFault}

theorem readLevel_eq_error {raw : List Char} : readLevel number raw = .error fault
    ↔ ¬ Level.Constrains raw ∧ fault = levelFault number raw := by
  rw [← Level.usable_iff]
  simp only [readLevel]
  by_cases h : (Level.ofChars raw).usable
  · simp [h]
  · simp [h, eq_comm]

/-- Levels are refused because of the first that is unusable. -/
theorem readLevels_eq_error (h : readLevels number raws = .error fault) :
    ∃ before raw after, raws = before ++ raw :: after
      ∧ (∀ earlier ∈ before, Level.Constrains earlier) ∧ ¬ Level.Constrains raw
      ∧ fault = levelFault (number + before.length) raw := by
  induction raws generalizing number with
  | nil => cases h
  | cons first raws ih =>
    rcases bind_eq_error.1 h with hraw | ⟨level, hraw, hlater⟩
    · obtain ⟨hfirst, rfl⟩ := readLevel_eq_error.1 hraw
      exact ⟨[], first, raws, rfl, nofun, hfirst, rfl⟩
    · obtain ⟨rfl, husable⟩ := readLevel_eq_ok.1 hraw
      rcases bind_eq_error.1 hlater with hrest | ⟨levels, -, ⟨⟩⟩
      obtain ⟨before, raw, after, rfl, hbefore, hraw, rfl⟩ := ih hrest
      refine ⟨first :: before, raw, after, rfl,
        List.forall_mem_cons.2 ⟨Level.usable_iff.1 husable, hbefore⟩, hraw, ?_⟩
      rw [List.length_cons, Nat.add_assoc, Nat.add_comm 1]

theorem ofText_eq_error {path : String} (hblank : ¬ allBlank path.toList)
    (h : ofText path = .error fault) : readLevels 1 (pieces path) = .error fault := by
  rw [ofText, if_neg hblank] at h
  refine bind_eq_error.2 ?_
  rcases bind_eq_error.1 h with hfirst | ⟨first, hfirst, hlater⟩
  · exact .inl hfirst
  · rcases bind_eq_error.1 hlater with hrest | ⟨rest, -, ⟨⟩⟩
    exact .inr ⟨first, hfirst, bind_eq_error.2 (.inl hrest)⟩

end Chain

/-- The two faults of a level are told apart by what is said of them. -/
theorem PathFault.message_emptyLevel_ne (number other : Nat) (raw : String) :
    (emptyLevel number).message ≠ (unusableLevel other raw).message := by
  intro h
  have hempty : (emptyLevel number).message.toList.getLast? = some 'y' := by
    simp only [message, String.toList_append, List.getLast?_append]
    rfl
  have hunusable : (unusableLevel other raw).message.toList.getLast? = some 'r' := by
    simp only [message, String.toList_append, List.getLast?_append]
    rfl
  rw [h, hunusable] at hempty
  cases hempty

/-! ## Texts -/

theorem exists_readPath_iff {path : String} : (∃ chain, Engine.readPath path = .ok chain)
    ↔ ¬ allBlank path.toList ∧ ∀ piece ∈ pieces path, Level.Constrains piece := by
  constructor
  · rintro ⟨chain, hchain⟩
    obtain ⟨-, hlevels, husable⟩ := readPath_eq_ok.1 hchain
    rw [hlevels] at husable
    refine ⟨fun hblank => ?_, fun piece hpiece =>
      Level.usable_iff.1 (husable _ (List.mem_map_of_mem hpiece))⟩
    rw [Engine.readPath, mapError_eq_ok, Chain.ofText, if_pos hblank] at hchain
    cases hchain
  · rintro ⟨-, hconstrains⟩
    have husable : ∀ level ∈ (pieces path).map Level.ofChars, level.usable :=
      List.forall_mem_map.2 fun piece hpiece => Level.usable_iff.2 (hconstrains piece hpiece)
    exact ⟨⟨path, Level.ofChars (splitLevels path.toList).1,
      (splitLevels path.toList).2.map Level.ofChars⟩, readPath_eq_ok.2 ⟨rfl, rfl, husable⟩⟩

theorem raws_eq_pieces {path : String} {chain : Chain} (h : Engine.readPath path = .ok chain) :
    chain.levels.map (fun level => level.raw.toList) = pieces path := by
  obtain ⟨-, hlevels, -⟩ := readPath_eq_ok.1 h
  have hraw : ∀ piece, (Level.ofChars piece).raw.toList = piece := fun _ => String.toList_ofList
  simp only [hlevels, List.map_map, Function.comp_def, hraw, List.map_id']

/-- A text is a chain just when it is not blank and each of its pieces has a token that is
recognized. Then the levels have the pieces as their texts, from which the text is got back, and no
level has a separator in it. A text that is not blank is otherwise refused for the first piece
without such a token, which is called empty just when it is blank behind its mark. -/
theorem accepted_pieces (path : String) :
    ∃ pieces, (∀ other, Divided path.toList other ↔ other = pieces)
      ∧ ((∃ chain, Engine.readPath path = .ok chain)
        ↔ ¬ allBlank path.toList ∧ ∀ piece ∈ pieces, Level.Constrains piece)
      ∧ (∀ chain, Engine.readPath path = .ok chain →
        chain.levels.map (fun level => level.raw.toList) = pieces
          ∧ joinLevels (chain.levels.map fun level => level.raw.toList) = path.toList
          ∧ ∀ level ∈ chain.levels, ¬ childSeparator.toList <:+: level.raw.toList)
      ∧ ∀ error, Engine.readPath path = .error error → ¬ allBlank path.toList →
        ∃ before piece after body reason, pieces = before ++ piece :: after
          ∧ (∀ earlier ∈ before, Level.Constrains earlier) ∧ ¬ Level.Constrains piece
          ∧ error = .malformedPath path reason ∧ Level.Body piece body
          ∧ (reason = s!"level {before.length + 1} is empty" ↔ allBlank body)
          ∧ (reason
              = s!"level {before.length + 1} ('{String.ofList piece}') has no recognized qualifier"
            ↔ ¬ allBlank body) := by
  refine ⟨pieces path, fun other => Divided.eq_pieces, exists_readPath_iff, ?_, ?_⟩
  · intro chain hchain
    have hdivided : Divided path.toList (pieces path) := Divided.eq_pieces.2 rfl
    rw [← raws_eq_pieces hchain] at hdivided
    exact ⟨raws_eq_pieces hchain, hdivided.joined,
      fun level hlevel => hdivided.not_infix _ (List.mem_map_of_mem hlevel)⟩
  · intro error herror hblank
    obtain ⟨fault, hfault, rfl⟩ := Engine.readPath_eq_error.1 herror
    obtain ⟨before, piece, after, hpieces, hbefore, hpiece, hlevel⟩ :=
      Chain.readLevels_eq_error (Chain.ofText_eq_error hblank hfault)
    refine ⟨before, piece, after, _, _, hpieces, hbefore, hpiece, rfl, Level.body_iff.2 rfl, ?_⟩
    rw [hlevel, Nat.add_comm, Chain.levelFault]
    have hne := PathFault.message_emptyLevel_ne (before.length + 1) (before.length + 1)
      (String.ofList piece)
    split
    next hempty => exact ⟨iff_of_true rfl hempty, iff_of_false hne (not_not.2 hempty)⟩
    next hempty => exact ⟨iff_of_false hne.symm hempty, iff_of_true rfl hempty⟩

/-- Tokens of all three forms, and two separators that overlap: the second is part of a level. -/
theorem accepted_pieces_overlap :
    let path := " :fpsm:nope; id =3;\\;CURRENTx;\\; INDEX "
    let overlap := "Class=A;\\;\\;x"
    (∃ chain, Engine.readPath path = .ok chain
        ∧ joinLevels (chain.levels.map fun level => level.raw.toList) = path.toList
        ∧ ∀ level ∈ chain.levels, ¬ childSeparator.toList <:+: level.raw.toList)
      ∧ Engine.readPath overlap
        = .error (.malformedPath overlap "level 2 ('\\;x') has no recognized qualifier")
      ∧ ∃ before piece after, Divided overlap.toList (before ++ piece :: after)
        ∧ (∀ earlier ∈ before, Level.Constrains earlier) ∧ ¬ Level.Constrains piece := by
  intro path overlap
  constructor
  · have hreadable : (Engine.readPath path).isOk := by decide +kernel
    rcases hchain : Engine.readPath path with error | chain
    · rw [hchain] at hreadable
      cases hreadable
    obtain ⟨pieces, -, -, hlevels, -⟩ := accepted_pieces path
    exact ⟨chain, rfl, (hlevels chain hchain).2⟩
  · have hrefused : Engine.readPath overlap
        = .error (.malformedPath overlap "level 2 ('\\;x') has no recognized qualifier") := by
      decide +kernel
    obtain ⟨pieces, hpieces, -, -, hfault⟩ := accepted_pieces overlap
    obtain ⟨before, piece, after, -, -, rfl, hbefore, hpiece, -⟩ :=
      hfault _ hrefused (by decide +kernel)
    exact ⟨hrefused, before, piece, after, (hpieces _).2 rfl, hbefore, hpiece⟩

end Locator
