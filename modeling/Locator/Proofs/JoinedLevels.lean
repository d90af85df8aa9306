import Locator.Proofs.Rendering

/-!
# Levels joined at a separator

A level is read token by token, and what a token stands for does not depend on its neighbours. So
two levels that are joined by `;` are read as the qualifiers and the faults of the one and then
those of the other, with the mark of the first (`ofText_joined`); only a second level that has a
mark of its own is read differently behind another. Between the separators nothing is lost: each
token that is not blank is either a qualifier or a fault, and both stand in the order of the tokens
(`Sifts`).
-/

namespace Locator.Level

open Text

/-! ## The mark -/

/-- The text begins, behind blanks, with the sentinel in some ASCII case. -/
def Marked (text : List Char) : Prop :=
  ∃ head, head <+: trimStart text ∧ sameIgnoringCase head fpsmSentinel.toList

theorem length_of_alike {head : List Char} (h : sameIgnoringCase head fpsmSentinel.toList) :
    head.length = fpsmSentinel.length := by
  have hlengths := congrArg List.length (sameIgnoringCase_iff.1 h)
  rwa [List.length_map, List.length_map] at hlengths

theorem stripFpsm_of_alike {text head rest : List Char} (htext : trimStart text = head ++ rest)
    (h : sameIgnoringCase head fpsmSentinel.toList) : stripFpsm text = (true, rest) := by
  have hlength := length_of_alike h
  simp only [stripFpsm, htext, ← hlength, List.take_left, List.drop_left, h, if_true]

theorem stripFpsm_of_not_marked {text : List Char} (h : ¬ Marked text) :
    stripFpsm text = (false, text) := by
  unfold stripFpsm
  exact if_neg fun halike => h ⟨_, List.take_prefix _ _, halike⟩

theorem notMem_of_alike {head : List Char} (h : sameIgnoringCase head fpsmSentinel.toList) :
    separator ∉ head := by
  intro hmem
  have hlower : separator.toLower ∈ head.map Char.toLower := List.mem_map_of_mem hmem
  rw [sameIgnoringCase_iff.1 h] at hlower
  revert hlower
  decide

theorem stripFpsm_fst_iff {text : List Char} : (stripFpsm text).1 ↔ Marked text := by
  by_cases hmarked : Marked text
  · obtain ⟨head, ⟨rest, htext⟩, halike⟩ := hmarked
    rw [stripFpsm_of_alike htext.symm halike]
    exact iff_of_true rfl ⟨head, ⟨rest, htext⟩, halike⟩
  · simp [stripFpsm_of_not_marked hmarked, hmarked]

instance (text : List Char) : Decidable (Marked text) :=
  decidable_of_iff _ stripFpsm_fst_iff

/-- The sentinel has no separator, so it does not reach over one. -/
theorem marked_joined (first second : List Char) :
    Marked (first ++ separator :: second) ↔ Marked first := by
  refine exists_congr fun head => and_congr_left fun halike => ?_
  rw [trimStart_append_cons (by decide), prefix_append_cons_iff (notMem_of_alike halike)]

theorem stripFpsm_joined (first second : List Char) :
    stripFpsm (first ++ separator :: second)
      = ((stripFpsm first).1, (stripFpsm first).2 ++ separator :: second) := by
  by_cases hmarked : Marked first
  · obtain ⟨head, ⟨rest, hfirst⟩, halike⟩ := hmarked
    have hjoined : trimStart (first ++ separator :: second)
        = head ++ (rest ++ separator :: second) := by
      rw [trimStart_append_cons (by decide), ← hfirst, List.append_assoc]
    rw [stripFpsm_of_alike hfirst.symm halike, stripFpsm_of_alike hjoined halike]
  · rw [stripFpsm_of_not_marked hmarked,
      stripFpsm_of_not_marked ((marked_joined first second).not.2 hmarked)]

/-! ## The tokens -/

theorem tokens_joined (first second : List Char) :
    tokens (first ++ separator :: second) = tokens first ++ tokens second := by
  simp only [tokens, List.splitOn_append_cons_self, List.filter_append]

theorem accepted_append (readings more : List (Except TokenFault Qualifier)) :
    accepted (readings ++ more) = accepted readings ++ accepted more :=
  List.filterMap_append

theorem refused_append (readings more : List (Except TokenFault Qualifier)) :
    refused (readings ++ more) = refused readings ++ refused more :=
  List.filterMap_append

/-- Every token is read on its own, as a qualifier or as a fault, and these are kept in two lists in
the order of the tokens. -/
inductive Sifts : List (List Char) → List Qualifier → List TokenFault → Prop
  | done : Sifts [] [] []
  | keep {token : List Char} {q : Qualifier} {tokens : List (List Char)}
      {qualifiers : List Qualifier} {dropped : List TokenFault}
      (hread : Qualifier.ofToken token = .ok q) (hrest : Sifts tokens qualifiers dropped) :
      Sifts (token :: tokens) (q :: qualifiers) dropped
  | drop {token : List Char} {fault : TokenFault} {tokens : List (List Char)}
      {qualifiers : List Qualifier} {dropped : List TokenFault}
      (hread : Qualifier.ofToken token = .error fault) (hrest : Sifts tokens qualifiers dropped) :
      Sifts (token :: tokens) qualifiers (fault :: dropped)

theorem sifts : ∀ tokens : List (List Char), Sifts tokens
    (accepted (tokens.map Qualifier.ofToken)) (refused (tokens.map Qualifier.ofToken))
  | [] => .done
  | token :: tokens => by
    rcases hread : Qualifier.ofToken token with fault | q
    · simpa [accepted, refused, hread] using Sifts.drop hread (sifts tokens)
    · simpa [accepted, refused, hread] using Sifts.keep hread (sifts tokens)

theorem Sifts.length_eq {tokens : List (List Char)} {qualifiers : List Qualifier}
    {dropped : List TokenFault} (h : Sifts tokens qualifiers dropped) :
    qualifiers.length + dropped.length = tokens.length := by
  induction h with
  | done => rfl
  | keep _ _ ih => simp only [List.length_cons]; omega
  | drop _ _ ih => simp only [List.length_cons]; omega

/-! ## Reading -/

theorem ofChars_joined (first : List Char) {second : List Char} (hplain : ¬ Marked second) :
    (ofChars (first ++ separator :: second)).fpsm = (ofChars first).fpsm
      ∧ (ofChars (first ++ separator :: second)).qualifiers
        = (ofChars first).qualifiers ++ (ofChars second).qualifiers
      ∧ (ofChars (first ++ separator :: second)).dropped
        = (ofChars first).dropped ++ (ofChars second).dropped := by
  have hsecond := stripFpsm_of_not_marked hplain
  simp only [ofChars, stripFpsm_joined, hsecond, tokens_joined, List.map_append, accepted_append,
    refused_append, and_self]

/-- Two levels joined by a separator are read as both one after the other, unless the second has a
mark; and in every level the pieces between the separators that are not blank are the tokens, each
of which is a qualifier or a fault of the level. -/
theorem ofText_joined :
    (∀ first second : String, ¬ Marked second.toList →
      (ofText (first ++ ";" ++ second)).fpsm = (ofText first).fpsm
      ∧ (ofText (first ++ ";" ++ second)).qualifiers
        = (ofText first).qualifiers ++ (ofText second).qualifiers
      ∧ (ofText (first ++ ";" ++ second)).dropped
        = (ofText first).dropped ++ (ofText second).dropped)
    ∧ ∀ raw : String, ∃ pieces : List (List Char), pieces ≠ []
      ∧ (∀ piece ∈ pieces, separator ∉ piece)
      ∧ [separator].intercalate pieces = (stripFpsm raw.toList).2
      ∧ Sifts (pieces.filter fun piece => !allBlank piece)
        (ofText raw).qualifiers (ofText raw).dropped
      ∧ (ofText raw).qualifiers.length + (ofText raw).dropped.length
        = (pieces.filter fun piece => !allBlank piece).length := by
  refine ⟨fun first second hplain => ?_, fun raw => ?_⟩
  · have hjoined : (first ++ ";" ++ second).toList
        = first.toList ++ separator :: second.toList := by simp [separator]
    simp only [ofText, hjoined]
    exact ofChars_joined first.toList hplain
  · have hsifts : Sifts (tokens (stripFpsm raw.toList).2) (ofText raw).qualifiers
        (ofText raw).dropped := sifts _
    exact ⟨(stripFpsm raw.toList).2.splitOn separator, List.splitOn_ne_nil _ _,
      fun piece hpiece => notMem_of_mem_splitOn hpiece, List.intercalate_splitOn _, hsifts,
      hsifts.length_eq⟩

/-- A marked level with a token that is none, and a level that begins with a blank. -/
theorem ofText_joined_blank : ¬ Marked " Index=2;".toList
    ∧ (ofText (":fpsm:Class=A;bogus" ++ ";" ++ " Index=2;")).fpsm
      = (ofText ":fpsm:Class=A;bogus").fpsm
    ∧ (ofText (":fpsm:Class=A;bogus" ++ ";" ++ " Index=2;")).qualifiers
      = (ofText ":fpsm:Class=A;bogus").qualifiers ++ (ofText " Index=2;").qualifiers
    ∧ (ofText (":fpsm:Class=A;bogus" ++ ";" ++ " Index=2;")).dropped
      = (ofText ":fpsm:Class=A;bogus").dropped ++ (ofText " Index=2;").dropped := by
  have hplain : ¬ Marked " Index=2;".toList := by decide
  exact ⟨hplain, ofText_joined.1 _ _ hplain⟩

/-- Behind another level a mark is part of a token. -/
example : (ofText ("Index=1" ++ ";" ++ ":FPSM:Class=A")).dropped
    = [.unknownKey ":FPSM:Class"] := by decide

end Locator.Level
