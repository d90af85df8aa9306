import Locator.Engine
import Mathlib.Data.List.TakeWhile

/-!
# Which texts are chains

A text is read as the chain of its pieces between child separators, each read as a level, and it is
refused just when a level is unusable (`readPath_eq_ok`). So the two sides of the first separator
of a chain are chains themselves: of the first level, and of the levels after it
(`FirstCut.readPath`).
-/

namespace Locator

open Text

theorem bind_eq_ok {ε α β : Type} {x : Except ε α} {f : α → Except ε β} {b : β} :
    (x >>= f) = .ok b ↔ ∃ a, x = .ok a ∧ f a = .ok b := by
  cases x with
  | error e => exact ⟨nofun, fun ⟨_, h, _⟩ => nomatch h⟩
  | ok a =>
    constructor
    · exact fun h => ⟨a, rfl, h⟩
    · rintro ⟨_, ⟨⟩, h⟩
      exact h

theorem bind_eq_error {ε α β : Type} {x : Except ε α} {f : α → Except ε β} {error : ε} :
    (x >>= f) = .error error ↔ x = .error error ∨ ∃ a, x = .ok a ∧ f a = .error error := by
  cases x with
  | error e =>
    constructor
    · rintro ⟨⟩
      exact .inl rfl
    · rintro (⟨⟨⟩⟩ | ⟨_, ⟨⟩, _⟩)
      rfl
  | ok a =>
    constructor
    · exact fun h => .inr ⟨a, rfl, h⟩
    · rintro (⟨⟨⟩⟩ | ⟨_, ⟨⟩, h⟩)
      exact h

theorem mapError_eq_ok {ε ε' α : Type} {x : Except ε α} {f : ε → ε'} {a : α} :
    x.mapError f = .ok a ↔ x = .ok a := by
  cases x with
  | error e => exact ⟨nofun, nofun⟩
  | ok b => simp only [Except.mapError, Except.ok.injEq]

/-! ## Levels -/

/-- What a level asks for, its spelling set aside. -/
def Level.meaning (level : Level) : Bool × List Qualifier :=
  (level.fpsm, level.qualifiers)

/-- A blank has no qualifier. -/
theorem Level.not_usable_of_allBlank {raw : List Char} (h : allBlank raw) :
    (Level.ofChars raw).usable = false := by
  have hblank : ∀ c ∈ raw, isBlank c := List.all_eq_true.1 h
  have hsentinel : stripFpsm raw = (false, raw) := by
    have htrimmed : trimStart raw = [] := List.dropWhile_eq_nil_iff.2 hblank
    simp only [stripFpsm, htrimmed]
    rfl
  have hseparator : separator ∉ raw := fun hmem => absurd (hblank _ hmem) (by decide)
  have htokens : tokens raw = [] := by
    rw [tokens, List.splitOn_eq_singleton hseparator, List.filter_cons_of_neg (by simpa using h),
      List.filter_nil]
  simp only [usable, ofChars, hsentinel, htokens]
  rfl

namespace Chain

theorem readLevel_eq_ok {number : Nat} {raw : List Char} {level : Level} :
    readLevel number raw = .ok level ↔ level = Level.ofChars raw ∧ level.usable := by
  simp only [readLevel]
  by_cases h : (Level.ofChars raw).usable
  · rw [if_pos h]
    constructor
    · rintro ⟨⟩
      exact ⟨rfl, h⟩
    · rintro ⟨rfl, -⟩
      rfl
  · rw [if_neg h]
    constructor
    · nofun
    · rintro ⟨rfl, husable⟩
      exact absurd husable h

theorem readLevels_eq_ok {number : Nat} {raws : List (List Char)} {levels : List Level} :
    readLevels number raws = .ok levels
      ↔ levels = raws.map Level.ofChars ∧ ∀ level ∈ levels, level.usable := by
  induction raws generalizing number levels with
  | nil =>
    constructor
    · rintro ⟨⟩
      exact ⟨rfl, nofun⟩
    · rintro ⟨rfl, -⟩
      rfl
  | cons raw raws ih =>
    simp only [readLevels, bind_eq_ok, readLevel_eq_ok, ih, List.map_cons]
    constructor
    · rintro ⟨level, ⟨rfl, hlevel⟩, rest, ⟨rfl, hrest⟩, ⟨⟩⟩
      exact ⟨rfl, List.forall_mem_cons.2 ⟨hlevel, hrest⟩⟩
    · rintro ⟨rfl, husable⟩
      obtain ⟨hlevel, hrest⟩ := List.forall_mem_cons.1 husable
      exact ⟨_, ⟨rfl, hlevel⟩, _, ⟨rfl, hrest⟩, rfl⟩

end Chain

/-! ## Pieces -/

/-- The pieces of a text that are read as levels. -/
def pieces (path : String) : List (List Char) :=
  (splitLevels path.toList).1 :: (splitLevels path.toList).2

theorem mem_of_mem_first_piece (s : List Char) : ∀ c ∈ (splitLevels s).1, c ∈ s := by
  fun_induction splitLevels s with
  | case1 => exact fun c hc => hc
  | case2 => exact fun c hc => absurd hc List.not_mem_nil
  | case3 c rest _ piece pieces h ih =>
    rw [h] at ih
    exact fun x hx => (List.mem_cons.1 hx).elim (fun hx => hx ▸ List.mem_cons_self)
      fun hx => List.mem_cons_of_mem c (ih x hx)

/-- A chain is read level by level from the pieces of its text, and all of its levels are usable. -/
theorem readPath_eq_ok {path : String} {chain : Chain} :
    Engine.readPath path = .ok chain ↔ chain.path = path
      ∧ chain.levels = (pieces path).map Level.ofChars ∧ ∀ level ∈ chain.levels, level.usable := by
  obtain ⟨text, first, rest⟩ := chain
  rw [Engine.readPath, mapError_eq_ok, Chain.ofText]
  by_cases hblank : allBlank path.toList
  · rw [if_pos hblank]
    refine ⟨nofun, fun ⟨_, hlevels, husable⟩ => ?_⟩
    obtain ⟨rfl, -⟩ := List.cons.inj hlevels
    have hpiece : allBlank (splitLevels path.toList).1 := List.all_eq_true.2 fun c hc =>
      List.all_eq_true.1 hblank c (mem_of_mem_first_piece _ c hc)
    have := husable _ List.mem_cons_self
    rw [Level.not_usable_of_allBlank hpiece] at this
    cases this
  · simp only [if_neg hblank, bind_eq_ok, Chain.readLevel_eq_ok, Chain.readLevels_eq_ok,
      Chain.levels, pieces, List.map_cons, List.cons.injEq, List.forall_mem_cons]
    constructor
    · rintro ⟨_, ⟨rfl, hfirst⟩, _, ⟨rfl, hrest⟩, ⟨⟩⟩
      exact ⟨rfl, ⟨rfl, rfl⟩, hfirst, hrest⟩
    · rintro ⟨rfl, ⟨rfl, rfl⟩, hfirst, hrest⟩
      exact ⟨_, ⟨rfl, hfirst⟩, _, ⟨rfl, hrest⟩, rfl⟩

/-! ## The first separator -/

/-- A text is cut at its first child separator. -/
structure FirstCut (path before after : String) : Prop where
  eq : path = before ++ childSeparator ++ after
  first : ∀ b a, path = b ++ childSeparator ++ a → before.length ≤ b.length

/-- Without a child separator a text is one piece. -/
theorem splitLevels_of_uncut : ∀ s : List Char,
    (∀ b a, s ≠ b ++ childSeparator.toList ++ a) → splitLevels s = (s, [])
  | [], _ => rfl
  | c :: s, h => by
    have hs := splitLevels_of_uncut s fun b a heq => h (c :: b) a (by rw [heq]; rfl)
    rw [splitLevels, hs]
    rintro rest hc rfl
    exact h [] rest (by rw [hc]; rfl)

theorem splitLevels_append : ∀ before after : List Char,
    (∀ b a, before ++ childSeparator.toList ++ after = b ++ childSeparator.toList ++ a →
      before.length ≤ b.length) →
    splitLevels (before ++ childSeparator.toList ++ after)
      = (before, (splitLevels after).1 :: (splitLevels after).2)
  | [], after, _ => rfl
  | c :: before, after, h => by
    have hs := splitLevels_append before after fun b a heq =>
      Nat.le_of_succ_le_succ (h (c :: b) a (by simp only [List.cons_append, heq]))
    rw [List.cons_append, List.cons_append, splitLevels, hs]
    rintro rest hc heq
    have := h [] rest (by rw [List.cons_append, List.cons_append, hc, heq]; rfl)
    exact absurd this (Nat.not_succ_le_zero _)

namespace FirstCut

variable {path before after : String}

theorem of_notMem (hpath : path = before ++ childSeparator ++ after) (h : ';' ∉ before.toList) :
    FirstCut path before after where
  eq := hpath
  first b a heq := by
    by_contra hlt
    have hlists := congrArg String.toList (hpath.symm.trans heq)
    simp only [String.toList_append, List.append_assoc] at hlists
    have hlength : b.toList.length < before.toList.length := by
      simpa only [String.length_toList, not_le] using hlt
    have hfound : (before.toList ++ (childSeparator.toList ++ after.toList))[b.toList.length]?
        = some ';' := by
      rw [hlists, List.getElem?_append_right (Nat.le_refl _), Nat.sub_self]
      rfl
    rw [List.getElem?_append_left hlength] at hfound
    exact h (List.mem_of_getElem? hfound)

theorem pieces (h : FirstCut path before after) :
    pieces path = before.toList :: Locator.pieces after
      ∧ Locator.pieces before = [before.toList] := by
  have hlength : ∀ b a, path.toList = b ++ childSeparator.toList ++ a →
      before.toList.length ≤ b.length := by
    intro b a heq
    have hcut : path = String.ofList b ++ childSeparator ++ String.ofList a :=
      String.toList_inj.1 (by simpa using heq)
    simpa only [String.length_toList, String.length_ofList] using h.first _ _ hcut
  have hpath : path.toList = before.toList ++ childSeparator.toList ++ after.toList := by
    rw [h.eq, String.toList_append, String.toList_append]
  constructor
  · rw [Locator.pieces, hpath, splitLevels_append _ _ fun b a heq => hlength b a (hpath.trans heq)]
    rfl
  · rw [Locator.pieces, splitLevels_of_uncut]
    intro b a heq
    have := hlength b (a ++ childSeparator.toList ++ after.toList) (by
      rw [hpath, heq]
      simp only [List.append_assoc])
    have hsize := congrArg List.length heq
    simp only [List.length_append] at hsize
    have : 0 < childSeparator.toList.length := by decide
    omega

/-- The two sides of the first separator of a chain are chains. -/
theorem readPath (h : FirstCut path before after) {chain : Chain}
    (hchain : Engine.readPath path = .ok chain) :
    Engine.readPath before = .ok ⟨before, chain.first, []⟩
      ∧ ∃ below, Engine.readPath after = .ok below ∧ chain.rest = below.levels := by
  obtain ⟨hpath, hbefore⟩ := h.pieces
  obtain ⟨-, hlevels, husable⟩ := readPath_eq_ok.1 hchain
  rw [hpath, List.map_cons, Chain.levels, List.cons.injEq] at hlevels
  obtain ⟨hfirst, hrest⟩ := hlevels
  obtain ⟨hfirstUsable, hrestUsable⟩ := List.forall_mem_cons.1 husable
  refine ⟨readPath_eq_ok.2 ⟨rfl, ?_, ?_⟩, ?_⟩
  · rw [hbefore, Chain.levels, hfirst]
    rfl
  · exact List.forall_mem_cons.2 ⟨hfirstUsable, nofun⟩
  · refine ⟨⟨after, Level.ofChars (splitLevels after.toList).1,
      (splitLevels after.toList).2.map Level.ofChars⟩, readPath_eq_ok.2 ⟨rfl, rfl, ?_⟩, hrest⟩
    rw [hrest] at hrestUsable
    exact hrestUsable

end FirstCut

end Locator
