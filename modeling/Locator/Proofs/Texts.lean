import Locator.Text.Blank
import Locator.Text.Cut
import Locator.Text.Lower
import Mathlib.Data.List.DropRight
import Mathlib.Data.List.Infix

/-!
# Texts

Ends, pieces and beginnings of texts. A word without blanks begins a text if and only if it begins
what is left of the text after its blanks at the end (`prefix_trimEnd_iff`). A word of plain letters
begins the lowercase of a text if and only if it begins the text in some ASCII case
(`prefix_lower_iff`), since no other character has one of these letters for its lowercase.
-/

namespace Locator.Text

/-! ## Ends -/

theorem isPrefix_trimEnd (s : List Char) : trimEnd s <+: s :=
  List.rdropWhile_prefix isBlank s

theorem mem_of_mem_trim {c : Char} {s : List Char} (h : c ∈ trim s) : c ∈ s :=
  (List.dropWhile_suffix isBlank).mem ((isPrefix_trimEnd _).mem h)

theorem trimStart_cons_of_not_blank {c : Char} (hc : isBlank c = false) (s : List Char) :
    trimStart (c :: s) = c :: s := by
  rw [trimStart_cons, hc]
  rfl

theorem trimStart_of_prefix {s t : List Char} (h : t <+: trimStart s) : trimStart t = t := by
  rcases t with _ | ⟨c, t⟩
  · rfl
  · obtain ⟨rest, hrest⟩ := h
    have hhead := List.head?_dropWhile_not isBlank s
    rw [← trimStart, ← hrest] at hhead
    exact trimStart_cons_of_not_blank hhead t

theorem trimStart_trim (s : List Char) : trimStart (trim s) = trim s :=
  trimStart_of_prefix (isPrefix_trimEnd _)

theorem trim_trim (s : List Char) : trim (trim s) = trim s := by
  conv_lhs => rw [trim, trimStart_trim]
  exact List.rdropWhile_idempotent isBlank (trimStart s)

/-- A character that is no blank stops the trimming. -/
theorem trimStart_append_cons {c : Char} (hc : isBlank c = false) (s t : List Char) :
    trimStart (s ++ c :: t) = trimStart s ++ c :: t := by
  induction s with
  | nil => exact trimStart_cons_of_not_blank hc t
  | cons x s ih =>
    rw [List.cons_append, trimStart_cons, trimStart_cons, ih]
    split <;> rfl

theorem prefix_trimEnd_iff {w s : List Char} (hw : ∀ c ∈ w, isBlank c = false) :
    w <+: trimEnd s ↔ w <+: s := by
  refine ⟨fun h => h.trans (isPrefix_trimEnd s), fun h => ?_⟩
  rcases List.prefix_or_prefix_of_prefix h (isPrefix_trimEnd s) with h' | ⟨more, rfl⟩
  · exact h'
  -- more of the word than the trimmed text would be blanks
  have hends : trimEnd s ++ s.rtakeWhile isBlank = s := List.rdropWhile_append_rtakeWhile
  have hmore : more <+: s.rtakeWhile isBlank := by
    rw [← List.prefix_append_right_inj (trimEnd s), hends]
    exact h
  rcases more with _ | ⟨c, more⟩
  · rw [List.append_nil]
  · have hblank : isBlank c := List.mem_rtakeWhile_imp (hmore.mem List.mem_cons_self)
    rw [hw c (List.mem_append_right _ List.mem_cons_self)] at hblank
    cases hblank

theorem isUpper_iff {c : Char} : c.isUpper ↔ 0x41 ≤ c.toNat ∧ c.toNat ≤ 0x5A := by
  change decide (c.val ≥ 'A'.val ∧ c.val ≤ 'Z'.val) = true ↔ _
  rw [decide_eq_true_eq]
  rfl

theorem isLower_iff {c : Char} : c.isLower ↔ 0x61 ≤ c.toNat ∧ c.toNat ≤ 0x7A := by
  change (decide (c.val ≥ 'a'.val) && decide (c.val ≤ 'z'.val)) = true ↔ _
  rw [Bool.and_eq_true, decide_eq_true_eq, decide_eq_true_eq]
  rfl

theorem isAlpha_iff {c : Char} : c.isAlpha
    ↔ 0x41 ≤ c.toNat ∧ c.toNat ≤ 0x5A ∨ 0x61 ≤ c.toNat ∧ c.toNat ≤ 0x7A := by
  change (c.isUpper || c.isLower) = true ↔ _
  rw [Bool.or_eq_true, isUpper_iff, isLower_iff]

theorem isBlank_of_isAlpha {c : Char} (h : c.isAlpha) : isBlank c = false := by
  rw [isAlpha_iff] at h
  simp only [isBlank, Bool.or_eq_false_iff, Bool.and_eq_false_iff, decide_eq_false_iff_not,
    beq_eq_false_iff_ne]
  omega

/-! ## Pieces -/

theorem cutAt_eq_none {sep : Char} {s : List Char} : cutAt sep s = none ↔ sep ∉ s := by
  induction s with
  | nil => simp [cutAt]
  | cons c s ih =>
    rw [cutAt, List.mem_cons, not_or]
    by_cases hc : c = sep
    · simp [hc]
    · simp [hc, Ne.symm hc, ih]

theorem notMem_of_mem_splitOn {sep : Char} {s piece : List Char} (h : piece ∈ s.splitOn sep) :
    sep ∉ piece := by
  induction s generalizing piece with
  | nil =>
    rw [List.splitOn_nil, List.mem_singleton] at h
    simp [h]
  | cons c s ih =>
    rw [List.splitOn_cons_eq_if_modifyHead] at h
    split at h
    · rcases List.mem_cons.1 h with rfl | h
      · exact List.not_mem_nil
      · exact ih h
    · next hc =>
      rcases hpieces : s.splitOn sep with _ | ⟨first, rest⟩ <;> rw [hpieces] at h ih
      · cases h
      · rcases List.mem_cons.1 h with rfl | h
        · rw [List.mem_cons, not_or]
          exact ⟨fun heq => hc (beq_iff_eq.2 heq.symm), ih List.mem_cons_self⟩
        · exact ih (List.mem_cons_of_mem _ h)

theorem splitOn_of_cutAt {sep : Char} {s first rest : List Char}
    (h : cutAt sep s = some (first, rest)) : s.splitOn sep = first :: rest.splitOn sep := by
  induction s generalizing first with
  | nil => cases h
  | cons c s ih =>
    rw [cutAt] at h
    rw [List.splitOn_cons_eq_if_modifyHead]
    split at h
    · next hc =>
      cases h
      rw [if_pos hc]
    · next hc =>
      obtain ⟨⟨before, after⟩, hcut, heq⟩ := Option.map_eq_some_iff.1 h
      cases heq
      rw [if_neg hc, ih hcut, List.modifyHead_cons]

theorem prefix_append_cons_iff {w s t : List Char} {c : Char} (hc : c ∉ w) :
    w <+: s ++ c :: t ↔ w <+: s := by
  refine ⟨fun h => ?_, fun h => h.trans (List.prefix_append _ _)⟩
  rcases List.prefix_or_prefix_of_prefix h (List.prefix_append s (c :: t)) with h' | ⟨more, rfl⟩
  · exact h'
  rcases more with _ | ⟨x, more⟩
  · rw [List.append_nil]
  · rw [List.prefix_append_right_inj, List.cons_prefix_cons] at h
    exact absurd (List.mem_append_right _ (h.1 ▸ List.mem_cons_self)) hc

/-! ## Lowercase words -/

/-- The lowercase ASCII letters that are not the lowercase of any character outside ASCII, nor
begin it. -/
def isPlain (c : Char) : Bool :=
  c.isLower && c != 'i' && c != 'k'

/-- Characters of ASCII that are not the whole lowercase of any character outside ASCII. -/
def isSteady (c : Char) : Bool :=
  0 < c.toNat && c.toNat ≤ 0x7A && c != 'k'

theorem lowerCode_cases (n : Nat) : ∀ runs : List LowerRun, lowerCode n runs = n
    ∨ ∃ run ∈ runs, n ≤ run.last ∧ lowerCode n runs = run.image + (n - run.first)
  | [] => .inl rfl
  | run :: runs => by
    rw [lowerCode]
    split
    · exact .inl rfl
    split
    · exact (lowerCode_cases n runs).imp_right fun ⟨run', hmem, h⟩ =>
        ⟨run', List.mem_cons_of_mem _ hmem, h⟩
    split
    · next hle _ => exact .inr ⟨run, List.mem_cons_self, Nat.not_lt.1 hle, rfl⟩
    · exact .inl rfl

theorem lowerRuns_eq : ∃ runs, lowerRuns = ⟨0x41, 0x5A, 1, 0x61⟩ :: ⟨0xC0, 0xD6, 1, 0xE0⟩ :: runs
    ∧ ∀ run ∈ runs, 0x7A < run.image ∨ run.image = 'k'.toNat ∧ run.first = run.last :=
  ⟨lowerRuns.drop 2, rfl, by decide +kernel⟩

theorem toNat_toLower (c : Char) :
    c.toLower.toNat = if 0x41 ≤ c.toNat ∧ c.toNat ≤ 0x5A then c.toNat + 0x20 else c.toNat := by
  by_cases h : 0x41 ≤ c.toNat ∧ c.toNat ≤ 0x5A
  · have hval : c.val ≥ 'A'.val ∧ c.val ≤ 'Z'.val := h
    have hlower : c.toLower.val = c.val + ('a'.val - 'A'.val) :=
      congrArg Char.val (dif_pos hval)
    have hsmall : c.val.toNat ≤ 0x5A := h.2
    rw [if_pos h, ← Char.toNat_val, ← Char.toNat_val, hlower, UInt32.toNat_add,
      show ('a'.val - 'A'.val).toNat = 0x20 by decide]
    omega
  · have hval : ¬ (c.val ≥ 'A'.val ∧ c.val ≤ 'Z'.val) := h
    have hlower : c.toLower = c := dif_neg hval
    rw [if_neg h, hlower]

theorem lowerChar_of_lt {c : Char} (h : c.toNat < 0xC0) : lowerChar c = [c.toLower] := by
  obtain ⟨runs, hruns, -⟩ := lowerRuns_eq
  have hdot : (c == 'İ') = false := by
    rw [beq_eq_false_iff_ne]
    rintro rfl
    exact absurd h (by decide)
  have hcode : lowerCode c.toNat lowerRuns = c.toLower.toNat := by
    rw [hruns, toNat_toLower, lowerCode, lowerCode]
    simp only [Nat.mod_one, beq_self_eq_true, if_true]
    split_ifs <;> omega
  simp only [lowerChar, hdot, Bool.false_eq_true, if_false, hcode, Char.ofNat_toNat]

theorem isPlain_iff {c : Char} : isPlain c ↔ 0x61 ≤ c.toNat ∧ c.toNat ≤ 0x7A
    ∧ c.toNat ≠ 'i'.toNat ∧ c.toNat ≠ 'k'.toNat := by
  simp only [isPlain, Bool.and_eq_true, bne_iff_ne, ne_eq, isLower_iff, Char.toNat_inj, and_assoc]

theorem toNat_ofNat (n : Nat) : (Char.ofNat n).toNat = n ∨ (Char.ofNat n).toNat = 0 := by
  by_cases h : n.isValidChar
  · have hchar : Char.ofNat n = Char.ofNatAux n h := dif_pos h
    exact .inl (by rw [hchar]; rfl)
  · have hchar : Char.ofNat n = '\x00' := dif_neg h
    exact .inr (by rw [hchar]; rfl)

theorem isSteady_iff {c : Char} : isSteady c ↔ 0 < c.toNat ∧ c.toNat ≤ 0x7A ∧ c ≠ 'k' := by
  simp only [isSteady, Bool.and_eq_true, decide_eq_true_eq, bne_iff_ne, and_assoc]

theorem isSteady_of_isPlain {c : Char} (h : isPlain c) : isSteady c := by
  obtain ⟨hfirst, hlast, -, hkelvin⟩ := isPlain_iff.1 h
  exact isSteady_iff.2 ⟨Nat.lt_of_lt_of_le (by decide) hfirst, hlast,
    fun heq => hkelvin (congrArg Char.toNat heq)⟩

/-- The lowercase of a character outside ASCII. -/
inductive Foreign : List Char → Prop
  | dotted : Foreign ['i', Char.ofNat 0x307]
  | single {x : Char} (hx : isSteady x = false) : Foreign [x]

theorem foreign_lowerChar {c : Char} (h : 0xC0 ≤ c.toNat) : Foreign (lowerChar c) := by
  rw [lowerChar]
  split
  · exact .dotted
  refine .single ?_
  rw [Bool.eq_false_iff, ne_eq, isSteady_iff]
  have hchar := toNat_ofNat (lowerCode c.toNat lowerRuns)
  obtain ⟨runs, hruns, himages⟩ := lowerRuns_eq
  rcases lowerCode_cases c.toNat lowerRuns with hcode | ⟨run, hrun, hlast, hcode⟩ <;>
    rw [hcode] at hchar ⊢
  · omega
  rw [hruns, List.mem_cons, List.mem_cons] at hrun
  rcases hrun with rfl | rfl | hrun
  -- the capitals of ASCII end before this character
  · exact absurd (h.trans hlast) (by decide)
  · dsimp only at hchar ⊢
    omega
  · rcases himages run hrun with himage | ⟨himage, hpoint⟩
    · omega
    · have : c.toNat - run.first = 0 := by omega
      rw [himage, this]
      exact fun h => h.2.2 (by decide)

/-- What the first character of a text contributes to the lowercase of the text. -/
theorem lowerFrom_cons (after : Bool) (c : Char) (s : List Char) : ∃ image next,
    lowerFrom after (c :: s) = image ++ lowerFrom next s
      ∧ (c.toNat < 0xC0 ∧ image = [c.toLower] ∨ 0xC0 ≤ c.toNat ∧ Foreign image) := by
  refine ⟨_, _, rfl, ?_⟩
  rcases Nat.lt_or_ge c.toNat 0xC0 with hc | hc
  · have hsigma : (c == 'Σ') = false := by
      rw [beq_eq_false_iff_ne]
      rintro rfl
      exact absurd hc (by decide)
    rw [hsigma, if_neg Bool.false_ne_true]
    exact .inl ⟨hc, lowerChar_of_lt hc⟩
  · refine .inr ⟨hc, ?_⟩
    split
    · split
      · exact .single (by decide)
      · exact .single (by decide)
    · exact foreign_lowerChar hc

/-- A word of plain letters begins the lowercase of a text just when it begins the text in some
ASCII case. -/
theorem prefix_lowerFrom_iff : ∀ {w : List Char}, (∀ c ∈ w, isPlain c) → ∀ (after : Bool)
    (s : List Char), w <+: lowerFrom after s ↔ w <+: s.map Char.toLower
  | [], _, _, _ => by simp only [List.nil_prefix]
  | x :: w, _, _, [] => by simp only [lowerFrom, List.map_nil]
  | x :: w, hw, after, c :: s => by
    obtain ⟨hx, hw⟩ := List.forall_mem_cons.1 hw
    obtain ⟨image, next, hlower, ⟨-, rfl⟩ | ⟨hc, himage⟩⟩ := lowerFrom_cons after c s
    · rw [hlower, List.singleton_append, List.map_cons, List.cons_prefix_cons,
        List.cons_prefix_cons, prefix_lowerFrom_iff hw]
    -- neither the lowercase of the character nor, as it is not ASCII, itself is the letter
    have hself : x ≠ c.toLower := by
      rintro rfl
      have := isPlain_iff.1 hx
      rw [toNat_toLower] at this
      split at this <;> omega
    rw [hlower, List.map_cons, List.cons_prefix_cons]
    cases himage with
    | dotted =>
      have hne : x ≠ 'i' := by
        rintro rfl
        exact absurd hx (by decide)
      simp only [List.cons_append, List.cons_prefix_cons, hne, hself, false_and]
    | @single y hy =>
      have hne : x ≠ y := by
        rintro rfl
        rw [isSteady_of_isPlain hx] at hy
        cases hy
      simp only [List.cons_append, List.cons_prefix_cons, hne, hself, false_and]

theorem prefix_lower_iff {w : List Char} (hw : ∀ c ∈ w, isPlain c) (s : List Char) :
    w <+: lower s ↔ w <+: s.map Char.toLower :=
  prefix_lowerFrom_iff hw false s

/-- A word of steady characters begins a text in some ASCII case if it begins the lowercase of the
text, unless it ends in an `i`, with which the lowercase of `İ` begins. -/
theorem prefix_map_of_prefix_lowerFrom : ∀ {w : List Char}, (∀ c ∈ w, isSteady c) →
    w.getLast? ≠ some 'i' → ∀ {after : Bool} {s : List Char}, w <+: lowerFrom after s →
    w <+: s.map Char.toLower
  | [], _, _, _, _, _ => List.nil_prefix
  | x :: w, _, _, _, [], h => by rwa [lowerFrom] at h
  | x :: w, hw, hlast, after, c :: s, h => by
    obtain ⟨hx, hrest⟩ := List.forall_mem_cons.1 hw
    obtain ⟨image, next, hlower, ⟨-, rfl⟩ | ⟨-, himage⟩⟩ := lowerFrom_cons after c s
    · have hlast : w.getLast? ≠ some 'i' := by
        intro hi
        rw [List.getLast?_cons, hi] at hlast
        exact hlast rfl
      rw [hlower, List.singleton_append, List.cons_prefix_cons] at h
      rw [List.map_cons, List.cons_prefix_cons]
      exact ⟨h.1, prefix_map_of_prefix_lowerFrom hrest hlast h.2⟩
    rw [hlower] at h
    cases himage with
    | dotted =>
      rw [List.cons_append, List.cons_prefix_cons] at h
      obtain ⟨rfl, h⟩ := h
      rcases w with _ | ⟨y, w⟩
      · exact absurd rfl hlast
      · rw [List.cons_append, List.cons_prefix_cons] at h
        have hdot := hrest y List.mem_cons_self
        rw [h.1] at hdot
        exact absurd hdot (by decide)
    | single hy =>
      rw [List.singleton_append, List.cons_prefix_cons] at h
      rw [h.1, hy] at hx
      cases hx

theorem not_plain_toLower_of_blank {c : Char} (h : isBlank c = true) :
    isPlain c.toLower = false := by
  rw [Bool.eq_false_iff, ne_eq, isPlain_iff, toNat_toLower]
  simp only [isBlank, Bool.or_eq_true, Bool.and_eq_true, decide_eq_true_eq, beq_iff_eq] at h
  split <;> omega

/-- Blanks at the end of a text do not matter to a word of plain letters either, in whatever ASCII
case the text is. -/
theorem prefix_map_trimEnd_iff {w : List Char} (hw : ∀ c ∈ w, isPlain c) (s : List Char) :
    w <+: (trimEnd s).map Char.toLower ↔ w <+: s.map Char.toLower := by
  rw [List.prefix_map_iff, List.prefix_map_iff]
  refine exists_congr fun u => and_congr_left fun hu => prefix_trimEnd_iff fun c hc => ?_
  by_contra hblank
  have hplain := hw c.toLower (hu ▸ List.mem_map_of_mem hc)
  rw [not_plain_toLower_of_blank (by simpa using hblank)] at hplain
  cases hplain

end Locator.Text
