import Locator.Proofs.JsonTexts
import Locator.Toml.Printer
import Locator.Toml.Quoted

/-!
# Reading strings that are printed in TOML

A string is printed in one of four kinds, and every text reads back from the kind that is chosen for
it (`readString_quote`). Between three quotes two in a row may stand as they are, also in front of
the closing quotes, so what a quote means there is settled only by what follows it. The induction
over a text therefore carries the quotes that stand before the rest of it, of which there are two at
most (`Spelled`).
-/

namespace Locator.Toml

open Text

/-! ## Escapes -/

theorem readHex_append {value count n : Nat} {digits rest : List Char} (more : List Char)
    (h : readHex value count digits = some (n, rest)) :
    readHex value count (digits ++ more) = some (n, rest ++ more) := by
  induction count generalizing value digits with
  | zero =>
    cases h
    rfl
  | succ count ih =>
    rcases digits with _ | ⟨c, digits⟩
    · cases h
    · obtain ⟨digit, hdigit, hrest⟩ := Option.bind_eq_some_iff.1 h
      exact Option.bind_eq_some_iff.2 ⟨digit, hdigit, ih hrest⟩

theorem readHex_upper : ∀ n < 128, readHex 0 4 ((hex 4 n).map Char.toUpper) = some (n, []) := by
  decide +kernel

theorem readEscape_hex {c : Char} (hc : c.toNat < 128) (more : List Char) :
    readEscape ('u' :: (hex 4 c.toNat).map Char.toUpper ++ more) = some (c, more) := by
  have hhex := readHex_append more (readHex_upper c.toNat hc)
  rw [List.nil_append] at hhex
  rw [List.cons_append, readEscape, readEscape.codePoint, hhex]
  simp [Json.scalar?_toNat]

theorem lt_of_isControl {c : Char} (h : isControl c) : c.toNat < 128 := by
  simp only [isControl, Bool.or_eq_true, Bool.and_eq_true, decide_eq_true_eq, beq_iff_eq] at h
  omega

/-- A character is read from its escape, and a backslash in front of it does not end a line. -/
theorem exists_of_escape? {lines : Bool} {c : Char} {spelling : List Char}
    (h : escape? lines c = some spelling) : ∃ d rest, spelling = '\\' :: d :: rest
      ∧ (∀ more, readEscape (d :: rest ++ more) = some (c, more))
      ∧ ∀ more, lineBreak? (skipSpace (d :: more)) = none := by
  unfold escape? at h
  split at h
  case h_3 =>
    split at h <;> cases h
    exact ⟨_, _, rfl, fun _ => rfl, fun _ => rfl⟩
  case h_7 =>
    split at h <;> cases h
    next hcontrol =>
      exact ⟨_, _, rfl, readEscape_hex (lt_of_isControl hcontrol), fun _ => rfl⟩
  all_goals
    cases h
    exact ⟨_, _, rfl, fun _ => rfl, fun _ => rfl⟩

/-- A character that is no control character can stand as it is, but for a line break. -/
theorem isPlain_of_not_isControl {c : Char} (h : isControl c = false) (hbreak : c ≠ '\n') :
    isPlain c := by
  by_cases htab : c = '\t'
  · rw [htab]
    rfl
  · simp only [isControl, Bool.or_eq_false_iff, Bool.and_eq_false_iff, decide_eq_false_iff_not,
      bne_eq_false_iff_eq, beq_eq_false_iff_ne, hbreak, htab, or_false] at h
    simp only [isPlain, Bool.or_eq_true, Bool.and_eq_true, decide_eq_true_eq, bne_iff_ne]
    exact .inr ⟨Nat.le_of_not_lt h.1, h.2⟩

/-- So can one that is not escaped. -/
theorem plain_of_escape? {lines : Bool} {c : Char} (h : escape? lines c = none) :
    c ≠ '\\' ∧ c ≠ '\r' ∧ (isPlain c ∨ lines ∧ c = '\n') := by
  unfold escape? at h
  split at h
  case h_3 =>
    split at h
    next hlines => exact ⟨by decide, by decide, .inr ⟨hlines, rfl⟩⟩
    next => cases h
  case h_7 _ hbreak _ hreturn hbackslash =>
    split at h
    next => cases h
    next hcontrol =>
      rw [Bool.not_eq_true] at hcontrol
      exact ⟨hbackslash, hreturn, .inl (isPlain_of_not_isControl hcontrol hbreak)⟩
  all_goals cases h

/-! ## On one line -/

theorem readBasic_quote (read more : List Char) (fuel : Nat) :
    readBasic read (fuel + 1) ('"' :: more) = finish read more := by
  simp [readBasic]

theorem readBasic_escaped {c d : Char} (rest : List Char)
    (hescape : ∀ more, readEscape (d :: rest ++ more) = some (c, more)) (read more : List Char)
    (fuel : Nat) :
    readBasic read (fuel + 1) ('\\' :: d :: rest ++ more) = readBasic (c :: read) fuel more := by
  have hread := hescape more
  rw [List.cons_append] at hread
  simp [readBasic, hread]

theorem readBasic_char {c : Char} (hquote : c ≠ '"') (read more : List Char) (fuel : Nat) :
    readBasic read (fuel + 1) ((escape? false c).getD [c] ++ more)
      = readBasic (c :: read) fuel more := by
  rcases hescape : escape? false c with _ | spelling
  · obtain ⟨hbackslash, -, hplain⟩ := plain_of_escape? hescape
    have hplain : isPlain c := by simpa using hplain
    simp [readBasic, hquote, hbackslash, hplain]
  · obtain ⟨d, rest, rfl, hread, -⟩ := exists_of_escape? hescape
    exact readBasic_escaped rest hread read more fuel

theorem readBasic_body (more : List Char) : ∀ (s : List Char) (quotes : Nat) (read : List Char)
    (fuel : Nat), s.length < fuel →
    readBasic read fuel (basicBody false quotes s ++ '"' :: more) = finish (s.reverse ++ read) more
  | [], _, read, fuel + 1, _ => readBasic_quote read more fuel
  | c :: s, quotes, read, fuel + 1, hfuel => by
    have ih := readBasic_body more s 0 (c :: read) fuel (Nat.lt_of_succ_lt_succ hfuel)
    rw [List.reverse_cons, List.append_assoc, List.singleton_append, ← ih, basicBody]
    by_cases hquote : c = '"'
    · subst hquote
      exact readBasic_escaped [] (fun _ => rfl) read _ fuel
    · rw [if_neg (by simpa using hquote), List.append_assoc]
      exact readBasic_char hquote read _ fuel

theorem length_le_basicBody (lines : Bool) : ∀ (s : List Char) (quotes : Nat),
    s.length ≤ (basicBody lines quotes s).length
  | [], _ => Nat.zero_le _
  | c :: s, quotes => by
    have ih := length_le_basicBody lines s
    have hspelling : 1 ≤ ((escape? lines c).getD [c]).length := by
      rcases hescape : escape? lines c with _ | spelling
      · exact Nat.le_refl 1
      · obtain ⟨d, rest, rfl, -⟩ := exists_of_escape? hescape
        exact Nat.succ_le_succ (Nat.zero_le _)
    rw [basicBody]
    split
    · split
      · exact Nat.succ_le_succ (ih _)
      · exact Nat.succ_le_succ (Nat.le_succ_of_le (ih 0))
    · rw [List.length_append, List.length_cons, Nat.add_comm]
      exact Nat.add_le_add hspelling (ih 0)

theorem readLiteral_body (more : List Char) : ∀ (s read : List Char),
    (∀ c ∈ s, c ≠ '\x27' ∧ isPlain c) →
    readLiteral read (s ++ '\x27' :: more) = finish (s.reverse ++ read) more
  | [], read, _ => by simp [readLiteral]
  | c :: s, read, h => by
    obtain ⟨⟨hquote, hplain⟩, hs⟩ := List.forall_mem_cons.1 h
    have ih := readLiteral_body more s (c :: read) hs
    rw [List.reverse_cons, List.append_assoc, List.singleton_append, ← ih]
    simp [readLiteral, hquote, hplain]

/-! ## Over several lines -/

/-- What a reader of strings between three quotes makes of quotes. -/
structure LineReader (quote : Char) (reader : List Char → Nat → List Char → Reading) : Prop where
  inside : ∀ read fuel rest, (∀ more, rest ≠ quote :: quote :: more) →
    reader read (fuel + 1) (quote :: rest) = reader (quote :: read) fuel rest
  close : ∀ read fuel rest, reader read (fuel + 1) (quote :: quote :: quote :: rest)
    = closeLines quote read rest

theorem readBasicLines_reader : LineReader '"' readBasicLines where
  inside read fuel rest h := by
    rw [readBasicLines, if_pos (by rfl)]
    exact h
  close read fuel rest := by
    rw [readBasicLines, if_pos (by rfl)]

theorem readLiteralLines_reader : LineReader '\x27' readLiteralLines where
  inside read fuel rest h := by
    rw [readLiteralLines, if_pos (by rfl)]
    exact h
  close read fuel rest := by
    rw [readLiteralLines, if_pos (by rfl)]

/-- How a text is spelled behind some quotes that stand as they are. Two of them may do so in a
row, and every other character has a spelling that does not begin with a quote. -/
inductive Spelled (quote : Char) (reader : List Char → Nat → List Char → Reading) :
    Nat → List Char → List Char → Prop
  | nil {quotes : Nat} (hquotes : quotes ≤ 2) : Spelled quote reader quotes [] []
  | quote {quotes : Nat} {s spelling : List Char}
      (h : Spelled quote reader (quotes + 1) s spelling) :
      Spelled quote reader quotes (quote :: s) (quote :: spelling)
  | char {quotes : Nat} {c d : Char} (rest : List Char) {s spelling : List Char}
      (hquotes : quotes ≤ 2) (hd : d ≠ quote) (hread : ∀ read fuel more,
        reader read (fuel + 1) (d :: rest ++ more) = reader (c :: read) fuel more)
      (h : Spelled quote reader 0 s spelling) :
      Spelled quote reader quotes (c :: s) (d :: rest ++ spelling)

section Spelled

variable {quote : Char} {reader : List Char → Nat → List Char → Reading} {quotes : Nat}

theorem LineReader.flush (h : LineReader quote reader) (hquotes : quotes ≤ 2) {d : Char}
    (hd : d ≠ quote) (read : List Char) (fuel : Nat) (rest : List Char) :
    reader read (fuel + quotes) (List.replicate quotes quote ++ d :: rest)
      = reader (List.replicate quotes quote ++ read) fuel (d :: rest) := by
  match quotes with
  | 0 => rfl
  | 1 =>
    exact h.inside _ _ _ fun more heq => hd (List.cons.inj heq).1
  | 2 =>
    have hfirst := h.inside read (fuel + 1) (quote :: d :: rest)
      fun more heq => hd (List.cons.inj (List.cons.inj heq).2).1
    have hsecond := h.inside (quote :: read) fuel (d :: rest)
      fun more heq => hd (List.cons.inj heq).1
    exact hfirst.trans hsecond

theorem closeLines_replicate (hquotes : quotes ≤ 2) (read : List Char) {more : List Char}
    (hmore : more.head? ≠ some quote) :
    closeLines quote read (List.replicate quotes quote ++ more)
      = finish (List.replicate quotes quote ++ read) more := by
  have hhead : ∀ c rest, more = c :: rest → (c == quote) = false := by
    rintro c rest rfl
    rw [beq_eq_false_iff_ne]
    rintro rfl
    exact hmore rfl
  match quotes with
  | 0 =>
    match more, hhead with
    | [], _ => rfl
    | [c], hhead => simp [closeLines, hhead c [] rfl]
    | c :: d :: rest, hhead => simp [closeLines, hhead c _ rfl]
  | 1 =>
    match more, hhead with
    | [], _ => simp [closeLines]
    | c :: rest, hhead => simp [closeLines, hhead c rest rfl]
  | 2 => simp [closeLines]

/-- A text is read from its spelling, behind the quotes and up to the closing ones. -/
theorem Spelled.read (hreader : LineReader quote reader) {s spelling : List Char}
    (h : Spelled quote reader quotes s spelling) {more : List Char}
    (hmore : more.head? ≠ some quote) : ∀ (read : List Char) (fuel : Nat),
      s.length + quotes < fuel →
      reader read fuel (List.replicate quotes quote ++ (spelling ++ (fence quote ++ more)))
        = finish (s.reverse ++ (List.replicate quotes quote ++ read)) more := by
  induction h with
  | @nil quotes hquotes =>
    rintro read (_ | fuel) hfuel
    · exact absurd hfuel (Nat.not_lt_zero _)
    have hquotesLast : List.replicate quotes quote ++ ([] ++ (fence quote ++ more))
        = quote :: quote :: quote :: (List.replicate quotes quote ++ more) := by
      rw [List.nil_append, fence, ← List.append_assoc, List.replicate_append_replicate,
        Nat.add_comm, ← List.replicate_append_replicate, List.append_assoc]
      rfl
    rw [hquotesLast, hreader.close, closeLines_replicate hquotes read hmore]
    rfl
  | @quote quotes s spelling h ih =>
    intro read fuel hfuel
    have hread := ih read fuel (by rw [List.length_cons] at hfuel; omega)
    rw [List.replicate_succ', List.append_assoc, List.singleton_append] at hread
    rw [List.cons_append, hread, ← List.replicate_succ', List.reverse_cons, List.append_assoc]
    rfl
  | @char quotes c d rest s spelling hquotes hd hread h ih =>
    intro read fuel hfuel
    obtain ⟨left, rfl⟩ : ∃ left, fuel = left + 1 + quotes := ⟨fuel - quotes - 1, by omega⟩
    have hflush := hreader.flush hquotes hd read (left + 1)
      (rest ++ (spelling ++ (fence quote ++ more)))
    have hrest := ih (c :: (List.replicate quotes quote ++ read)) left
      (by rw [List.length_cons] at hfuel; omega)
    rw [List.replicate_zero, List.nil_append, List.nil_append] at hrest
    rw [List.append_assoc, List.cons_append, hflush, ← List.cons_append, hread, hrest,
      List.reverse_cons, List.append_assoc, List.singleton_append]

end Spelled

/-! ### The two spellings -/

theorem readBasicLines_escaped {c d : Char} (rest : List Char)
    (hescape : ∀ more, readEscape (d :: rest ++ more) = some (c, more))
    (hbreak : ∀ more, lineBreak? (skipSpace (d :: more)) = none) (read : List Char) (fuel : Nat)
    (more : List Char) :
    readBasicLines read (fuel + 1) ('\\' :: d :: rest ++ more)
      = readBasicLines (c :: read) fuel more := by
  have hread := hescape more
  rw [List.cons_append] at hread
  simp [readBasicLines, hbreak, hread]

theorem readBasicLines_plain {c : Char} (hquote : c ≠ '"') (hbackslash : c ≠ '\\')
    (hplain : isPlain c ∨ c = '\n') (read : List Char) (fuel : Nat) (more : List Char) :
    readBasicLines read (fuel + 1) (c :: more) = readBasicLines (c :: read) fuel more := by
  rcases hplain with hplain | rfl
  · simp [readBasicLines, hquote, hbackslash, hplain]
  · simp [readBasicLines, isPlain, lineBreak?]

theorem readLiteralLines_plain {c : Char} (hquote : c ≠ '\x27') (hplain : isPlain c ∨ c = '\n')
    (read : List Char) (fuel : Nat) (more : List Char) :
    readLiteralLines read (fuel + 1) (c :: more) = readLiteralLines (c :: read) fuel more := by
  rcases hplain with hplain | rfl
  · simp [readLiteralLines, hquote, hplain]
  · simp [readLiteralLines, isPlain, lineBreak?]

theorem spelled_basicBody : ∀ (s : List Char) (quotes : Nat), quotes ≤ 2 →
    Spelled '"' readBasicLines quotes s (basicBody true quotes s)
  | [], quotes, hquotes => .nil hquotes
  | c :: s, quotes, hquotes => by
    rw [basicBody]
    by_cases hquote : c = '"'
    · subst hquote
      rw [if_pos (by rfl)]
      by_cases hlt : quotes < 2
      · rw [if_pos (by simpa using hlt)]
        exact .quote (spelled_basicBody s (quotes + 1) hlt)
      · rw [if_neg (by simpa using hlt)]
        exact .char ['"'] hquotes (by decide)
          (readBasicLines_escaped [] (fun _ => rfl) fun _ => rfl)
          (spelled_basicBody s 0 (Nat.zero_le 2))
    · rw [if_neg (by simpa using hquote)]
      have hrest := spelled_basicBody s 0 (Nat.zero_le 2)
      rcases hescape : escape? true c with _ | spelling
      · obtain ⟨hbackslash, -, hplain⟩ := plain_of_escape? hescape
        exact .char [] hquotes hquote
          (readBasicLines_plain hquote hbackslash (hplain.imp_right And.right)) hrest
      · obtain ⟨d, rest, rfl, hread, hbreak⟩ := exists_of_escape? hescape
        exact .char (d :: rest) hquotes (by decide)
          (readBasicLines_escaped rest hread hbreak) hrest

theorem le_longestRun (c : Char) : ∀ (s : List Char) (current : Nat),
    current ≤ longestRun c current s
  | [], current => Nat.le_refl current
  | d :: s, current => by
    rw [longestRun]
    split
    · exact Nat.le_of_succ_le (le_longestRun c s (current + 1))
    · exact Nat.le_max_left _ _

/-- A text is its own literal spelling, if no more than two quotes stand in a row. -/
theorem spelled_self : ∀ (s : List Char) (quotes : Nat), longestRun '\x27' quotes s ≤ 2 →
    (∀ c ∈ s, isPlain c ∨ c = '\n') → Spelled '\x27' readLiteralLines quotes s s
  | [], quotes, hquotes, _ => .nil hquotes
  | c :: s, quotes, hrun, hplain => by
    have hquotes : quotes ≤ 2 := Nat.le_trans (le_longestRun _ _ _) hrun
    obtain ⟨hc, hs⟩ := List.forall_mem_cons.1 hplain
    rw [longestRun] at hrun
    by_cases hquote : c = '\x27'
    · subst hquote
      rw [if_pos (by rfl)] at hrun
      exact .quote (spelled_self s (quotes + 1) hrun hs)
    · rw [if_neg (by simpa using hquote)] at hrun
      exact .char [] hquotes hquote (readLiteralLines_plain hquote hc)
        (spelled_self s 0 (Nat.le_trans (Nat.le_max_right _ _) hrun) hs)

/-! ## Every kind -/

theorem lineBreak?_cons {c : Char} (hbreak : c ≠ '\n') (hreturn : c ≠ '\r') (s : List Char) :
    lineBreak? (c :: s) = none := by
  unfold lineBreak?
  split
  next heq => exact absurd (List.cons.inj heq).1 hbreak
  next heq => exact absurd (List.cons.inj heq).1 hreturn
  next => rfl

/-- The line break behind the opening quotes is there just when the text has a line break. -/
theorem skipFirstBreak_openingBreak {s body : List Char}
    (h : '\n' ∉ s → lineBreak? body = none) :
    skipFirstBreak (openingBreak (traits s) ++ body) = body := by
  by_cases hbreak : '\n' ∈ s
  · have hopening : openingBreak (traits s) = ['\n'] := if_pos (List.contains_iff_mem.2 hbreak)
    rw [hopening]
    rfl
  · have hopening : openingBreak (traits s) = [] := if_neg (mt List.contains_iff_mem.1 hbreak)
    rw [hopening, List.nil_append, skipFirstBreak, h hbreak]
    rfl

theorem lineBreak?_basicBody {s : List Char} (h : '\n' ∉ s) (more : List Char) :
    lineBreak? (basicBody true 0 s ++ (fence '"' ++ more)) = none := by
  rcases s with _ | ⟨c, s⟩
  · rfl
  rw [basicBody]
  split
  · rfl
  rcases hescape : escape? true c with _ | spelling
  · obtain ⟨-, hreturn, -⟩ := plain_of_escape? hescape
    exact lineBreak?_cons (fun hbreak => h (hbreak ▸ List.mem_cons_self)) hreturn _
  · obtain ⟨d, rest, rfl, -⟩ := exists_of_escape? hescape
    rfl

theorem finish_reverse (s more : List Char) :
    finish (s.reverse ++ []) more = some (String.ofList s, more) := by
  rw [finish, List.append_nil, List.reverse_reverse]

/-- What stands behind a string is no quote, so that it does not go on there. -/
structure Ends (more : List Char) : Prop where
  double : more.head? ≠ some '"'
  single : more.head? ≠ some '\x27'

section Kinds

variable {s more text : List Char}

theorem readString_double (h : ∀ rest, text ≠ '"' :: '"' :: rest) :
    readString ('"' :: text) = readBasic [] (text.length + 1) text := by
  unfold readString
  split
  next rest heq => exact absurd (List.cons.inj heq).2 (h rest)
  next heq => cases heq
  next => rfl

theorem readString_single (h : ∀ rest, text ≠ '\x27' :: '\x27' :: rest) :
    readString ('\x27' :: text) = readLiteral [] text := by
  unfold readString
  split
  next heq => cases heq
  next rest heq => exact absurd (List.cons.inj heq).2 (h rest)
  next => rfl

theorem notMem_of_longestRun {c : Char} : ∀ {s : List Char}, longestRun c 0 s = 0 → c ∉ s
  | [], _ => List.not_mem_nil
  | d :: s, h => by
    rw [longestRun] at h
    split at h
    next =>
      have hle := le_longestRun c s (0 + 1)
      rw [h] at hle
      exact absurd hle (by decide)
    next hne =>
      have hrest : longestRun c 0 s = 0 := by omega
      refine List.not_mem_cons_of_ne_of_not_mem ?_ (notMem_of_longestRun hrest)
      rintro rfl
      exact hne (beq_self_eq_true c)

variable (hmore : Ends more)
include hmore

/-- The body of a basic string does not begin with quotes, nor does what follows it. -/
theorem basicBody_ne (rest : List Char) :
    basicBody false 0 s ++ '"' :: more ≠ '"' :: '"' :: rest := by
  intro heq
  rcases s with _ | ⟨c, s⟩
  · exact hmore.double (by rw [(List.cons.inj heq).2]; rfl)
  rw [basicBody] at heq
  split at heq
  next => cases heq
  next hquote =>
    rcases hescape : escape? false c with _ | spelling
    · rw [hescape] at heq
      exact hquote (beq_iff_eq.2 (List.cons.inj heq).1)
    · obtain ⟨d, spelling, rfl, -⟩ := exists_of_escape? hescape
      rw [hescape] at heq
      cases heq

theorem readString_basic :
    readString ('"' :: basicBody false 0 s ++ ['"'] ++ more) = some (String.ofList s, more) := by
  have hfuel : s.length < (basicBody false 0 s ++ '"' :: more).length + 1 := by
    have hlength := length_le_basicBody false s 0
    rw [List.length_append]
    omega
  rw [List.append_assoc, List.singleton_append, List.cons_append,
    readString_double (basicBody_ne hmore), readBasic_body more s 0 [] _ hfuel, finish_reverse]

theorem readString_literal (hplain : ∀ c ∈ s, c ≠ '\x27' ∧ isPlain c) :
    readString ('\x27' :: s ++ ['\x27'] ++ more) = some (String.ofList s, more) := by
  have hbody : ∀ rest, s ++ '\x27' :: more ≠ '\x27' :: '\x27' :: rest := by
    intro rest heq
    rcases s with _ | ⟨c, s⟩
    · exact hmore.single (by rw [(List.cons.inj heq).2]; rfl)
    · exact (hplain c List.mem_cons_self).1 (List.cons.inj heq).1
  rw [List.append_assoc, List.singleton_append, List.cons_append, readString_single hbody,
    readLiteral_body more s [] hplain, finish_reverse]

theorem readString_basicLines :
    readString (fence '"' ++ openingBreak (traits s) ++ basicBody true 0 s ++ fence '"' ++ more)
      = some (String.ofList s, more) := by
  have hread := (spelled_basicBody s 0 (Nat.zero_le 2)).read readBasicLines_reader hmore.double []
    ((basicBody true 0 s ++ (fence '"' ++ more)).length + 1) (by
      have hlength := length_le_basicBody true s 0
      rw [List.length_append]
      omega)
  rw [List.replicate_zero, List.nil_append, List.nil_append, finish_reverse] at hread
  have hbreak := skipFirstBreak_openingBreak (s := s) fun h => lineBreak?_basicBody h more
  rw [← hread, ← hbreak]
  simp only [List.append_assoc]
  rfl

theorem readString_literalLines (hrun : longestRun '\x27' 0 s ≤ 2)
    (hplain : ∀ c ∈ s, isPlain c ∨ c = '\n') :
    readString (fence '\x27' ++ openingBreak (traits s) ++ s ++ fence '\x27' ++ more)
      = some (String.ofList s, more) := by
  have hread := (spelled_self s 0 hrun hplain).read readLiteralLines_reader hmore.single []
    ((s ++ (fence '\x27' ++ more)).length + 1) (by rw [List.length_append]; omega)
  rw [List.replicate_zero, List.nil_append, List.nil_append, finish_reverse] at hread
  have hbreak : '\n' ∉ s → lineBreak? (s ++ (fence '\x27' ++ more)) = none := by
    intro h
    rcases s with _ | ⟨c, s⟩
    · rfl
    refine lineBreak?_cons (fun hc => h (hc ▸ List.mem_cons_self)) ?_ _
    rintro rfl
    exact absurd (hplain '\r' List.mem_cons_self) (by decide)
  rw [← hread, ← skipFirstBreak_openingBreak hbreak]
  simp only [List.append_assoc]
  rfl

/-- Every text is read back from how it is printed. -/
theorem readString_quote : readString (quote s ++ more) = some (String.ofList s, more) := by
  have hnotControl (h : (!(traits s).control) = true) : ∀ c ∈ s, isControl c = false := by
    simpa [traits] using h
  have hplain (h : (!(traits s).control) = true) : ∀ c ∈ s, isPlain c ∨ c = '\n' := by
    intro c hc
    by_cases hbreak : c = '\n'
    · exact .inr hbreak
    · exact .inl (isPlain_of_not_isControl (hnotControl h c hc) hbreak)
  unfold quote
  dsimp only
  split
  next => exact readString_basic hmore
  split
  next h =>
    simp only [Bool.and_eq_true, beq_iff_eq] at h
    obtain ⟨⟨hcontrol, hquotes⟩, hbreak⟩ := h
    have hbreak : '\n' ∉ s := by simpa [traits] using hbreak
    refine readString_literal hmore fun c hc => ⟨?_, ?_⟩
    · rintro rfl
      exact notMem_of_longestRun hquotes hc
    · exact (hplain hcontrol c hc).resolve_right fun h => hbreak (h ▸ hc)
  split
  next => exact readString_basicLines hmore
  split
  next h =>
    rw [Bool.and_eq_true, decide_eq_true_eq] at h
    exact readString_literalLines hmore h.2 (hplain h.1)
  split
  next => exact readString_basicLines hmore
  next => exact readString_basic hmore

end Kinds

end Locator.Toml
