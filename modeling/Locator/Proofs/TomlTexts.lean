import Locator.Proofs.Chains
import Locator.Proofs.Decimals
import Locator.Proofs.TomlStrings
import Locator.Toml.Reader

/-!
# Reading lines that are printed in TOML

A header opens a table (`readLines_headerLine`). A line with a key and a value adds the value to
the table that is open, if the key is a word that the table does not have yet
(`readLines_pairLine`). Numbers are printed as decimals, lists of
strings on one line or on several (`prints_quoteAll`).
-/

namespace Locator.Toml

open Text

/-! ## Numbers -/

theorem ne_of_isDigit {c d : Char} (hc : c.isDigit) (hd : d.isDigit = false) : c ≠ d := by
  rintro rfl
  rw [hc] at hd
  cases hd

/-- A run of digits at the end of a line is not the beginning of a date or a time. -/
theorem not_begins {digits : List Char} (hdigits : ∀ c ∈ digits, c.isDigit) {mark : Char}
    (hmark : mark.isDigit = false) (hbreak : mark ≠ '\n') (i : Nat) (more : List Char) :
    (((digits ++ '\n' :: more).take i).all Char.isDigit
      && (digits ++ '\n' :: more)[i]? == some mark) = false := by
  rw [Bool.and_eq_false_iff, beq_eq_false_iff_ne]
  rcases Nat.lt_trichotomy i digits.length with hlt | rfl | hgt
  · refine .inr ?_
    rw [List.getElem?_append_left hlt, List.getElem?_eq_getElem hlt, ne_eq, Option.some.injEq]
    exact ne_of_isDigit (hdigits _ (List.getElem_mem hlt)) hmark
  · refine .inr ?_
    rw [List.getElem?_append_right (Nat.le_refl _), Nat.sub_self]
    exact fun h => hbreak (Option.some.inj h).symm
  · refine .inl ?_
    rw [List.all_eq_false]
    obtain ⟨left, rfl⟩ := Nat.exists_eq_add_of_lt hgt
    have hmem : '\n' ∈ (digits ++ '\n' :: more).take (digits.length + left + 1) := by
      rw [Nat.add_assoc, List.take_length_add_append, List.take_succ_cons]
      exact List.mem_append_right _ List.mem_cons_self
    exact ⟨'\n', hmem, by decide⟩

theorem moreDigits_append {digits : List Char} (hdigits : ∀ c ∈ digits, c.isDigit)
    (more : List Char) :
    moreDigits Char.isDigit (digits ++ '\n' :: more) = some (digits, '\n' :: more) := by
  induction digits with
  | nil => rfl
  | cons c digits ih =>
    obtain ⟨hc, hdigits⟩ := List.forall_mem_cons.1 hdigits
    rw [List.cons_append, moreDigits, if_pos hc, ih hdigits]
    · rfl
    · exact ne_of_isDigit hc (by decide)

theorem integer?_natural {n : Nat} (hn : n ≤ largest) : integer? false n = some (integer n) := by
  have hlt : n < UInt64.size / 2 := Nat.lt_of_le_of_lt hn (by decide)
  have hfits : fitsInt64 n := by
    rw [fitsInt64, decide_eq_true_eq]
    generalize UInt64.size / 2 = bound at hlt
    omega
  simp only [integer?]
  exact if_pos hfits

theorem readWhole_decimal (n : Nat) (more : List Char) :
    readWhole (decimal n ++ '\n' :: more) = some (decimal n, '\n' :: more) := by
  rcases Nat.eq_zero_or_pos n with rfl | hpos
  · have hzero : decimal 0 = ['0'] := by decide
    rw [hzero]
    rfl
  obtain ⟨c, digits, hdigits, hc⟩ := exists_decimal n
  have hordinal := isOrdinal_decimal hpos
  rw [hdigits] at hordinal ⊢
  have hrest : ∀ d ∈ digits, d.isDigit := (List.forall_mem_cons.1 hordinal.digits).2
  rw [List.cons_append, readWhole, readDigits, if_pos hc, moreDigits_append hrest]
  · rfl
  · rintro rest heq
    exact absurd (congrArg some (List.cons.inj heq).1) hordinal.unpadded

theorem readDecimal_decimal {n : Nat} (hn : n ≤ largest) (more : List Char) :
    readDecimal false (decimal n ++ '\n' :: more) = some (integer n, '\n' :: more) := by
  have hvalue : integer? false ((Text.readDigits (decimal n)).getD 0) = some (integer n) := by
    rw [readDigits_decimal, Option.getD_some, integer?_natural hn]
  -- the reader of the value gets a name, so that its bound is not computed with
  obtain ⟨natural, hnatural⟩ : ∃ natural, natural = integer? := ⟨_, rfl⟩
  rw [← hnatural] at hvalue
  unfold readDecimal
  rw [← hnatural, readWhole_decimal]
  simp [hvalue]

theorem readSign_of_isDigit {c : Char} (hc : c.isDigit) (s : List Char) :
    readSign (c :: s) = (false, c :: s) := by
  unfold readSign
  split
  next heq => exact absurd (List.cons.inj heq).1 (ne_of_isDigit hc (by decide))
  next heq => exact absurd (List.cons.inj heq).1 (ne_of_isDigit hc (by decide))
  next => rfl

theorem readNumber_decimal {n : Nat} (hn : n ≤ largest) (more : List Char) :
    readNumber (decimal n ++ '\n' :: more) = some (integer n, '\n' :: more) := by
  have hbase {mark : Char} (hmark : mark.isDigit = false) (hbreak : mark ≠ '\n')
      (rest : List Char) : decimal n ++ '\n' :: more ≠ '0' :: mark :: rest := by
    intro heq
    have hbegins := not_begins (fun c => isDigit_of_mem_decimal (n := n)) hmark hbreak 1 more
    rw [heq] at hbegins
    simp at hbegins
  have hread := readDecimal_decimal hn more
  obtain ⟨c, digits, hdigits, hc⟩ := exists_decimal n
  unfold readNumber
  split
  next heq => exact absurd heq (hbase (by decide) (by decide) _)
  next heq => exact absurd heq (hbase (by decide) (by decide) _)
  next heq => exact absurd heq (hbase (by decide) (by decide) _)
  next =>
    rw [hdigits, List.cons_append] at hread ⊢
    rw [readSign_of_isDigit hc]
    dsimp only
    split
    next heq => exact absurd (List.cons.inj heq).1 (ne_of_isDigit hc (by decide))
    next heq => exact absurd (List.cons.inj heq).1 (ne_of_isDigit hc (by decide))
    next => exact hread

theorem readNumberOrDate_decimal {n : Nat} (hn : n ≤ largest) (more : List Char) :
    readNumberOrDate (decimal n ++ '\n' :: more) = some (integer n, '\n' :: more) := by
  have hdigits : ∀ c ∈ decimal n, c.isDigit := fun c => isDigit_of_mem_decimal
  have hdate : beginsDate (decimal n ++ '\n' :: more) = false :=
    not_begins hdigits (by decide) (by decide) 4 more
  have htime : beginsTime (decimal n ++ '\n' :: more) = false :=
    not_begins hdigits (by decide) (by decide) 2 more
  rw [readNumberOrDate, hdate, htime]
  exact readNumber_decimal hn more

/-! ## Values -/

/-- A text that reads as a value at the end of a line. It does not begin with a space. -/
structure Prints (text : List Char) (value : Toml) : Prop where
  solid : ∃ c rest, text = c :: rest ∧ isSpace c = false
  read : ∀ fuel more, text.length < fuel →
    readValue depthLimit fuel (text ++ '\n' :: more) = some (value, '\n' :: more)

theorem prints_decimal {n : Nat} (hn : n ≤ largest) : Prints (decimal n) (integer n) := by
  obtain ⟨c, digits, hdigits, hc⟩ := exists_decimal n
  have hread := readNumberOrDate_decimal hn
  rw [hdigits] at hread ⊢
  refine ⟨⟨c, digits, rfl, ?_⟩, ?_⟩
  · rw [isSpace, Bool.or_eq_false_iff, beq_eq_false_iff_ne, beq_eq_false_iff_ne]
    exact ⟨ne_of_isDigit hc (by decide), ne_of_isDigit hc (by decide)⟩
  rintro (_ | fuel) more hfuel
  · exact absurd hfuel (Nat.not_lt_zero _)
  have hnot {d : Char} (hd : d.isDigit = false) {s t : List Char} (heq : c :: s = d :: t) : False :=
    ne_of_isDigit hc hd (List.cons.inj heq).1
  have hread := hread more
  rw [List.cons_append] at hread ⊢
  rw [← hread]
  unfold readValue
  split
  case h_7 => rfl
  -- a digit begins no value of another kind
  all_goals
    next heq => exact (hnot (by decide) heq).elim

theorem exists_quote (s : List Char) :
    ∃ mark rest, quote s = mark :: rest ∧ (mark = '"' ∨ mark = '\x27') := by
  unfold quote
  dsimp only
  split
  next => exact ⟨_, _, rfl, .inl rfl⟩
  split
  next => exact ⟨_, _, rfl, .inr rfl⟩
  split
  next => exact ⟨_, _, rfl, .inl rfl⟩
  split
  next => exact ⟨_, _, rfl, .inr rfl⟩
  split
  next => exact ⟨_, _, rfl, .inl rfl⟩
  next => exact ⟨_, _, rfl, .inl rfl⟩

theorem readValue_quote (room fuel : Nat) (s : String) {more : List Char} (hmore : Ends more) :
    readValue room (fuel + 1) (quote s.toList ++ more) = some (string s, more) := by
  have hread := readString_quote (s := s.toList) hmore
  obtain ⟨mark, rest, hquote, rfl | rfl⟩ := exists_quote s.toList
  · rw [hquote, List.cons_append] at hread ⊢
    rw [readValue, hread, String.ofList_toList]
    rfl
  · rw [hquote, List.cons_append] at hread ⊢
    rw [readValue, hread, String.ofList_toList]
    rfl

/-! ### Lists -/

section Items

variable {room fuel : Nat} {s between more : List Char} {item : String} {items : List Toml}

theorem readItems_last (hskip : skipLines (s.length + 1) s = quote item.toList ++ ']' :: more) :
    readItems room (fuel + 2) s = some ([string item], more) := by
  have hread := readValue_quote room fuel item (show Ends (']' :: more) from ⟨by simp, by simp⟩)
  obtain ⟨mark, rest, hquote, hmark⟩ := exists_quote item.toList
  rw [hquote, List.cons_append] at hskip hread
  rw [readItems, hskip]
  split
  next heq => rcases hmark with rfl | rfl <;> cases heq
  next =>
    rw [hread]
    rfl

theorem readItems_next (hskip : skipLines (s.length + 1) s = quote item.toList ++ ',' :: between)
    (hitems : readItems room (fuel + 1) between = some (items, more)) :
    readItems room (fuel + 2) s = some (string item :: items, more) := by
  have hread := readValue_quote room fuel item (show Ends (',' :: between) from ⟨by simp, by simp⟩)
  obtain ⟨mark, rest, hquote, hmark⟩ := exists_quote item.toList
  rw [hquote, List.cons_append] at hskip hread
  rw [readItems, hskip]
  split
  next heq => rcases hmark with rfl | rfl <;> cases heq
  next =>
    have hcomma : skipLines ((',' :: between).length + 1) (',' :: between) = ',' :: between := rfl
    simp only [hread, Option.bind_eq_bind, Option.bind_some, hcomma, hitems]
    rfl

end Items

/-- Blanks in front of a string are skipped. -/
theorem skipLines_quote (fuel : Nat) (item : String) (more : List Char) :
    skipLines (fuel + 1) (quote item.toList ++ more) = quote item.toList ++ more
      ∧ skipLines (fuel + 1) ('\n' :: "    ".toList ++ quote item.toList ++ more)
        = quote item.toList ++ more := by
  obtain ⟨mark, rest, hquote, rfl | rfl⟩ := exists_quote item.toList <;> rw [hquote] <;>
    exact ⟨rfl, rfl⟩

def itemLine (item : String) : List Char :=
  "    ".toList ++ quote item.toList ++ [',', '\n']

theorem readItems_lines (room : Nat) (more : List Char) : ∀ (items : List String) (fuel : Nat),
    items.length < fuel →
    readItems room (fuel + 1) ('\n' :: items.flatMap itemLine ++ ']' :: more)
      = some (items.map string, more)
  | [], fuel + 1, _ => rfl
  | item :: items, fuel + 1, hfuel => by
    have hitems := readItems_lines room more items fuel (Nat.lt_of_succ_lt_succ hfuel)
    refine readItems_next ?_ hitems
    have hline : '\n' :: (item :: items).flatMap itemLine ++ ']' :: more
        = '\n' :: "    ".toList ++ quote item.toList
          ++ ',' :: ('\n' :: items.flatMap itemLine ++ ']' :: more) := by
      simp only [List.flatMap_cons, itemLine, List.append_assoc, List.cons_append, List.nil_append]
    rw [hline]
    exact (skipLines_quote _ item _).2

theorem readValue_quoteAll (room : Nat) (more : List Char) : ∀ (items : List String) (fuel : Nat),
    items.length + 1 < fuel →
    readValue (room + 1) (fuel + 1) (quoteAll items ++ more) = some (array (items.map string), more)
  | [], fuel + 1, _ => rfl
  | [item], fuel + 2, _ => by
    have hitem : readItems room (fuel + 2) (quote item.toList ++ ']' :: more)
        = some ([string item], more) :=
      readItems_last (skipLines_quote _ item _).1
    have hline : quoteAll [item] ++ more = '[' :: (quote item.toList ++ ']' :: more) := by
      simp only [quoteAll, List.cons_append, List.append_assoc, List.nil_append]
    rw [hline, readValue, hitem]
    rfl
  | first :: second :: items, fuel + 1, hfuel => by
    have hitems := readItems_lines room more (first :: second :: items) fuel (by omega)
    have hline : quoteAll (first :: second :: items) ++ more
        = '[' :: ('\n' :: (first :: second :: items).flatMap itemLine ++ ']' :: more) := by
      change '[' :: '\n' :: (first :: second :: items).flatMap itemLine ++ [']'] ++ more = _
      simp only [List.append_assoc, List.cons_append, List.nil_append]
    rw [hline, readValue, hitems]
    rfl

theorem length_le_flatMap {α : Type} (line : α → List Char) (hline : ∀ a, line a ≠ []) :
    ∀ items : List α, items.length ≤ (items.flatMap line).length
  | [] => Nat.le_refl 0
  | item :: items => by
    have hitem := List.length_pos_iff.2 (hline item)
    have hitems := length_le_flatMap line hline items
    rw [List.flatMap_cons, List.length_append, List.length_cons]
    omega

theorem prints_quoteAll (items : List String) :
    Prints (quoteAll items) (array (items.map string)) := by
  have hopens : ∃ rest, quoteAll items = '[' :: rest ∧ items.length + 1 ≤ rest.length := by
    match items with
    | [] => exact ⟨[']'], rfl, Nat.le_refl 1⟩
    | [item] =>
      obtain ⟨mark, rest, hquote, -⟩ := exists_quote item.toList
      exact ⟨quote item.toList ++ [']'], rfl, by simp [hquote]⟩
    | first :: second :: items =>
      refine ⟨'\n' :: (first :: second :: items).flatMap itemLine ++ [']'], rfl, ?_⟩
      have hlength := length_le_flatMap itemLine (by simp [itemLine])
        (first :: second :: items)
      simp only [List.cons_append, List.length_cons, List.length_append, List.length_nil]
        at hlength ⊢
      omega
  obtain ⟨rest, hrest, hlength⟩ := hopens
  refine ⟨⟨'[', rest, hrest, rfl⟩, fun fuel more hfuel => ?_⟩
  rw [hrest, List.length_cons] at hfuel
  obtain ⟨left, rfl⟩ : ∃ left, fuel = left + 1 := ⟨fuel - 1, by omega⟩
  exact readValue_quoteAll 78 ('\n' :: more) items left (by omega)

/-! ## Lines -/

/-- A key that need not be quoted. -/
structure IsWord (key : String) : Prop where
  nonempty : key.toList ≠ []
  all : key.toList.all isKeyChar

instance (key : String) : Decidable (IsWord key) :=
  decidable_of_iff (key.toList ≠ [] ∧ key.toList.all isKeyChar)
    ⟨fun ⟨h, h'⟩ => ⟨h, h'⟩, fun ⟨h, h'⟩ => ⟨h, h'⟩⟩

theorem IsWord.chars {key : String} (h : IsWord key) : ∀ c ∈ key.toList, isKeyChar c :=
  List.all_eq_true.1 h.all

theorem IsWord.exists_cons {key : String} (h : IsWord key) :
    ∃ c rest, key.toList = c :: rest ∧ isKeyChar c := by
  rcases hkey : key.toList with _ | ⟨c, rest⟩
  · exact absurd hkey h.nonempty
  · exact ⟨c, rest, rfl, h.chars c (hkey ▸ List.mem_cons_self)⟩

theorem ne_of_isKeyChar {c d : Char} (hc : isKeyChar c) (hd : isKeyChar d = false) : c ≠ d := by
  rintro rfl
  rw [hc] at hd
  cases hd

theorem IsWord.skipSpace {key : String} (h : IsWord key) (more : List Char) :
    skipSpace (key.toList ++ more) = key.toList ++ more := by
  obtain ⟨c, rest, hkey, hc⟩ := h.exists_cons
  have hspace : isSpace c = false := by
    rw [isSpace, Bool.or_eq_false_iff, beq_eq_false_iff_ne, beq_eq_false_iff_ne]
    exact ⟨ne_of_isKeyChar hc (by decide), ne_of_isKeyChar hc (by decide)⟩
  rw [hkey, List.cons_append, Toml.skipSpace, List.dropWhile_cons_of_neg (by rw [hspace]; decide)]

theorem readKeyPart_word {key : String} (h : IsWord key) {stop : Char}
    (hstop : isKeyChar stop = false) (more : List Char) :
    readKeyPart (key.toList ++ stop :: more) = some (key, stop :: more) := by
  have hstop : ¬ isKeyChar stop = true := by rw [hstop]; decide
  have hword : (key.toList ++ stop :: more).takeWhile isKeyChar = key.toList := by
    rw [List.takeWhile_append_of_pos h.chars, List.takeWhile_cons_of_neg hstop, List.append_nil]
  have hrest : (key.toList ++ stop :: more).dropWhile isKeyChar = stop :: more := by
    rw [List.dropWhile_append_of_pos h.chars, List.dropWhile_cons_of_neg hstop]
  obtain ⟨c, rest, hkey, hc⟩ := h.exists_cons
  unfold readKeyPart
  split
  next heq =>
    rw [hkey] at heq
    exact absurd (List.cons.inj heq).1 (ne_of_isKeyChar hc (by decide))
  next heq =>
    rw [hkey] at heq
    exact absurd (List.cons.inj heq).1 (ne_of_isKeyChar hc (by decide))
  next =>
    simp [hword, hrest, h.nonempty]

theorem readKey_pair {key : String} (h : IsWord key) (fuel : Nat) (more : List Char) :
    readKey (fuel + 1) (key.toList ++ ' ' :: '=' :: more) = some (([], key), '=' :: more) := by
  rw [readKey, h.skipSpace, readKeyPart_word h (by decide)]
  rfl

theorem readKey_header {key : String} (h : IsWord key) (fuel : Nat) (more : List Char) :
    readKey (fuel + 1) (key.toList ++ ']' :: more) = some (([], key), ']' :: more) := by
  rw [readKey, h.skipSpace, readKeyPart_word h (by decide)]
  rfl

section Pairs

variable {d : Draft} {key : String} {value : List Char} {toml : Toml} (hkey : IsWord key)
include hkey

/-- A line that begins with a word is no header, no comment and not blank. -/
theorem readLines_word (d : Draft) (fuel : Nat) (more : List Char) :
    readLines d (fuel + 1) (key.toList ++ more)
      = (readPair d (key.toList ++ more)).bind fun (d, rest) => readLines d fuel rest := by
  have hspace := hkey.skipSpace more
  obtain ⟨c, rest, hword, hc⟩ := hkey.exists_cons
  rw [hword, List.cons_append] at hspace ⊢
  have hbreak : lineBreak? (c :: (rest ++ more)) = none := by
    rw [lineBreak?_cons (ne_of_isKeyChar hc (by decide)) (ne_of_isKeyChar hc (by decide))]
  have hline : readLine d (c :: (rest ++ more)) = readPair d (c :: (rest ++ more)) := by
    unfold readLine
    split
    next heq => exact absurd (List.cons.inj heq).1 (ne_of_isKeyChar hc (by decide))
    next heq => exact absurd (List.cons.inj heq).1 (ne_of_isKeyChar hc (by decide))
    next => rfl
  rw [readLines, hspace]
  split
  next heq => cases heq
  next heq => exact absurd (List.cons.inj heq).1 (ne_of_isKeyChar hc (by decide))
  next => simp only [hbreak, hline, Option.bind_eq_bind]

variable (hvalue : Prints value toml) (hdotted : d.current.dotted = false)
  (hnew : d.current.get? key = none)
include hvalue hdotted hnew

theorem readPair_pairLine (more : List Char) :
    readPair d (pairLine key value ++ more)
      = some ({ d with current := d.current.set key (.value toml) }, more) := by
  have hline : pairLine key value ++ more
      = key.toList ++ ' ' :: '=' :: (' ' :: (value ++ '\n' :: more)) := by
    simp only [pairLine, List.append_assoc, List.cons_append, List.nil_append]
  have hinsert : d.current.insert [] key toml = some (d.current.set key (.value toml)) := by
    simp [Section.insert, Section.modify, hdotted, hnew]
  have hstart : skipSpace (' ' :: (value ++ '\n' :: more)) = value ++ '\n' :: more := by
    obtain ⟨c, rest, rfl, hc⟩ := hvalue.solid
    rw [skipSpace, List.dropWhile_cons_of_pos (by decide), List.cons_append,
      List.dropWhile_cons_of_neg (by rw [hc]; decide)]
  have hread := hvalue.read (2 * (' ' :: (value ++ '\n' :: more)).length + 2) more (by
    simp only [List.length_cons, List.length_append]
    omega)
  rw [hline, readPair, readKey_pair hkey]
  simp only [Option.bind_eq_bind, Option.bind_some, hstart, hread, hinsert]
  rfl

/-- A line with a key and a value adds the value to the table that is open. -/
theorem readLines_pairLine (fuel : Nat) (more : List Char) :
    readLines d (fuel + 1) (pairLine key value ++ more)
      = readLines { d with current := d.current.set key (.value toml) } fuel more := by
  have hpair := readPair_pairLine hkey hvalue hdotted hnew more
  rw [pairLine, List.append_assoc, List.append_assoc, List.append_assoc] at hpair ⊢
  rw [readLines_word hkey, hpair]
  rfl

end Pairs

/-- A header opens its table, if the document does not have it yet. -/
theorem readLines_headerLine {d : Draft} {root : Section} {key : String} (hkey : IsWord key)
    (hclose : d.close = some root) (hnew : root.get? key = none) (fuel : Nat)
    (more : List Char) :
    readLines d (fuel + 1) (headerLine key ++ more)
      = readLines { root, path := some ([], key) } fuel more := by
  have hopen : d.openTable [] key = some { root, path := some ([], key) } := by
    simp [Draft.openTable, hclose, Draft.parentOf, hnew]
  have hread := readKey_header hkey (key.toList ++ ']' :: '\n' :: more).length ('\n' :: more)
  have hline : readLine d ('[' :: (key.toList ++ ']' :: '\n' :: more))
      = some ({ root, path := some ([], key) }, more) := by
    obtain ⟨c, rest, hword, hc⟩ := hkey.exists_cons
    rw [hword, List.cons_append] at hread ⊢
    unfold readLine
    split
    next heq =>
      have hbracket := (List.cons.inj (List.cons.inj heq).2).1
      exact absurd hbracket (ne_of_isKeyChar hc (by decide))
    next heq =>
      obtain rfl := (List.cons.inj heq).2
      simp only [hread, hopen, Option.bind_eq_bind, Option.bind_some]
      rfl
    next hone =>
      exact absurd rfl (hone (c :: (rest ++ ']' :: '\n' :: more)))
  have hheader : headerLine key ++ more = '[' :: (key.toList ++ ']' :: '\n' :: more) := by
    simp only [headerLine, List.cons_append, List.append_assoc, List.nil_append]
  rw [hheader, readLines]
  change (readLine d ('[' :: (key.toList ++ ']' :: '\n' :: more))).bind _ = _
  rw [hline]
  rfl

/-! ## Documents -/

/-- A key with its value and the text of the value. -/
structure Pair where
  key : String
  text : List Char
  value : Toml
  word : IsWord key
  prints : Prints text value

namespace Pair

def line (pair : Pair) : List Char :=
  pairLine pair.key pair.text

def entry (pair : Pair) : String × Toml :=
  (pair.key, pair.value)

end Pair

/-- A document with values at the end of the table that is open. -/
def Draft.add (d : Draft) (pairs : List Pair) : Draft :=
  let added := pairs.map fun pair => (pair.key, Entry.value pair.value)
  { d with current := { d.current with entries := d.current.entries ++ added } }

theorem Draft.add_nil (d : Draft) : d.add [] = d := by
  rw [add, List.map_nil]
  simp only [List.append_nil]

theorem Draft.add_cons (d : Draft) (pair : Pair) (pairs : List Pair) :
    d.add (pair :: pairs) = (d.add [pair]).add pairs := by
  simp only [add, List.map_cons, List.map_nil, List.append_assoc, List.singleton_append]

/-- Values under new keys come to the end of the table that is open. -/
theorem readLines_pairs : ∀ (pairs : List Pair) {d : Draft}, d.current.dotted = false →
    (d.current.entries.map Prod.fst ++ pairs.map Pair.key).Nodup → ∀ fuel, pairs.length < fuel →
    readLines d fuel (pairs.flatMap Pair.line) = some (d.add pairs)
  | [], d, _, _, fuel + 1, _ => by
    rw [d.add_nil]
    rfl
  | pair :: pairs, d, hdotted, hdistinct, fuel + 1, hfuel => by
    have hnew : d.current.get? pair.key = none := Table.lookup_eq_none.2 fun hmem =>
      (List.nodup_append.1 hdistinct).2.2 _ hmem _ List.mem_cons_self rfl
    have hset : { d with current := d.current.set pair.key (.value pair.value) }
        = d.add [pair] := by
      rw [Section.set, hnew]
      rfl
    have hrest : ((d.add [pair]).current.entries.map Prod.fst ++ pairs.map Pair.key).Nodup := by
      simpa [Draft.add] using hdistinct
    rw [List.flatMap_cons, Pair.line, readLines_pairLine pair.word pair.prints hdotted hnew, hset,
      d.add_cons pair pairs]
    exact readLines_pairs pairs (d := d.add [pair]) hdotted hrest fuel
      (Nat.lt_of_succ_lt_succ hfuel)

theorem freezeEntries_pairs : ∀ pairs : List Pair,
    Entry.freezeEntries (pairs.map fun pair => (pair.key, .value pair.value))
      = pairs.map Pair.entry
  | [] => rfl
  | pair :: pairs => by
    rw [List.map_cons, Entry.freezeEntries, freezeEntries_pairs pairs]
    rfl

/-- A document with one table reads as it. -/
theorem ofChars?_document {name : String} (hname : IsWord name) {pairs : List Pair}
    (hdistinct : (pairs.map Pair.key).Nodup) :
    ofChars? (headerLine name ++ pairs.flatMap Pair.line)
      = some (table [(name, table (pairs.map Pair.entry))]) := by
  have hfuel : pairs.length < (headerLine name ++ pairs.flatMap Pair.line).length := by
    have hlength := length_le_flatMap Pair.line (by simp [Pair.line, pairLine]) pairs
    rw [headerLine, List.length_append, List.cons_append, List.length_cons]
    omega
  let opened : Draft := { path := some ([], name) }
  have hread : readLines {} ((headerLine name ++ pairs.flatMap Pair.line).length + 1)
      (headerLine name ++ pairs.flatMap Pair.line) = some (opened.add pairs) := by
    rw [readLines_headerLine hname rfl rfl]
    exact readLines_pairs pairs (d := opened) rfl hdistinct _ hfuel
  have hmark : ∀ more, ofChars? (headerLine name ++ more)
      = (readLines {} ((headerLine name ++ more).length + 1) (headerLine name ++ more)).bind
        fun d => d.close.bind fun document => some document.freeze :=
    fun _ => rfl
  rw [hmark, hread, ← freezeEntries_pairs]
  rfl

end Locator.Toml
