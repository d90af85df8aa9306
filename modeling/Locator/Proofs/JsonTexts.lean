import Locator.Json.Printer
import Locator.Json.Reader

/-!
# Reading what is printed

A value that is printed without spaces reads back as itself (`ofString?_compact`), if it is made of
texts: numbers, which are kept as they are spelled, are left out, and so are strings that spell no
text. Every character of a string is printed as an escape that reads as that character
(`readString_escape`). The fuel of the reader counts the characters that are left, and each value is
read at the cost of at least one of them.
-/

namespace Locator.Json

open Text

/-! ## Strings -/

theorem readHex_hex_of_lt : ∀ n < 32, readHex 0 4 (hex 4 n) = some (n, []) := by
  decide +kernel

theorem exists_hex_of_lt (n : Nat) (hn : n < 32) : ∃ x y z w, hex 4 n = [x, y, z, w] := by
  have hlength : ∀ n < 32, (hex 4 n).length = 4 := by decide +kernel
  match hex 4 n, hlength n hn with
  | [x, y, z, w], _ => exact ⟨x, y, z, w, rfl⟩

theorem scalar?_toNat (c : Char) : scalar? c.toNat = some c := by
  have hvalid : c.toNat.isValidChar := c.valid
  have hself := Char.ofNat_toNat c
  rw [Char.ofNat, dif_pos hvalid] at hself
  rw [scalar?, dif_pos hvalid, hself]

/-- A control character is read from its code. -/
theorem readString_hex {c : Char} (hc : c.toNat < 0x20) (cs more : List Char) :
    readString (some cs) ('\\' :: 'u' :: hex 4 c.toNat ++ more)
      = readString (some (c :: cs)) more := by
  obtain ⟨x, y, z, w, hdigits⟩ := exists_hex_of_lt _ hc
  have hunit : unit? x y z w = some c.toNat := by
    rw [unit?, ← hdigits, readHex_hex_of_lt _ hc, Option.map_some]
  have hhigh : isHighSurrogate c.toNat = false := by
    simp only [isHighSurrogate, Bool.and_eq_false_iff, decide_eq_false_iff_not]
    omega
  rw [hdigits]
  simp only [List.cons_append, List.nil_append]
  rw [readString, hunit, Option.bind_eq_bind, Option.bind_some, hhigh]
  simp [scalar?_toNat]

/-- A character that need not be escaped is read as it stands. -/
theorem readString_plain {c : Char} (hquote : c ≠ '"') (hbackslash : c ≠ '\\')
    (hc : ¬ c.toNat < 0x20) (cs more : List Char) :
    readString (some cs) (c :: more) = readString (some (c :: cs)) more := by
  have hplain : ¬ (c.toNat < 0x20 || c == '\\') = true := by simpa [hc] using hbackslash
  rw [readString, if_neg hplain, Option.map_some]
  · exact hquote
  · exact fun _ _ _ _ _ h _ => hbackslash h
  · exact fun _ _ h _ => hbackslash h

/-- A character is read from its escape. -/
theorem readString_escape (c : Char) (cs more : List Char) :
    readString (some cs) (escape c ++ more) = readString (some (c :: cs)) more := by
  unfold escape
  split
  case h_8 hquote hbackslash _ _ _ _ _ =>
    split
    · next hc => exact readString_hex hc cs more
    · next hc => exact readString_plain hquote hbackslash hc cs more
  all_goals simp [readString, simpleEscape?]

/-- The characters of a text are read from their escapes, up to the closing quote. -/
theorem readString_flatMap (more : List Char) : ∀ (cs read : List Char),
    readString (some read) (cs.flatMap escape ++ '"' :: more)
      = some (some (String.ofList (read.reverse ++ cs)), more)
  | [], read => by simp [readString]
  | c :: cs, read => by
    rw [List.flatMap_cons, List.append_assoc, readString_escape, readString_flatMap more cs]
    simp

theorem readString_text (s : String) (more : List Char) :
    readString (some []) (s.toList.flatMap escape ++ '"' :: more) = some (some s, more) := by
  rw [readString_flatMap]
  simp

/-! ## Values -/

mutual

/-- A value without numbers, all of whose strings spell texts. -/
def textual : Json → Bool
  | null | bool _ => true
  | number _ => false
  | string s => s.isSome
  | array items => textualItems items
  | object members => textualMembers members

def textualItems : List Json → Bool
  | [] => true
  | item :: items => textual item && textualItems items

def textualMembers : List (Option String × Json) → Bool
  | [] => true
  | (key, value) :: members => key.isSome && textual value && textualMembers members

end

theorem textual_array {items : List Json} :
    textual (array items) ↔ ∀ item ∈ items, textual item := by
  rw [textual]
  induction items with
  | nil => simp [textualItems]
  | cons item items ih => simp [textualItems, ih]

theorem textual_ofPairs {members : List (String × Json)} :
    textual (ofPairs members) ↔ ∀ member ∈ members, textual member.2 := by
  rw [ofPairs, textual]
  induction members with
  | nil => simp [textualMembers]
  | cons member members ih => simp [textualMembers, ih]

theorem skipSpace_cons {c : Char} (h : isSpace c = false) (s : List Char) :
    skipSpace (c :: s) = c :: s := by
  simp [skipSpace, h]

/-! ### How containers are read -/

section Containers

variable {fuel : Nat} {s between more : List Char} {item value : Json} {items : List Json}
  {members : List (Option String × Json)}

theorem readValue_array {c : Char} {cs : List Char} (hspace : isSpace c = false) (hclose : c ≠ ']')
    (h : readItems fuel (c :: cs) = some (items, more)) :
    readValue (fuel + 1) ('[' :: c :: cs) = some (array items, more) := by
  simp only [readValue, skipSpace_cons (c := '[') rfl, skipSpace_cons hspace]
  split
  · next heq => exact absurd (List.cons.inj heq).1 hclose
  · rw [h]
    rfl

theorem readItems_last (h : readValue fuel s = some (item, ']' :: more)) :
    readItems (fuel + 1) s = some ([item], more) := by
  rw [readItems, h]
  rfl

theorem readItems_next (h : readValue fuel s = some (item, ',' :: between))
    (hitems : readItems fuel between = some (items, more)) :
    readItems (fuel + 1) s = some (item :: items, more) := by
  rw [readItems, h, Option.bind_eq_bind, Option.bind_some]
  simp only [skipSpace_cons (c := ',') rfl, hitems]
  rfl

theorem readValue_object (h : readMembers fuel ('"' :: s) = some (members, more)) :
    readValue (fuel + 1) ('\x7b' :: '"' :: s) = some (object members, more) := by
  simp only [readValue, skipSpace_cons (c := '\x7b') rfl, skipSpace_cons (c := '"') rfl]
  split
  · next heq => cases heq
  · rw [h]
    rfl

theorem readMembers_last (key : String)
    (h : readValue fuel s = some (value, '\x7d' :: more)) :
    readMembers (fuel + 1) (quote key ++ ':' :: s) = some ([(some key, value)], more) := by
  rw [quote, List.cons_append, List.cons_append, readMembers, skipSpace_cons (c := '"') rfl]
  simp only [List.append_assoc, List.singleton_append, readString_text, h, Option.bind_eq_bind,
    Option.bind_some, skipSpace_cons (c := ':') rfl, skipSpace_cons (c := '\x7d') rfl]
  rfl

theorem readMembers_next (key : String)
    (h : readValue fuel s = some (value, ',' :: between))
    (hmembers : readMembers fuel between = some (members, more)) :
    readMembers (fuel + 1) (quote key ++ ':' :: s) = some ((some key, value) :: members, more) := by
  rw [quote, List.cons_append, List.cons_append, readMembers, skipSpace_cons (c := '"') rfl]
  simp only [List.append_assoc, List.singleton_append, readString_text, h, Option.bind_eq_bind,
    Option.bind_some, skipSpace_cons (c := ':') rfl, skipSpace_cons (c := ',') rfl, hmembers]
  rfl

end Containers

/-! ### The round trip -/

/-- A value that is made of texts begins with a character that neither is blank nor closes an
array. -/
theorem exists_render {json : Json} (h : textual json) :
    ∃ c cs, json.render = c :: cs ∧ isSpace c = false ∧ c ≠ ']' := by
  cases json with
  | null => exact ⟨'n', _, rfl, by decide⟩
  | bool b => cases b <;> exact ⟨_, _, rfl, by decide⟩
  | number => cases h
  | string s => exact ⟨'"', _, rfl, by decide⟩
  | array items => exact ⟨'[', _, by rw [render], by decide⟩
  | object members => exact ⟨'\x7b', _, by rw [render], by decide⟩

theorem exists_renderItems {item : Json} (h : textual item) (items : List Json) :
    ∃ c cs, renderItems (item :: items) = c :: cs ∧ isSpace c = false ∧ c ≠ ']' := by
  obtain ⟨c, cs, hc, hchar⟩ := exists_render h
  cases items with
  | nil => exact ⟨c, _, by rw [renderItems, hc, List.cons_append], hchar⟩
  | cons => exact ⟨c, _, by rw [renderItems, hc, List.cons_append]; simp, hchar⟩

theorem exists_renderMembers (member : Option String × Json)
    (members : List (Option String × Json)) :
    ∃ cs, renderMembers (member :: members) = '"' :: cs := by
  obtain ⟨key, value⟩ := member
  cases members with
  | nil => exact ⟨_, by rw [renderMembers, quoteAny, quote]; rfl⟩
  | cons => exact ⟨_, by rw [renderMembers, quoteAny, quote]; rfl; simp⟩

mutual

/-- A value reads back from its text, whatever comes after it, if there is as much fuel as the text
has characters. -/
theorem readValue_render : ∀ (json : Json), textual json → ∀ (fuel : Nat) (more : List Char),
    (render json).length ≤ fuel → readValue fuel (render json ++ more) = some (json, more)
  | null, _, fuel + 1, more, _ => rfl
  | bool true, _, fuel + 1, more, _ => rfl
  | bool false, _, fuel + 1, more, _ => rfl
  | string (some s), _, fuel + 1, more, _ => by
    simp only [render, quoteAny, quote, Option.getD_some, List.cons_append, List.append_assoc,
      List.nil_append, readValue, skipSpace_cons (c := '"') rfl]
    rw [readString_text]
    rfl
  | array [], _, fuel + 1, more, _ => rfl
  | array (item :: items), h, fuel + 1, more, hfuel => by
    rw [render, List.length_cons] at hfuel
    have hread := readItems_render item items h fuel more (by omega)
    obtain ⟨c, cs, hc, hspace, hclose⟩ := exists_renderItems (Bool.and_eq_true_iff.1 h).1 items
    rw [hc, List.cons_append] at hread
    rw [render, hc]
    exact readValue_array hspace hclose hread
  | object [], _, fuel + 1, more, _ => rfl
  | object (member :: members), h, fuel + 1, more, hfuel => by
    rw [render, List.length_cons] at hfuel
    have hread := readMembers_render member members h fuel more (by omega)
    obtain ⟨cs, hcs⟩ := exists_renderMembers member members
    rw [hcs, List.cons_append] at hread
    rw [render, hcs]
    exact readValue_object hread
  | json, h, 0, more, hfuel => by
    -- no text is empty
    obtain ⟨c, cs, hrender, -⟩ := exists_render h
    rw [hrender, List.length_cons] at hfuel
    omega

theorem readItems_render : ∀ (item : Json) (items : List Json), textualItems (item :: items) →
    ∀ (fuel : Nat) (more : List Char), (renderItems (item :: items)).length ≤ fuel →
      readItems fuel (renderItems (item :: items) ++ more) = some (item :: items, more)
  | item, items, h, 0, more, hfuel => by
    obtain ⟨c, cs, hc, -⟩ := exists_renderItems (Bool.and_eq_true_iff.1 h).1 items
    rw [hc, List.length_cons] at hfuel
    omega
  | item, [], h, fuel + 1, more, hfuel => by
    simp only [renderItems, List.length_append, List.length_singleton] at hfuel
    rw [renderItems, List.append_assoc]
    exact readItems_last
      (readValue_render item (Bool.and_eq_true_iff.1 h).1 fuel _ (by omega))
  | item, next :: items, h, fuel + 1, more, hfuel => by
    obtain ⟨hitem, hitems⟩ := Bool.and_eq_true_iff.1 h
    have hrender : renderItems (item :: next :: items)
        = render item ++ ',' :: renderItems (next :: items) := by
      rw [renderItems]
      simp
    rw [hrender, List.length_append, List.length_cons] at hfuel
    rw [hrender, List.append_assoc]
    exact readItems_next (readValue_render item hitem fuel _ (by omega))
      (readItems_render next items hitems fuel more (by omega))

theorem readMembers_render : ∀ (member : Option String × Json)
    (members : List (Option String × Json)), textualMembers (member :: members) →
    ∀ (fuel : Nat) (more : List Char), (renderMembers (member :: members)).length ≤ fuel →
      readMembers fuel (renderMembers (member :: members) ++ more) = some (member :: members, more)
  | member, members, h, 0, more, hfuel => by
    obtain ⟨cs, hcs⟩ := exists_renderMembers member members
    rw [hcs, List.length_cons] at hfuel
    omega
  | (some key, value), [], h, fuel + 1, more, hfuel => by
    have hvalue : textual value := (Bool.and_eq_true_iff.1 h).1
    simp only [renderMembers, List.length_append, List.length_cons] at hfuel
    simp only [renderMembers, quoteAny, Option.getD_some, List.append_assoc, List.cons_append]
    exact readMembers_last key (readValue_render value hvalue fuel _ (by omega))
  | (some key, value), next :: members, h, fuel + 1, more, hfuel => by
    obtain ⟨hvalue, hmembers⟩ := Bool.and_eq_true_iff.1 h
    have hrender : renderMembers ((some key, value) :: next :: members)
        = quote key ++ ':' :: (render value ++ ',' :: renderMembers (next :: members)) := by
      rw [renderMembers, quoteAny, Option.getD_some]
      · simp
      · simp
    simp only [hrender, List.length_append, List.length_cons] at hfuel
    simp only [hrender, List.append_assoc, List.cons_append]
    exact readMembers_next key (readValue_render value hvalue fuel _ (by omega))
      (readMembers_render next members hmembers fuel more (by omega))

end

/-- A value that is made of texts reads back from its text. -/
theorem ofString?_compact {json : Json} (h : textual json) :
    ofString? json.compact = some json := by
  rw [ofString?, compact, String.toList_ofList, ofChars?]
  have := readValue_render json h (2 * json.render.length + 2) [] (by omega)
  rw [List.append_nil] at this
  rw [this]
  rfl

/-! ## Nesting -/

mutual

/-- How many containers stand inside each other in a value. -/
def nesting : Json → Nat
  | null | bool _ | number _ | string _ => 0
  | array items => nestingItems items + 1
  | object members => nestingMembers members + 1

def nestingItems : List Json → Nat
  | [] => 0
  | item :: items => max (nesting item) (nestingItems items)

def nestingMembers : List (Option String × Json) → Nat
  | [] => 0
  | (_, value) :: members => max (nesting value) (nestingMembers members)

end

@[simp] theorem nesting_text (s : String) : nesting (text s) = 0 := rfl

@[simp] theorem nesting_textOrNull (s : Option String) : nesting (textOrNull s) = 0 := by
  cases s <;> rfl

@[simp] theorem nesting_texts (items : List String) : nesting (texts items) = 1 := by
  rw [texts, nesting]
  induction items with
  | nil => rfl
  | cons s items ih => simpa [nestingItems] using ih

@[simp] theorem nesting_ofPairs_nil : nesting (ofPairs []) = 1 := rfl

@[simp] theorem nesting_ofPairs_cons (key : String) (value : Json)
    (members : List (String × Json)) : nesting (ofPairs ((key, value) :: members))
      = max (nesting value + 1) (nesting (ofPairs members)) := by
  simp only [ofPairs, nesting, List.map_cons, nestingMembers, Nat.add_max_add_right]

@[simp] theorem nesting_ofPairs_text (members : List (String × String)) :
    nesting (ofPairs (members.map fun (key, s) => (key, text s))) = 1 := by
  induction members with
  | nil => rfl
  | cons member members ih => rw [List.map_cons, nesting_ofPairs_cons, ih, nesting_text]; rfl

end Locator.Json
