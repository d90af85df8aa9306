import Locator.Text.Integer
import Mathlib.Data.List.Basic
import Mathlib.Data.Nat.Digits.Defs

/-!
# Decimals

The decimals of positive numbers are the runs of digits that do not begin with a zero
(`isOrdinal_iff`), and a decimal reads back as its number (`readDigits_decimal`).
-/

namespace Locator.Text

theorem exists_decimal (n : Nat) : ∃ c digits, decimal n = c :: digits ∧ c.isDigit := by
  rcases hdigits : decimal n with _ | ⟨c, digits⟩
  · exact absurd hdigits Nat.toDigits_ne_nil
  · exact ⟨c, digits, rfl, isDigit_of_mem_decimal (hdigits ▸ List.mem_cons_self)⟩

/-- A run of digits that does not begin with a zero. -/
structure IsOrdinal (s : List Char) : Prop where
  nonempty : s ≠ []
  digits : ∀ c ∈ s, c.isDigit
  unpadded : s.head? ≠ some '0'

theorem head?_decimal_ne {n : Nat} (hn : 0 < n) : (decimal n).head? ≠ some '0' := by
  induction n using Nat.strong_induction_on with
  | _ n ih =>
  by_cases hlt : n < 10
  · rw [decimal, Nat.toDigits_of_lt_base hlt, List.head?_cons, ne_eq, Option.some.injEq,
      Nat.digitChar_eq_zero]
    exact hn.ne'
  · have hle : 10 ≤ n := not_lt.1 hlt
    rw [decimal, Nat.toDigits_of_base_le (by decide) hle,
      List.head?_append_of_ne_nil _ Nat.toDigits_ne_nil]
    exact ih (n / 10) (Nat.div_lt_self hn (by decide)) (Nat.div_pos hle (by decide))

theorem isOrdinal_decimal {n : Nat} (hn : 0 < n) : IsOrdinal (decimal n) :=
  ⟨Nat.toDigits_ne_nil, fun _ => isDigit_of_mem_decimal, head?_decimal_ne hn⟩

theorem exists_digit {c : Char} (hc : c.isDigit) : ∃ d < 10, decimal d = [c] := by
  obtain ⟨hle, hge⟩ := Char.isDigit_iff_toNat.1 hc
  have hlt : c.toNat - '0'.toNat < 10 := Nat.lt_succ_of_le (Nat.sub_le_sub_right hge _)
  refine ⟨c.toNat - '0'.toNat, hlt, ?_⟩
  rw [decimal, Nat.toDigits_of_lt_base hlt, List.singleton_inj, ← Char.toNat_inj,
    Nat.toNat_digitChar_of_lt_ten hlt]
  exact Nat.add_sub_cancel' hle

/-- Digits behind the decimal of a positive number make a decimal. -/
theorem exists_decimal_append {n : Nat} (hn : 0 < n) {digits : List Char}
    (h : ∀ c ∈ digits, c.isDigit) : ∃ m, 0 < m ∧ decimal n ++ digits = decimal m := by
  induction digits generalizing n with
  | nil => exact ⟨n, hn, List.append_nil _⟩
  | cons c digits ih =>
    obtain ⟨hc, hdigits⟩ := List.forall_mem_cons.1 h
    obtain ⟨d, hd, hdecimal⟩ := exists_digit hc
    have hnext : decimal n ++ [c] = decimal (10 * n + d) := by
      rw [← hdecimal]
      exact Nat.toDigits_append_toDigits (by decide) hn hd
    obtain ⟨m, hm, hall⟩ := ih (n := 10 * n + d) (by omega) hdigits
    exact ⟨m, hm, by rw [← hall, ← hnext, List.append_assoc, List.singleton_append]⟩

theorem isOrdinal_iff {s : List Char} : IsOrdinal s ↔ ∃ n, 0 < n ∧ s = decimal n := by
  constructor
  · rintro ⟨hnonempty, hdigits, hunpadded⟩
    rcases s with _ | ⟨c, digits⟩
    · exact absurd rfl hnonempty
    obtain ⟨hc, hdigits⟩ := List.forall_mem_cons.1 hdigits
    obtain ⟨d, -, hdecimal⟩ := exists_digit hc
    have hpos : 0 < d := by
      refine Nat.pos_of_ne_zero ?_
      rintro rfl
      cases hdecimal
      exact hunpadded rfl
    obtain ⟨n, hn, hall⟩ := exists_decimal_append hpos hdigits
    exact ⟨n, hn, by rw [← hall, hdecimal, List.singleton_append]⟩
  · rintro ⟨n, hn, rfl⟩
    exact isOrdinal_decimal hn

theorem readDigits_go (digits : List Char) : ∀ value : Nat,
    readDigits.go value digits = Nat.ofDigitChars 10 digits value := by
  induction digits with
  | nil => exact fun _ => rfl
  | cons c digits ih => exact fun value => (ih _).trans Nat.ofDigitChars_cons.symm

theorem readDigits_decimal (n : Nat) : readDigits (decimal n) = some n := by
  have hdigits : (decimal n).all Char.isDigit :=
    List.all_eq_true.2 fun _ => isDigit_of_mem_decimal
  obtain ⟨c, digits, hdecimal, -⟩ := exists_decimal n
  rw [hdecimal, readDigits, ← hdecimal, if_pos hdigits, readDigits_go, decimal,
    Nat.ofDigitChars_toDigits (by decide) (by decide)]

end Locator.Text
