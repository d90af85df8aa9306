/-!
# Tables

A table gives values to keys. It holds its entries in ascending order of the keys, so a key has
one value and two tables with the same entries are equal.
-/

namespace Locator

theorem ascending_nil {α : Type} : ([] : List (String × α)).Pairwise (fun a b => a.1 < b.1) :=
  List.Pairwise.nil

/-- Values by key, in ascending order of the keys. -/
structure Table (α : Type) where
  entries : List (String × α) := []
  ascending : entries.Pairwise (fun a b => a.1 < b.1) := by exact ascending_nil

instance {α : Type} [DecidableEq α] : DecidableEq (Table α) := fun s t =>
  decidable_of_iff (s.entries = t.entries) (by cases s; cases t; simp)

namespace Table

variable {α : Type}

/-- Gives `key` the value that `change` makes of the value it had, in a list of entries. -/
def updateEntries (key : String) (change : Option α → α) : List (String × α) → List (String × α)
  | [] => [(key, change none)]
  | (k, a) :: rest =>
    if key = k then (k, change (some a)) :: rest
    else if key < k then (key, change none) :: (k, a) :: rest
    else (k, a) :: updateEntries key change rest

theorem mem_updateEntries {key : String} {change : Option α → α} {entries : List (String × α)}
    {e : String × α} (h : e ∈ updateEntries key change entries) :
    e.1 = key ∨ ∃ a, (e.1, a) ∈ entries := by
  induction entries with
  | nil => simp_all [updateEntries]
  | cons x rest ih =>
    obtain ⟨k, a⟩ := x
    simp only [updateEntries] at h
    split at h
    · rcases List.mem_cons.1 h with rfl | h
      · exact .inr ⟨a, List.mem_cons_self⟩
      · exact .inr ⟨e.2, List.mem_cons_of_mem _ h⟩
    · split at h
      · rcases List.mem_cons.1 h with rfl | h
        · exact .inl rfl
        · exact .inr ⟨e.2, h⟩
      · rcases List.mem_cons.1 h with rfl | h
        · exact .inr ⟨a, List.mem_cons_self⟩
        · rcases ih h with h | ⟨b, h⟩
          · exact .inl h
          · exact .inr ⟨b, List.mem_cons_of_mem _ h⟩

theorem ascending_updateEntries (key : String) (change : Option α → α)
    {entries : List (String × α)} (h : entries.Pairwise (fun a b => a.1 < b.1)) :
    (updateEntries key change entries).Pairwise (fun a b => a.1 < b.1) := by
  induction entries with
  | nil => simp [updateEntries]
  | cons x rest ih =>
    obtain ⟨k, a⟩ := x
    obtain ⟨hk, hrest⟩ := List.pairwise_cons.1 h
    simp only [updateEntries]
    split
    · exact List.pairwise_cons.2 ⟨hk, hrest⟩
    · next hne =>
      split
      · next hlt =>
        refine List.pairwise_cons.2 ⟨fun e he => ?_, h⟩
        rcases List.mem_cons.1 he with rfl | he
        · exact hlt
        · exact String.lt_trans hlt (hk e he)
      · next hnlt =>
        have hgt : k < key := Std.lt_of_le_of_ne (String.not_lt.1 hnlt) (Ne.symm hne)
        refine List.pairwise_cons.2 ⟨fun e he => ?_, ih hrest⟩
        rcases mem_updateEntries he with he | ⟨b, he⟩
        · exact he ▸ hgt
        · have := hk (e.1, b) he
          exact this

def update (table : Table α) (key : String) (change : Option α → α) : Table α :=
  ⟨updateEntries key change table.entries, ascending_updateEntries key change table.ascending⟩

def insert (table : Table α) (key : String) (value : α) : Table α :=
  table.update key fun _ => value

def get? (table : Table α) (key : String) : Option α :=
  table.entries.lookup key

/-- Inserts pairs from left to right: of pairs with the same key the last one stays. -/
def ofList (pairs : List (String × α)) : Table α :=
  pairs.foldl (fun table (key, value) => table.insert key value) {}

theorem lookup_eq_none {entries : List (String × α)} {key : String} :
    entries.lookup key = none ↔ key ∉ entries.map Prod.fst := by
  rw [List.lookup_eq_none_iff, List.mem_map, not_exists]
  refine forall_congr' fun entry => ?_
  rw [not_and, bne_iff_ne, ne_comm]

theorem lookup_cons_of_ne {k key : String} (h : k ≠ key) (a : α) (entries : List (String × α)) :
    ((key, a) :: entries).lookup k = entries.lookup k := by
  rw [List.lookup_cons, beq_eq_false_iff_ne.2 h]

@[simp] theorem get?_empty (key : String) : ({} : Table α).get? key = none := rfl

theorem lookup_updateEntries {entries : List (String × α)}
    (h : entries.Pairwise (fun a b => a.1 < b.1)) (key : String) (change : Option α → α)
    (k : String) :
    (updateEntries key change entries).lookup k
      = if key = k then some (change (entries.lookup k)) else entries.lookup k := by
  induction entries with
  | nil =>
    by_cases hk : key = k
    · simp [updateEntries, hk]
    · simp [updateEntries, List.lookup_cons, hk, beq_eq_false_iff_ne.2 (Ne.symm hk)]
  | cons x rest ih =>
    obtain ⟨j, a⟩ := x
    obtain ⟨hj, hrest⟩ := List.pairwise_cons.1 h
    simp only [updateEntries]
    split
    · next he =>
      subst he
      by_cases hk : k = key
      · simp [hk]
      · simp [List.lookup_cons, beq_eq_false_iff_ne.2 hk, Ne.symm hk]
    · next hne =>
      split
      · next hlt =>
        by_cases hk : k = key
        · subst hk
          have hnone : ((j, a) :: rest).lookup k = none := by
            rw [List.lookup_eq_none_iff]
            intro e he
            refine bne_iff_ne.2 fun heq => ?_
            rcases List.mem_cons.1 he with rfl | he
            · exact hne heq
            · exact String.lt_irrefl k (String.lt_trans hlt (heq ▸ hj e he))
          rw [hnone]
          simp
        · rw [List.lookup_cons, beq_eq_false_iff_ne.2 hk]
          simp [Ne.symm hk]
      · by_cases hk : k = j
        · subst hk
          simp [hne]
        · simp only [List.lookup_cons, beq_eq_false_iff_ne.2 hk]
          exact ih hrest

/-- An update changes the value of its key and leaves the values of the others. -/
theorem get?_update (table : Table α) (key : String) (change : Option α → α) (k : String) :
    (table.update key change).get? k
      = if key = k then some (change (table.get? k)) else table.get? k :=
  lookup_updateEntries table.ascending key change k

end Table

/-! ## Tallies -/

/-- Occurrence counts by key: every key that was counted, with its count. -/
abbrev Tally := Table Nat

namespace Tally

def bump (tally : Tally) (key : String) : Tally :=
  tally.update key fun count => count.getD 0 + 1

def count (tally : Tally) (key : String) : Nat :=
  (tally.get? key).getD 0

@[simp] theorem count_empty (key : String) : Tally.count {} key = 0 := rfl

/-- Counting a key adds one to its count and leaves the counts of the others. -/
theorem count_bump (tally : Tally) (key k : String) :
    (tally.bump key).count k = tally.count k + if key = k then 1 else 0 := by
  simp only [bump, count, Table.get?_update]
  split <;> simp

end Tally

end Locator
