import Locator.Search.Descent

/-!
# What a visit counts

A visit adds its share to every count, to the relative and the absolute ones alike (`count_visit`,
`absoluteCount_visit`), and one to both ordinals. A new scope has no relative counts, and a
roll-back changes those of class names and of lineages only.
-/

namespace Locator

/-- What a visit adds to the count of a key: one for its class name, its type, its id and its
name, and one for each time that the key stands in its lineage. -/
def Facts.share (facts : Facts) : Family → String → Nat
  | .className, key => if facts.className = key then 1 else 0
  | .subclass, key => facts.lineage.count key
  | .type, key => if facts.typeKey = key then 1 else 0
  | .ident, key => if facts.ident = some key then 1 else 0
  | .name, key => if facts.name = some key then 1 else 0

/-- Class names and lineages, whose relative counts are rolled back after a failed excursion. -/
def Family.rolledBack : Family → Bool
  | .className | .subclass => true
  | .type | .ident | .name => false

namespace Counters

variable {family : Family} {key : String} {r : Counters → Nat}

/-! ## A visit -/

section Reading

variable (hb : ∀ c f k, r (c.bump f k) = r c + if f = family ∧ k = key then 1 else 0)
include hb

theorem reading_foldl_bump (f : Family) :
    ∀ (keys : List String) (c : Counters), r (keys.foldl (fun c k => c.bump f k) c)
      = r c + if f = family then keys.count key else 0
  | [], c => by simp
  | k :: keys, c => by
    rw [List.foldl_cons, reading_foldl_bump f keys, hb, List.count_cons]
    by_cases hf : f = family <;> by_cases hk : k = key <;> simp [hf, hk]
    omega

theorem reading_bumpAny (f : Family) (k : Option String) (c : Counters) :
    r (c.bumpAny f k) = r c + if f = family ∧ k = some key then 1 else 0 := by
  cases k with
  | none => simp [bumpAny]
  | some k => simp only [bumpAny, hb, Option.some.injEq]

/-- Whatever follows the count of one key grows by the share of a visit. -/
theorem reading_visit (ho : ∀ c, r (bumpObject c) = r c) (c : Counters) (facts : Facts) :
    r (c.visit facts) = r c + facts.share family key := by
  simp only [visit, ho, reading_bumpAny hb, hb, reading_foldl_bump hb]
  cases family <;> simp [Facts.share]

end Reading

theorem count_visit (c : Counters) (facts : Facts) (family : Family) (key : String) :
    (c.visit facts).count family key = c.count family key + facts.share family key :=
  reading_visit (r := (count · family key))
    (fun c f k => Census.count_bump c.relative f k family key) (fun _ => rfl) c facts

theorem absoluteCount_visit (c : Counters) (facts : Facts) (family : Family) (key : String) :
    (c.visit facts).absoluteCount family key
      = c.absoluteCount family key + facts.share family key :=
  reading_visit (r := (absoluteCount · family key))
    (fun c f k => Census.count_bump c.absolute f k family key) (fun _ => rfl) c facts

/-- An ordinal, which the counts of keys leave alone, grows by one with a visit. -/
theorem ordinal_visit (hb : ∀ c f k, r (Counters.bump c f k) = r c)
    (ho : ∀ c, r (bumpObject c) = r c + 1) (c : Counters) (facts : Facts) :
    r (c.visit facts) = r c + 1 := by
  have hfold (f : Family) : ∀ (keys : List String) (c : Counters),
      r (keys.foldl (fun c k => c.bump f k) c) = r c := by
    intro keys
    induction keys with
    | nil => exact fun c => rfl
    | cons k keys ih => exact fun c => (ih _).trans (hb c f k)
  have hany (f : Family) (k : Option String) (c : Counters) : r (c.bumpAny f k) = r c := by
    cases k with
    | none => rfl
    | some k => exact hb c f k
  simp only [visit, ho, hany, hb, hfold]

theorem object_visit (c : Counters) (facts : Facts) : (c.visit facts).object = c.object + 1 :=
  ordinal_visit (fun _ _ _ => rfl) (fun _ => rfl) c facts

theorem absoluteObject_visit (c : Counters) (facts : Facts) :
    (c.visit facts).absoluteObject = c.absoluteObject + 1 :=
  ordinal_visit (fun _ _ _ => rfl) (fun _ => rfl) c facts

/-! ## Scopes and roll-backs -/

@[simp] theorem count_newScope (c : Counters) (family : Family) (key : String) :
    c.newScope.count family key = 0 :=
  Census.count_empty family key

@[simp] theorem object_newScope (c : Counters) : c.newScope.object = 0 := rfl

theorem count_rollBack_of_rolledBack (c saved : Counters) {family : Family}
    (h : family.rolledBack = true) (key : String) :
    (c.rollBack saved).count family key = saved.count family key := by
  cases family <;> first | rfl | simp [Family.rolledBack] at h

theorem count_rollBack_of_kept (c saved : Counters) {family : Family}
    (h : family.rolledBack = false) (key : String) :
    (c.rollBack saved).count family key = c.count family key := by
  cases family <;> first | rfl | simp [Family.rolledBack] at h

@[simp] theorem object_rollBack (c saved : Counters) : (c.rollBack saved).object = c.object := rfl

end Counters

end Locator
