/-!
# Cutting a text

`cutAt` divides a text at the first occurrence of a separator character, `contains` looks for a
text inside another, and `stripPrefix?` takes a text off the front of another.
-/

namespace Locator.Text

/-- What stands before and after the first `sep`, or nothing when there is none. -/
def cutAt (sep : Char) : List Char → Option (List Char × List Char)
  | [] => none
  | c :: cs =>
    if c == sep then some ([], cs)
    else (cutAt sep cs).map fun (before, after) => (c :: before, after)

def contains (needle : List Char) : List Char → Bool
  | [] => needle.isEmpty
  | c :: cs => needle.isPrefixOf (c :: cs) || contains needle cs

def stripPrefix? : List Char → List Char → Option (List Char)
  | [], s => some s
  | _ :: _, [] => none
  | h :: hs, c :: cs => if h == c then stripPrefix? hs cs else none

theorem cutAt_eq_some {sep : Char} {s before after : List Char}
    (h : cutAt sep s = some (before, after)) : s = before ++ sep :: after := by
  induction s generalizing before with
  | nil => simp [cutAt] at h
  | cons c cs ih =>
    rw [cutAt] at h
    split at h
    · next hc => simp_all
    · obtain ⟨⟨b, a⟩, hb, he⟩ := Option.map_eq_some_iff.1 h
      simp only [Prod.mk.injEq] at he
      obtain ⟨rfl, rfl⟩ := he
      rw [ih hb, List.cons_append]

theorem cutAt_append {sep : Char} {before : List Char} (h : sep ∉ before) (after : List Char) :
    cutAt sep (before ++ sep :: after) = some (before, after) := by
  induction before with
  | nil => simp [cutAt]
  | cons c before ih =>
    rw [List.mem_cons, not_or] at h
    obtain ⟨hc, hbefore⟩ := h
    rw [List.cons_append, cutAt, ih hbefore]
    simp [Ne.symm hc]

theorem stripPrefix?_eq_some {head s rest : List Char} (h : stripPrefix? head s = some rest) :
    s = head ++ rest := by
  fun_induction stripPrefix? head s <;> simp_all

end Locator.Text
