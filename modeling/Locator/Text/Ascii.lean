/-!
# ASCII case

Keywords are compared without regard to the case of ASCII letters; every other character, other
letters included, must be the same.
-/

namespace Locator.Text

/-- The texts differ at most in the case of ASCII letters, which are all that `Char.toLower`
moves. -/
def sameIgnoringCase (s t : List Char) : Bool :=
  s.map Char.toLower == t.map Char.toLower

theorem sameIgnoringCase_iff {s t : List Char} :
    sameIgnoringCase s t ↔ s.map Char.toLower = t.map Char.toLower := by
  simp [sameIgnoringCase]

@[simp] theorem sameIgnoringCase_self (s : List Char) : sameIgnoringCase s s := by
  simp [sameIgnoringCase]

end Locator.Text
