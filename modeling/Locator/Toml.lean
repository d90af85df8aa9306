import Locator.Decimal.Binary64

/-!
# TOML values

The values that a TOML document can hold. A date or time is kept as its text.
-/

namespace Locator

inductive Toml
  | string (text : String)
  | integer (value : Int)
  | float (value : Binary64)
  | boolean (value : Bool)
  | dateTime (text : String)
  | array (items : List Toml)
  | table (entries : List (String × Toml))
  deriving Repr, Inhabited

namespace Toml

/-- The number of arrays and inline tables that may stand inside each other. -/
def depthLimit : Nat := 79

def entry? (toml : Toml) (key : String) : Option Toml :=
  match toml with
  | table entries => entries.lookup key
  | _ => none

end Toml

end Locator
