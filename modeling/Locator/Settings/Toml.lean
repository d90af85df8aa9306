import Locator.Settings.Json
import Locator.Toml.Printer
import Locator.Toml.Reader

/-!
# Settings in TOML

Settings stand in the table `locator`. Every key may be missing, keys of other names are passed
over, and a value must have exactly the type that it should have. An array may stand for a table;
its items are then the fields in their order. A date is a table without any of the fields.
-/

namespace Locator

namespace Toml

def fields? (names : List String) : Toml → Option (List (Option Toml))
  | table entries => some (names.map fun name => entries.lookup name)
  | array items => some ((List.range names.length).map (items[·]?))
  | dateTime _ => some (names.map fun _ => none)
  | _ => none

def asNatural? : Toml → Option Nat
  | integer (.ofNat n) => some n
  | _ => none

def asTexts? : Toml → Option (List String)
  | array items => items.mapM fun
    | string s => some s
    | _ => none
  | _ => none

end Toml

namespace Settings

def ofToml? (toml : Toml) : Option Settings := do
  ofFields? Toml.asNatural? Toml.asTexts? (← toml.fields? fieldNames)

def ofDocument? (document : Toml) : Option Settings :=
  match document.entry? sectionName with
  | none => some {}
  | some toml => ofToml? toml

def ofText (text : String) : Except Error Settings :=
  match (Toml.ofChars? text.toList).bind ofDocument? with
  | some settings => .ok settings
  | none => .error (.config "Failed to parse TOML")

/-- The text of settings. A number that TOML cannot hold makes it impossible. -/
def text? (settings : Settings) : Option (List Char) := do
  let pollInterval ← Toml.natural? settings.pollIntervalMs
  let defaultTimeout ← Toml.natural? settings.defaultTimeoutSecs
  let rootRefreshTimeout ← Toml.natural? settings.rootRefreshTimeoutSecs
  return Toml.headerLine sectionName
    ++ Toml.pairLine "poll_interval_ms" pollInterval
    ++ Toml.pairLine "default_timeout_secs" defaultTimeout
    ++ Toml.pairLine "root_refresh_timeout_secs" rootRefreshTimeout
    ++ Toml.pairLine "top_level_sentinels" (Toml.quoteAll settings.topLevelSentinels)

def saved (settings : Settings) : Except Error String :=
  match settings.text? with
  | some text => .ok (String.ofList text)
  | none => .error (.config "Failed to serialize config")

end Settings

end Locator
