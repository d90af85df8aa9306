import Locator.Json.Record
import Locator.Settings
import Locator.Text.Integer

/-!
# Settings in JSON

Settings are a record in which every field may be missing, and they stand under `locator` in a
record of their own.
-/

namespace Locator

/-- An unsigned 64-bit integer, which is spelled without a sign, a fraction or an exponent. -/
def Json.asUInt64? : Json → Option Nat
  | .number lexeme => (Text.readDigits lexeme.toList).filter (· < UInt64.size)
  | _ => none

namespace Settings

def fieldNames : List String :=
  ["poll_interval_ms", "default_timeout_secs", "root_refresh_timeout_secs",
   "top_level_sentinels"]

def sectionName : String := "locator"

/-- Settings from the values of the fields, where some may be missing. -/
def ofFields? {α : Type} (number : α → Option Nat) (texts : α → Option (List String)) :
    List (Option α) → Option Settings
  | [pollInterval, defaultTimeout, rootRefreshTimeout, sentinels] => do
    let defaults : Settings := {}
    let orElse {β : Type} (read : α → Option β) (default : β) : Option α → Option β
      | none => some default
      | some a => read a
    return {
      pollIntervalMs := ← orElse number defaults.pollIntervalMs pollInterval
      defaultTimeoutSecs := ← orElse number defaults.defaultTimeoutSecs defaultTimeout
      rootRefreshTimeoutSecs := ← orElse number defaults.rootRefreshTimeoutSecs rootRefreshTimeout
      topLevelSentinels := ← orElse texts defaults.topLevelSentinels sentinels }
  | _ => none

def ofJson? (json : Json) : Option Settings := do
  ofFields? Json.asUInt64? Json.asTexts? (← json.fields? fieldNames)

def ofRootJson? (json : Json) : Option Settings := do
  match ← json.fields? [sectionName] with
  | [settings] => Json.orDefault ofJson? {} settings
  | _ => none

def toJson (settings : Settings) : Json :=
  .ofPairs [
    ("poll_interval_ms", .nat settings.pollIntervalMs),
    ("default_timeout_secs", .nat settings.defaultTimeoutSecs),
    ("root_refresh_timeout_secs", .nat settings.rootRefreshTimeoutSecs),
    ("top_level_sentinels", .texts settings.topLevelSentinels)]

end Settings

end Locator
