import Locator.Error
import Locator.Text.Blank
import Locator.Text.Lower

/-!
# Settings

The settings of the search engine, their defaults, and what makes them valid.
-/

namespace Locator

open Text

/-- How a search polls, and which first levels of a descendant path name the window itself. -/
structure Settings where
  pollIntervalMs : Nat := 1000
  /-- The time limit when the caller gives none. -/
  defaultTimeoutSecs : Nat := 10
  /-- The time limit of the root lookup that a descendant search makes on its own. -/
  rootRefreshTimeoutSecs : Nat := 2
  /-- What a level that names the top-level window begins with. -/
  topLevelSentinels : List String := ["currentwindow", "current=window", "current"]
  deriving DecidableEq, Repr

inductive SettingsFault
  | zeroPollInterval
  | zeroRootRefreshTimeout
  | blankSentinel (position : Nat)
  deriving DecidableEq, Repr

def SettingsFault.message : SettingsFault → String
  | zeroPollInterval => "locator.poll_interval_ms must be greater than 0"
  | zeroRootRefreshTimeout => "locator.root_refresh_timeout_secs must be greater than 0"
  | blankSentinel position => s!"locator.top_level_sentinels[{position}] must not be blank"

namespace Settings

def fault? (settings : Settings) : Option SettingsFault :=
  if settings.pollIntervalMs == 0 then some .zeroPollInterval
  else if settings.rootRefreshTimeoutSecs == 0 then some .zeroRootRefreshTimeout
  else
    (settings.topLevelSentinels.findIdx? fun sentinel => allBlank sentinel.toList).map
      .blankSentinel

def validate (settings : Settings) : Except Error Unit :=
  match settings.fault? with
  | none => .ok ()
  | some fault => .error (.config fault.message)

/-- The text of a level begins with a sentinel. Blanks at the ends of the level and the case of
letters do not matter. -/
def isTopLevelSentinel (settings : Settings) (level : List Char) : Bool :=
  let lowered := lower (trim level)
  settings.topLevelSentinels.any fun sentinel => (lower sentinel.toList).isPrefixOf lowered

end Settings

end Locator
