import Locator.Json.Reader
import Locator.Settings.Ini
import Locator.Settings.Json5
import Locator.Settings.Layers
import Locator.Settings.Ron
import Locator.Settings.Yaml
import Locator.Toml.Reader

/-!
# Loading settings

Settings are loaded from a file and from environment variables, which are laid over the file, which
is laid over the defaults. The extension of a file's name says what language it is in.
-/

namespace Locator

open Text

inductive SettingsFormat
  | toml
  | json
  | yaml
  | ini
  | ron
  | json5
  deriving DecidableEq, Repr

namespace SettingsFormat

/-- The extension of a file's name: what follows the last dot, if something precedes it. -/
def extension? (path : String) : Option String :=
  let name := ((path.toList.splitOn '/').filter (!·.isEmpty)).getLast?.getD []
  match name.reverse.splitOn '.' with
  | [] | [_] | [_, []] => none
  | ext :: _ => some (String.ofList ext.reverse)

def all : List SettingsFormat :=
  [toml, json, yaml, ini, ron, json5]

def extensions : SettingsFormat → List String
  | toml => ["toml"]
  | json => ["json"]
  | yaml => ["yaml", "yml"]
  | ini => ["ini"]
  | ron => ["ron"]
  | json5 => ["json5"]

def ofFileName? (path : String) : Option SettingsFormat :=
  (extension? path).bind fun ext => all.find? fun format => format.extensions.contains ext

def read? (format : SettingsFormat) (text : String) : Option Loose :=
  match format with
  | toml => (Toml.ofChars? text.toList).map Loose.ofToml
  | json => (Json.ofString? text).bind (Loose.ofJson? Json.depthLimit)
  | yaml => Yaml.ofChars? text.toList
  | ini => Ini.ofChars? text.toList
  | ron => Ron.ofChars? text.toList
  | json5 => Json5.ofChars? text.toList

def entries? (format : SettingsFormat) (text : String) : Option (List (String × Loose)) :=
  match format.read? text with
  | some (.table entries) => some entries
  | _ => none

end SettingsFormat

structure SettingsFile where
  path : String
  text : String
  deriving DecidableEq, Repr

def SettingsFile.entries? (file : SettingsFile) : Option (List (String × Loose)) :=
  (SettingsFormat.ofFileName? file.path).bind fun format => format.entries? file.text

namespace Settings

def defaultSource : List (String × Loose) :=
  let defaults : Settings := {}
  [("locator.poll_interval_ms", .integer defaults.pollIntervalMs),
   ("locator.default_timeout_secs", .integer defaults.defaultTimeoutSecs),
   ("locator.root_refresh_timeout_secs", .integer defaults.rootRefreshTimeoutSecs),
   ("locator.top_level_sentinels", .array (defaults.topLevelSentinels.map .text))]

def variableStart : String := "uilocator_"

/-- Puts a dot in the place of each pair of underscores. -/
def dotted : List Char → List Char
  | '_' :: '_' :: rest => '.' :: dotted rest
  | c :: rest => c :: dotted rest
  | [] => []

def variableKey? (name : String) : Option String :=
  (stripPrefix? variableStart.toList (lowercase name).toList).map fun rest =>
    String.ofList (dotted rest)

def variableSource (environment : List (String × String)) : List (String × Loose) :=
  environment.filterMap fun (name, value) =>
    (variableKey? name).map fun key => (key, Loose.ofVariable value)

/-- Loads settings from a file, if there is one, and from the environment. -/
def load (file : Option SettingsFile) (environment : List (String × String)) :
    Except Error Settings :=
  let source := match file with
    | none => some []
    | some file => file.entries?
  match source with
  | none => .error (.config "Failed to build config")
  | some source =>
    let layered := Loose.laySource (variableSource environment)
      (Loose.laySource source (Loose.laySource defaultSource (.table [])))
    match (layered.entries.lookup sectionName).bind ofLoose? with
    | some settings => .ok settings
    | none => .error (.config "Failed to deserialize config")

end Settings

end Locator
