import Locator.Files
import Locator.Settings.Load
import Locator.Settings.Toml

/-!
# Where settings are

Settings are loaded from the file that the user names or, without one, from a file in the home
directory. Nothing need be there. Where a directory stands in the place of the file, a file beside
it is taken whose name is that of the directory with the extension of a settings language. Settings
are saved in TOML.
-/

namespace Locator

namespace Settings

def below (directory name : String) : String :=
  if directory.isEmpty || directory.endsWith "/" then directory ++ name
  else directory ++ "/" ++ name

def homePath (home : String) : String :=
  below (below home ".uilocator") "config.toml"

def home? (environment : List (String × String)) : Option String :=
  (environment.lookup "HOME").filter (!·.isEmpty)

def path (named : Option String) (environment : List (String × String)) : Except Error String :=
  match named, home? environment with
  | some path, _ => .ok path
  | none, some home => .ok (homePath home)
  | none, none => .error (.config "Unable to determine home directory")

/-- The files beside a directory that may stand for it. -/
def beside (directory : String) : List String :=
  let name := String.ofList (directory.toList.reverse.dropWhile (· == '/')).reverse
  (SettingsFormat.all.flatMap SettingsFormat.extensions).map fun ext => name ++ "." ++ ext

variable {m : Type → Type} [Monad m]

/-- The first file that can be read. -/
def firstReadable (fileText : String → m (Except FileFault String)) :
    List String → m (Option SettingsFile)
  | [] => return none
  | path :: paths => do
    match ← fileText path with
    | .ok text => return some { path, text }
    | .error _ => firstReadable fileText paths

def loadFrom (fileText : String → m (Except FileFault String))
    (environment : List (String × String)) (path : String) : m (Except Error Settings) := do
  let unreadable : Except Error Settings := .error (.config "Failed to build config")
  match ← fileText path with
  | .ok text => return load (some { path, text }) environment
  | .error .isADirectory =>
    match ← firstReadable fileText (beside path) with
    | none => return unreadable
    | some file => return load (some file) environment
  | .error fault => return if fault.isAbsent then load none environment else unreadable

/-- Writes settings to a file, once the whole text of them is there. -/
def saveTo (writeText : String → String → m (Except FileFault Unit)) (settings : Settings)
    (path : String) : m (Except Error Unit) := do
  match settings.saved with
  | .error error => return .error error
  | .ok text =>
    match ← writeText path text with
    | .ok () => return .ok ()
    | .error fault => return .error (.config s!"Failed to write config file: {fault.message}")

end Settings

end Locator
