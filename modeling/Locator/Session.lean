import Locator.CommandLine
import Locator.Json.Printer
import Locator.Settings.Location

/-!
# Running a command

A command runs on a host, which gives the texts of files, knows the environment and lets engines
search. What comes of it is an exit code and two texts: the output, and what is told to the user
besides.
-/

namespace Locator

structure Host (m : Type → Type) where
  fileText : String → m (Except FileFault String)
  environment : m (List (String × String))
  /-- Answers a request with an engine that searches a snapshot. -/
  search : Snapshot → Engine Place → Request → m (Except Error (Outcome Place))

structure Response where
  code : Nat
  output : String := ""
  complaint : String := ""
  deriving DecidableEq, Repr

namespace Response

def ofResult : Except Failure String → Response
  | .ok output => { code := 0, output }
  | .error failure => { code := 1, complaint := failure.text }

def usage : String :=
  let lookupOptions := "--tree <FILE> --root <ROOT> [--child <CHILD>] [--timeout <SECS>]"
  String.intercalate "\n" [
    "Usage: uilocator [OPTIONS] <COMMAND>",
    "",
    "Commands:",
    "  parse <RECOGNITION>",
    s!"  locate {lookupOptions} [--single-pass]",
    s!"  exists {lookupOptions} [--single-pass]",
    "",
    "Options:",
    "  -c, --config <FILE>",
    "  -v, --verbose",
    "  -h, --help",
    "  -V, --version",
    ""]

def ofStop : CommandLine.Stop → Response
  | .misuse => { code := 2, complaint := usage }
  | .help => { code := 0, output := usage }
  | .version => { code := 0, output := "uilocator 0.1.0\n" }

end Response

namespace Host

variable {m : Type → Type} [Monad m]

/-- Loads the settings of an invocation. A file that the user did not name may fail to load; the
defaults take its place. -/
def settings (host : Host m) (named : Option String) : m (Except Failure Settings) := do
  let environment ← host.environment
  let loaded ← match Settings.path named environment with
    | .error error => pure (.error error)
    | .ok path => Settings.loadFrom host.fileText environment path
  return do
    let settings ← match loaded, named with
      | .ok settings, _ => .ok settings
      | .error _, none => .ok {}
      | .error error, some _ => .error { context := some "Failed to load configuration", error }
    settings.validate.mapError .ofError
    return settings

def lookup (host : Host m) (settings : Settings) (lookup : LookupRequest) :
    m (Except Failure Lookup) := do
  match lookup.snapshot (← host.fileText lookup.tree) with
  | .error failure => return .error failure
  | .ok tree =>
    let outcome ← host.search tree (tree.engine settings) (lookup.request settings)
    return (outcome.bind (Lookup.ofOutcome tree)).mapError .ofError

def lookupWith (host : Host m) (named : Option String) (lookup : LookupRequest) :
    m (Except Failure Lookup) := do
  match ← host.settings named with
  | .error failure => return .error failure
  | .ok settings => host.lookup settings lookup

def output (host : Host m) (invocation : Invocation) : m (Except Failure String) := do
  match invocation.command with
  | .parse recognition =>
    let chain := (Engine.readPath recognition).mapError .ofError
    return chain.map fun chain => chain.toJson.pretty ++ "\n"
  | .locate lookup =>
    return (← host.lookupWith invocation.settingsPath lookup).bind fun
      | .found report => .ok (report.toJson.pretty ++ "\n")
      | .missing report => .error (.ofError report.error)
  | .exists lookup =>
    return (← host.lookupWith invocation.settingsPath lookup).map fun
      | .found _ => "true\n"
      | .missing _ => "false\n"

def run (host : Host m) (line : List String) : m Response := do
  match Invocation.ofWords line with
  | .error stop => return .ofStop stop
  | .ok invocation => return .ofResult (← host.output invocation)

end Host

end Locator
