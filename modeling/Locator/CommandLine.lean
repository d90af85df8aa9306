import Locator.CommandLine.Grammar
import Locator.Lookup

/-!
# The command line

The program has three commands: to parse a recognition string, to locate an element in a captured
tree, and to say whether an element exists in it. The options for the settings file and for more
messages may stand before or after the name of the command; what stands after it goes before.
-/

namespace Locator

open CommandLine

inductive Command
  | parse (recognition : String)
  | locate (lookup : LookupRequest)
  | exists (lookup : LookupRequest)
  deriving DecidableEq, Repr

structure Invocation where
  command : Command
  settingsPath : Option String := none
  verbose : Bool := false
  deriving DecidableEq, Repr

namespace CommandLine

def commandNames : List String :=
  ["parse", "locate", "exists"]

def sharedOptions : List Opt :=
  [.settings, .verbose, .help]

def outer : Grammar :=
  { options := .version :: sharedOptions, commands := "help" :: commandNames }

def parseGrammar : Grammar :=
  { options := sharedOptions, arity := 1 }

def lookupGrammar : Grammar :=
  { options := [.tree, .root, .child, .timeout, .singlePass] ++ sharedOptions }

/-- The lookup that words describe, if they name a tree and a root. -/
def lookupOf? (words : Words) : Option LookupRequest := do
  return {
    tree := ← words.value? .tree
    root := ← words.value? .root
    child := words.value? .child
    timeoutSecs := (words.value? .timeout).bind fun value => Text.readUInt64 value.toList
    singlePass := words.has .singlePass }

def readParse (rest : List String) : Except Stop (Words × Command) := do
  let (words, _) ← parseGrammar.read {} rest
  match words.operands with
  | [recognition] => return (words, .parse recognition)
  | _ => .error .misuse

def readLookup (command : LookupRequest → Command) (rest : List String) :
    Except Stop (Words × Command) := do
  let (words, _) ← lookupGrammar.read {} rest
  match lookupOf? words with
  | some lookup => return (words, command lookup)
  | none => .error .misuse

/-- Reads the words after `help`: nothing, or the name of a command. -/
def readHelp : List String → Stop
  | [] => .help
  | [name] => if outer.commands.contains name then .help else .misuse
  | _ => .misuse

def readCommand (name : String) (rest : List String) : Except Stop (Words × Command) :=
  match name with
  | "parse" => readParse rest
  | "locate" => readLookup .locate rest
  | "exists" => readLookup .exists rest
  | "help" => .error (readHelp rest)
  | _ => .error .misuse

end CommandLine

def Invocation.ofWords (line : List String) : Except Stop Invocation := do
  match ← outer.read {} line with
  | (_, none) => .error .misuse
  | (before, some (name, rest)) =>
    let (after, command) ← readCommand name rest
    return {
      command
      settingsPath := (after.value? .settings).or (before.value? .settings)
      verbose := after.has .verbose || before.has .verbose }

end Locator
