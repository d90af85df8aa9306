import Locator.Text.Cut
import Locator.Text.Integer

/-!
# Options on a command line

A command has options, which may stand in any order, and operands. An option is spelled in full,
with its value in the next word or after an equals sign, or by a letter after a single hyphen,
where letters may follow each other and a value may follow the last letter directly. Two hyphens
alone end the options. An option may be given once.
-/

namespace Locator.CommandLine

open Text

inductive Opt
  | settings
  | verbose
  | help
  | version
  | tree
  | root
  | child
  | timeout
  | singlePass
  deriving DecidableEq, Repr

inductive Stop
  | misuse
  | help
  | version
  deriving DecidableEq, Repr

namespace Opt

def long : Opt → String
  | settings => "config"
  | verbose => "verbose"
  | help => "help"
  | version => "version"
  | tree => "tree"
  | root => "root"
  | child => "child"
  | timeout => "timeout"
  | singlePass => "single-pass"

def letter? : Opt → Option Char
  | settings => some 'c'
  | verbose => some 'v'
  | help => some 'h'
  | version => some 'V'
  | _ => none

def takesValue : Opt → Bool
  | settings | tree | root | child | timeout => true
  | _ => false

/-- A value that an option can have. Paths are not empty, and a time limit is a 64-bit word. -/
def accepts (opt : Opt) (value : String) : Bool :=
  match opt with
  | settings | tree => value != ""
  | timeout => (readUInt64 value.toList).isSome
  | _ => true

end Opt

structure Words where
  options : List (Opt × String) := []
  operands : List String := []
  deriving DecidableEq, Repr

namespace Words

def value? (words : Words) (opt : Opt) : Option String :=
  words.options.lookup opt

def has (words : Words) (opt : Opt) : Bool :=
  (words.value? opt).isSome

/-- Gives an option a value. Asking for help or for the version ends everything. -/
def give (words : Words) (opt : Opt) (value : String) : Except Stop Words :=
  match opt with
  | .help => .error .help
  | .version => .error .version
  | opt =>
    if words.has opt || !opt.accepts value then .error .misuse
    else .ok { words with options := (opt, value) :: words.options }

def addOperand (words : Words) (limit : Nat) (operand : String) : Except Stop Words :=
  if words.operands.length < limit then
    .ok { words with operands := words.operands ++ [operand] }
  else .error .misuse

def addOperands (words : Words) (limit : Nat) (operands : List String) : Except Stop Words :=
  operands.foldlM (fun words operand => words.addOperand limit operand) words

end Words

structure Grammar where
  options : List Opt
  arity : Nat := 0
  commands : List String := []
  deriving DecidableEq, Repr

namespace Grammar

/-- Reads an option in full, without its hyphens. An option whose value is still to come is
returned. -/
def readLong (grammar : Grammar) (words : Words) (text : List Char) :
    Except Stop (Words × Option Opt) :=
  let (name, value) := match cutAt '=' text with
    | some (name, value) => (String.ofList name, some (String.ofList value))
    | none => (String.ofList text, none)
  match grammar.options.find? (·.long == name), value with
  | none, _ => .error .misuse
  | some opt, some value =>
    if opt.takesValue then return (← words.give opt value, none) else .error .misuse
  | some opt, none =>
    if opt.takesValue then return (words, some opt) else return (← words.give opt "", none)

/-- Reads letters, without their hyphen. An option whose value is still to come is returned. -/
def readLetters (grammar : Grammar) (words : Words) :
    List Char → Except Stop (Words × Option Opt)
  | [] => .ok (words, none)
  | letter :: rest =>
    match grammar.options.find? (·.letter? == some letter) with
    | none => .error .misuse
    | some opt =>
      if opt.takesValue then
        match rest with
        | [] => .ok (words, some opt)
        | '=' :: value | value => return (← words.give opt (String.ofList value), none)
      else do
        readLetters grammar (← words.give opt "") rest

/-- Reads the words of a command, up to the name of another command. Such a name is returned with
the words after it. -/
def read (grammar : Grammar) (words : Words) :
    List String → Except Stop (Words × Option (String × List String))
  | [] => .ok (words, none)
  | word :: rest =>
    if grammar.commands.contains word then .ok (words, some (word, rest))
    else
      match word.toList with
      | ['-', '-'] => do return (← words.addOperands grammar.arity rest, none)
      | '-' :: '-' :: text => do
        go (← grammar.readLong words text) rest
      | '-' :: letter :: letters => do
        go (← grammar.readLetters words (letter :: letters)) rest
      | _ => do read grammar (← words.addOperand grammar.arity word) rest
where
  /-- Goes on after options. A value that is still to come is the next word, which does not look
  like an option. -/
  go : Words × Option Opt → List String → Except Stop (Words × Option (String × List String))
    | (words, none), rest => read grammar words rest
    | (_, some _), [] => .error .misuse
    | (words, some opt), value :: rest =>
      match value.toList with
      | '-' :: _ :: _ => .error .misuse
      | _ => do read grammar (← words.give opt value) rest

end Grammar

end Locator.CommandLine
