import Locator.Session

/-!
# The program

The host that the program runs on: files and variables of the operating system, and searches in
real time.
-/

namespace Locator

def readTextFile (path : String) : IO (Except FileFault String) := do
  try
    let bytes ← IO.FS.readBinFile path
    return match String.fromUTF8? bytes with
    | some text => .ok text
    | none => .error .notUtf8
  catch error =>
    return .error <| match error with
    | .noFileOrDirectory .. => .missing
    | .inappropriateType _ 21 _ => .isADirectory
    | .inappropriateType .. => .notADirectory
    | .permissionDenied .. => .other "Permission denied (os error 13)"
    | error => .other (toString error)

/-- The variables in a block of the form that the kernel shows: each ends with a zero character,
and an equals sign stands between its name and its value. -/
def splitVariables (block : String) : List (String × String) :=
  (block.splitOn "\x00").filterMap fun entry =>
    (Text.cutAt '=' entry.toList).map fun (name, value) =>
      (String.ofList name, String.ofList value)

def sleepFor (ms : Nat) : IO Unit := do
  let longest := Nat.pow 2 31
  for _ in List.range (ms / longest) do
    IO.sleep (UInt32.ofNat longest)
  IO.sleep (UInt32.ofNat (ms % longest))

/-- Runs a search of a snapshot in real time. The memory of the engine is not kept. -/
def Search.perform (tree : Snapshot) {α : Type} : Search Place α → IO (Except Error α)
  | done answer => return .ok answer
  | ask query next =>
    match tree.answer query with
    | .ok answer => (next answer).perform tree
    | .error error => return .error error
  | clock next => do (next (← IO.monoMsNow)).perform tree
  | sleep ms next => do
    sleepFor ms
    next.perform tree
  | remember _ next => next.perform tree
  | visit _ next => next.perform tree

def systemHost : Host IO where
  fileText := readTextFile
  environment := do
    return match ← readTextFile "/proc/self/environ" with
    | .ok block => splitVariables block
    | .error _ => []
  search tree engine request := do
    match engine.program request with
    | .error error => return .error error
    | .ok program => program.perform tree

end Locator

def main (words : List String) : IO UInt32 := do
  let response ← Locator.systemHost.run words
  (← IO.getStdout).putStr response.output
  (← IO.getStderr).putStr response.complaint
  return UInt32.ofNat response.code
