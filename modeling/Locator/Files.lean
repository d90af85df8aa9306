/-!
# Files that cannot be read

Why there is no text at a path, in the words of the operating system.
-/

namespace Locator

inductive FileFault
  | missing
  /-- What should be a directory on the way to the file is none. -/
  | notADirectory
  | isADirectory
  | notUtf8
  | other (reason : String)
  deriving DecidableEq, Repr

namespace FileFault

def message : FileFault → String
  | missing => "No such file or directory (os error 2)"
  | notADirectory => "Not a directory (os error 20)"
  | isADirectory => "Is a directory (os error 21)"
  | notUtf8 => "stream did not contain valid UTF-8"
  | other reason => reason

def isAbsent : FileFault → Bool
  | missing | notADirectory => true
  | _ => false

end FileFault

end Locator
