/-!
# A virtual clock

A clock that moves only when it is told to. It counts whole milliseconds in a 64-bit word, which
wraps around.
-/

namespace Locator

structure Clock where
  elapsed : UInt64 := 0
  deriving DecidableEq, Repr

namespace Clock

def longest : Nat := UInt64.size - 1

/-- Moves the clock by some milliseconds, or by as many as it can be moved by. -/
def advance (clock : Clock) (ms : Nat) : Clock :=
  ⟨clock.elapsed + UInt64.ofNat (min ms longest)⟩

def wholeMillis (secs nanos : Nat) : Nat :=
  secs * 1000 + nanos / 1000000

end Clock

end Locator
