import Locator.Clock
import Locator.Engine
import Locator.Snapshot

/-!
# Searching a snapshot

A snapshot that does not change, with a virtual clock, is a world to search in. An engine for it
reaches all of its generations.
-/

namespace Locator.Snapshot

/-- The world that shows a snapshot and whose sleep moves a virtual clock. -/
def world (tree : Snapshot) : World Clock Place where
  answer query clock := (tree.answer query, clock)
  now clock := clock.elapsed.toNat
  sleep ms clock := clock.advance ms

def engine (tree : Snapshot) (settings : Settings) : Engine Place :=
  { settings, reach := tree.height }

end Locator.Snapshot
