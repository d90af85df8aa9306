import Locator.Failure
import Locator.Files
import Locator.Report
import Locator.Snapshot.Json
import Locator.Snapshot.World

/-!
# Looking up an element in a captured tree

A lookup names a snapshot file and what to locate in it. It is prepared from the text of the file,
and then the engine searches; what the engine says is turned into a report.
-/

namespace Locator

structure LookupRequest where
  tree : String
  root : String
  child : Option String := none
  /-- The time limit; without one, that of the settings. -/
  timeoutSecs : Option Nat := none
  singlePass : Bool := false
  deriving DecidableEq, Repr

inductive Lookup
  | found (report : LocateReport)
  | missing (report : NotFound)
  deriving DecidableEq

namespace LookupRequest

def request (lookup : LookupRequest) (settings : Settings) : Request :=
  let timeoutSecs := lookup.timeoutSecs.getD settings.defaultTimeoutSecs
  match lookup.child with
  | none => .root lookup.root timeoutSecs lookup.singlePass
  | some child => .descendant lookup.root child timeoutSecs lookup.singlePass

def snapshot (lookup : LookupRequest) (file : Except FileFault String) :
    Except Failure Snapshot :=
  let tree := match file with
    | .ok text => Snapshot.ofText text
    | .error fault => .error (.io fault.message)
  tree.mapError fun error =>
    { context := some s!"Failed to load tree snapshot {lookup.tree}", error }

end LookupRequest

def Lookup.ofOutcome (tree : Snapshot) : Outcome Place → Except Error Lookup
  | .found located => return .found (← LocateReport.ofLocated tree located)
  | .notFound report => return .missing report

end Locator
