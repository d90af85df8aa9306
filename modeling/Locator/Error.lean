/-!
# Errors

The ways in which a request can fail, and their wording. An error may be wrapped in a context;
the errors underneath are its sources.
-/

namespace Locator

inductive Error
  /-- A recognition string that cannot be searched for. -/
  | malformedPath (path reason : String)
  | adapterFailure (message : String)
  | notFound (recognition : String) (timeoutSecs elapsedMs : Nat)
  | config (message : String)
  | io (message : String)
  | serialization (message : String)
  | withContext (context : String) (source : Error)
  deriving DecidableEq, Repr

namespace Error

def message : Error → String
  | malformedPath path reason => s!"Malformed recognition path '{path}': {reason}"
  | adapterFailure text => s!"Adapter failure: {text}"
  | notFound recognition timeoutSecs elapsedMs =>
    s!"No element matched '{recognition}' within {timeoutSecs}s (searched for {elapsedMs}ms)"
  | config text => s!"Configuration error: {text}"
  | io text => s!"I/O error: {text}"
  | serialization text => s!"Serialization error: {text}"
  | withContext context source => s!"{context}: {source.message}"

/-- The wordings of the errors underneath, the nearest first. -/
def sources : Error → List String
  | io text => [text]
  | withContext _ source => source.message :: source.sources
  | _ => []

def isAdapterFailure : Error → Bool
  | adapterFailure _ => true
  | _ => false

end Error

end Locator
