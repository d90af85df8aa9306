import Locator.Toml

/-!
# Tables under construction

A document defines tables piece by piece, by headers and by dotted keys. What may still be added
to a table depends on how it came to be: a table that only stands above another in a header may
get a header of its own, and one made by dotted keys may get more keys that way, but a table is
defined once.
-/

namespace Locator.Toml

/-- What a key of a table under construction stands for. `implicit` tables have been named only
on the way to another; `dotted` ones by a dotted key. -/
inductive Entry
  | value (toml : Toml)
  | table (implicit dotted : Bool) (entries : List (String × Entry))
  | tables (elements : List (List (String × Entry)))

structure Section where
  implicit : Bool := false
  dotted : Bool := false
  entries : List (String × Entry) := []

namespace Section

def entry (s : Section) : Entry :=
  .table s.implicit s.dotted s.entries

def get? (s : Section) (key : String) : Option Entry :=
  s.entries.lookup key

def set (s : Section) (key : String) (e : Entry) : Section :=
  if (s.get? key).isSome then
    { s with entries := s.entries.map fun (k, old) => if k == key then (k, e) else (k, old) }
  else { s with entries := s.entries ++ [(key, e)] }

def erase (s : Section) (key : String) : Section :=
  { s with entries := s.entries.filter fun (k, _) => k != key }

/-- Goes down a path of keys and changes the table there. Missing tables are made on the way; in
an array of tables the way leads through the last. With a dotted key the way leads only through
tables that have no header of their own. -/
def modify (dotted : Bool) (change : Section → Option Section) :
    List String → Section → Option Section
  | [], s => change s
  | key :: path, s =>
    match s.get? key with
    | none => do
      let below ← modify dotted change path { implicit := true, dotted }
      return s.set key below.entry
    | some (.value _) => none
    | some (.table implicit isDotted entries) =>
      if dotted && !implicit then none
      else do
        let below ← modify dotted change path { implicit, dotted := isDotted, entries }
        return s.set key below.entry
    | some (.tables elements) =>
      match elements.getLast? with
      | none => none
      | some last => do
        let below ← modify dotted change path { entries := last }
        return s.set key (.tables (elements.dropLast ++ [below.entries]))

/-- Adds a value under a key, which may be dotted, of this table. The key must be new. -/
def insert (s : Section) (path : List String) (key : String) (value : Toml) : Option Section :=
  modify true (fun target =>
    if target.dotted == path.isEmpty || (target.get? key).isSome then none
    else some (target.set key (.value value))) path s

end Section

mutual

def Entry.freeze : Entry → Toml
  | value toml => toml
  | table _ _ entries => Toml.table (freezeEntries entries)
  | tables elements => array (freezeTables elements)

def Entry.freezeEntries : List (String × Entry) → List (String × Toml)
  | [] => []
  | (key, e) :: rest => (key, freeze e) :: freezeEntries rest

def Entry.freezeTables : List (List (String × Entry)) → List Toml
  | [] => []
  | entries :: rest => Toml.table (freezeEntries entries) :: freezeTables rest

end

def Section.freeze (s : Section) : Toml :=
  s.entry.freeze

end Locator.Toml
