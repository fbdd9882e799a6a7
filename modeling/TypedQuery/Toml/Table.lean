import TypedQuery.Toml.Basic

/-!
# Tables under construction

A table may be filled from several places of a file: under its own header, by longer headers
and by keys with points. No name is defined twice. A table is opened by a header at most once,
a table that keys with points have made belongs to them, and a value is never extended.
-/

namespace TypedQuery.Toml

/-- What has brought a table into being. -/
inductive Origin where
  /-- A header that goes on below it. -/
  | implied
  /-- A key with points. -/
  | dotted
  /-- Its own header. -/
  | headed
deriving DecidableEq

/-- What a name stands for while a file is read. Of a list of tables the last one is open. -/
inductive Entry where
  | value (v : Toml)
  | table (origin : Origin) (fields : List (String × Entry))
  | tables (last : List (String × Entry)) (earlier : List (List (String × Entry)))

abbrev Entries := List (String × Entry)

namespace Entries

/-- Changes what a name stands for, or gives a new name a meaning. -/
def alter (key : String) (f : Option Entry → Option Entry) : Entries → Option Entries
  | [] => (f none).map fun e => [(key, e)]
  | (k, e) :: rest =>
    if k = key then (f (some e)).map fun e => (k, e) :: rest
    else (alter key f rest).map ((k, e) :: ·)

/-- Changes the table at the end of a path, making the tables on the way as needed. The change
is told whether the table belongs to keys with points. -/
def descend (dotted : Bool) (change : Bool → Entries → Option Entries) :
    List String → Bool → Entries → Option Entries
  | [], isDotted, fields => change isDotted fields
  | key :: path, _, fields =>
    alter key (fun
      | none =>
        (descend dotted change path dotted []).map (.table (if dotted then .dotted else .implied))
      | some (.table origin fs) =>
        if dotted && origin == .headed then none
        else (descend dotted change path (origin == .dotted) fs).map (.table origin)
      | some (.tables last earlier) =>
        (descend dotted change path false last).map fun last => .tables last earlier
      | some (.value _) => none) fields

/-- Gives a new name a value. A key with points only fills tables of its own. -/
def insert (path : List String) (key : String) (v : Toml) (fields : Entries) : Option Entries :=
  descend true (fun isDotted fields =>
    if isDotted = path.isEmpty then none
    else alter key (fun
      | none => some (.value v)
      | some _ => none) fields) path false fields

/-- Opens a table by its header. -/
def openTable (path : List String) (key : String) (fields : Entries) : Option Entries :=
  descend false (fun _ fields =>
    alter key (fun
      | none => some (.table .headed [])
      | some (.table .implied fs) => some (.table .headed fs)
      | some _ => none) fields) path false fields

/-- Opens the next table of a list by its header. -/
def openItem (path : List String) (key : String) (fields : Entries) : Option Entries :=
  descend false (fun _ fields =>
    alter key (fun
      | none => some (.tables [] [])
      | some (.tables last earlier) => some (.tables [] (last :: earlier))
      | some _ => none) fields) path false fields

/-- Changes the table that a header has opened. -/
def inTable (header : List String) (change : Entries → Option Entries) (fields : Entries) :
    Option Entries :=
  descend false (fun _ => change) header false fields

end Entries

mutual

/-- The finished value of an entry. -/
def Entry.finish : Entry → Toml
  | .value v => v
  | .table _ fields => .table (finishFields fields)
  | .tables last earlier => .array (finishTables earlier ++ [.table (finishFields last)])
termination_by structural e => e

def finishFields : List (String × Entry) → List (String × Toml)
  | [] => []
  | (key, e) :: rest => (key, e.finish) :: finishFields rest
termination_by structural fields => fields

/-- Tables in the order of the file; the latest comes first in the list. -/
def finishTables : List (List (String × Entry)) → List Toml
  | [] => []
  | fields :: rest => finishTables rest ++ [.table (finishFields fields)]
termination_by structural tables => tables

end

end TypedQuery.Toml
