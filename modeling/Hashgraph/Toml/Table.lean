import Hashgraph.Toml.Value

/-! Tables under construction. How a table came about decides what may still be added to it: a
header defines a table once, and a dotted key adds to no table but those that dotted keys made. -/

namespace Hashgraph.Toml

/-- A dotted key: the tables that lead to it, and its last part. -/
structure Key where
  path : List String
  last : String

inductive Origin where
  | header
  /-- On the way to a table that a header names. -/
  | headerPath
  | dottedKey
deriving DecidableEq, Repr

inductive Entry where
  | value (value : Value)
  | table (origin : Origin) (entries : List (String × Entry))
  /-- An array of tables that headers made; only the last of them can change. -/
  | tables (earlier : List (List (String × Entry))) (last : List (String × Entry))

abbrev Entries := List (String × Entry)

mutual

def Entry.toValue : Entry → Value
  | .value value => value
  | .table _ entries => .table (entryFields entries)
  | .tables earlier last => .array (entryTables earlier ++ [.table (entryFields last)])

def entryFields : List (String × Entry) → List (String × Value)
  | [] => []
  | (name, entry) :: rest => (name, entry.toValue) :: entryFields rest

def entryTables : List (List (String × Entry)) → List Value
  | [] => []
  | entries :: rest => .table (entryFields entries) :: entryTables rest

end

namespace Entries

def alter (name : String) (change : Option Entry → Option Entry) : Entries → Option Entries
  | [] => (change none).map fun entry => [(name, entry)]
  | (other, entry) :: rest =>
    if other = name then (change (some entry)).map fun entry => (other, entry) :: rest
    else (alter name change rest).map fun rest => (other, entry) :: rest

/-- Changes the table at the end of a path and makes the tables that are missing on the way. -/
def descend (dotted : Bool) (change : Origin → Entries → Option Entries) :
    List String → Origin → Entries → Option Entries
  | [], origin, entries => change origin entries
  | name :: path, _, entries =>
    entries.alter name fun
      | none =>
        let origin := if dotted then Origin.dottedKey else .headerPath
        (descend dotted change path origin []).map (.table origin)
      | some (.value _) => none
      | some (.table origin inner) =>
        if dotted && origin = .header then none
        else (descend dotted change path origin inner).map (.table origin)
      | some (.tables earlier last) =>
        (descend dotted change path .header last).map (.tables earlier)

def addNew (name : String) (value : Value) (entries : Entries) : Option Entries :=
  entries.alter name fun
    | none => some (.value value)
    | some _ => none

def add (entries : Entries) (key : Key) (value : Value) : Option Entries :=
  descend true
    (fun origin inner =>
      if key.path ≠ [] ∧ origin ≠ .dottedKey then none else addNew key.last value inner)
    key.path .header entries

def addAll (entries : Entries) (pairs : List (Key × Value)) : Option Entries :=
  pairs.foldlM (fun entries (key, value) => entries.add key value) entries

def define (entries : Entries) (key : Key) (pairs : List (Key × Value)) : Option Entries :=
  descend false
    (fun _ inner => inner.alter key.last fun
      | none => (addAll [] pairs).map (.table .header)
      | some (.table .headerPath known) => (addAll known pairs).map (.table .header)
      | some _ => none)
    key.path .header entries

def append (entries : Entries) (key : Key) (pairs : List (Key × Value)) : Option Entries :=
  descend false
    (fun _ inner => inner.alter key.last fun
      | none => (addAll [] pairs).map (.tables [])
      | some (.tables earlier last) => (addAll [] pairs).map (.tables (earlier ++ [last]))
      | some _ => none)
    key.path .header entries

end Entries
end Hashgraph.Toml
