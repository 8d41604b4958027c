import ModuleLoader.Cell
/-!
Libraries of the host: tables of names and values, and the registry that says which identifier
stands for which table. Everything that holds the number of a table sees each write to it; the names
that a load answers with are those of its moment.
-/
namespace ModuleLoader

/-- Names and values; a name stands at most once. -/
abbrev Table := List (String × Value)

namespace Table

def get? (table : Table) (name : String) : Option Value := table.lookup name

/-- Writes a value, in place of an earlier one of the same name. -/
def set (table : Table) (name : String) (v : Value) : Table :=
  if table.any (·.1 = name) then table.map fun entry => if entry.1 = name then (name, v) else entry
  else table ++ [(name, v)]

/-- The table of some pairs, of which a later one replaces an earlier one. -/
def ofPairs (pairs : List (String × Value)) : Table :=
  pairs.foldl (fun table pair => table.set pair.1 pair.2) []

/-- All names, sorted. -/
def names (table : Table) : List String := (table.map (·.1)).mergeSort nameLe

/-- All entries, sorted by name. -/
def sorted (table : Table) : List (String × Value) := table.mergeSort fun a b => nameLe a.1 b.1

end Table

structure TableId where
  index : Nat
deriving DecidableEq, Repr

structure Tables where
  all : Array Table := #[]
deriving Inhabited

namespace Tables

def alloc (tables : Tables) (table : Table) : Tables × TableId :=
  (⟨tables.all.push table⟩, ⟨tables.all.size⟩)

def read (tables : Tables) (id : TableId) : Table := tables.all.getD id.index []

def set (tables : Tables) (id : TableId) (name : String) (v : Value) : Tables :=
  ⟨tables.all.modify id.index fun table => table.set name v⟩

end Tables

/-- The tables by the identifier under which modules ask for them; an identifier stands once. -/
abbrev Registry := List (String × TableId)

namespace Registry

def get? (registry : Registry) (id : String) : Option TableId := registry.lookup id

def isRegistered (registry : Registry) (id : String) : Bool := registry.any (·.1 = id)

/-- Puts a table under an identifier, in place of an earlier one. -/
def put (registry : Registry) (id : String) (table : TableId) : Registry :=
  registry.filter (·.1 ≠ id) ++ [(id, table)]

/-- Adds a table under an identifier that is not taken. -/
def register? (registry : Registry) (id : String) (table : TableId) : Option Registry :=
  if registry.isRegistered id then none else some (registry.put id table)

def remove (registry : Registry) (id : String) : Registry := registry.filter (·.1 ≠ id)

/-- All identifiers, sorted. -/
def ids (registry : Registry) : List String := (registry.map (·.1)).mergeSort nameLe

end Registry

/-- A library as it was loaded: its table, and the names it had then, sorted. -/
structure Library where
  table : TableId
  names : List String

/-- Loads what is registered under an identifier. -/
def Registry.load? (registry : Registry) (tables : Tables) (id : String) : Option Library :=
  (registry.get? id).map fun table => ⟨table, (tables.read table).names⟩

end ModuleLoader
