import ModuleLoader.Stock
/-!
Cells hold the current values of bindings. A cell is made once and never goes away; every module
and namespace that holds its number sees each write to it. With the cells goes what the functions of
the host do from now on, which changes with each call but with nothing else that modules do.
-/
namespace ModuleLoader

structure CellId where
  index : Nat
deriving DecidableEq, Repr

structure Cells where
  values : Array Value := #[]
  functions : HostFunctions := .stock

namespace Cells

/-- A new cell; its number is the count of cells made before. -/
def alloc (cells : Cells) (v : Value) : Cells × CellId :=
  ({ cells with values := cells.values.push v }, ⟨cells.values.size⟩)

def read (cells : Cells) (id : CellId) : Value := cells.values.getD id.index .undefined

def write (cells : Cells) (id : CellId) (v : Value) : Cells :=
  { cells with values := cells.values.setIfInBounds id.index v }

end Cells

/-- Names bound to cells. A name stands at most once. -/
abbrev Scope := List (String × CellId)

namespace Scope

def cell? (scope : Scope) (name : String) : Option CellId := scope.lookup name

def names (scope : Scope) : List String := scope.map (·.1)

/-- Binds a name, in place of an earlier binding of it. -/
def bind (scope : Scope) (name : String) (cell : CellId) : Scope :=
  if scope.any (·.1 = name) then scope.map fun entry => if entry.1 = name then (name, cell) else entry
  else scope ++ [(name, cell)]

/-- One new undefined cell per name, in order; a repeated name gets no second cell. -/
def fresh (names : List String) (cells : Cells) : Cells × Scope :=
  names.eraseDups.foldl
    (fun (cells, scope) name =>
      let (cells, cell) := cells.alloc .undefined
      (cells, scope ++ [(name, cell)]))
    (cells, [])

end Scope

/-- The order of names in every listing: by code point. -/
def nameLe (a b : String) : Bool := !(b < a)

/-- The exports of a module, sorted by name. -/
structure Namespace where
  entries : Scope := []
deriving Inhabited

namespace Namespace

def ofScope (scope : Scope) : Namespace := ⟨scope.mergeSort fun a b => nameLe a.1 b.1⟩

def cell? (ns : Namespace) (name : String) : Option CellId := ns.entries.cell? name

/-- Every export with the value its cell holds now. -/
def read (ns : Namespace) (cells : Cells) : List (String × Value) :=
  ns.entries.map fun (name, cell) => (name, cells.read cell)

end Namespace

end ModuleLoader
