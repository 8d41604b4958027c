import ModuleLoader.Decimal.Numeral
import ModuleLoader.Library
import ModuleLoader.LoadError
import ModuleLoader.Script.Body
import ModuleLoader.Script.Declarations
/-!
Module units: what a source or a library becomes before it is wired to others. All cells of a unit
exist from the start, so that others can be bound to its exports before it runs.

There are three kinds. A script runs a program. A bridge shows a table of the host as a module and
fills its exports when it is evaluated. A manifest only states what each stage of its life answers.
-/
namespace ModuleLoader

structure UnitId where
  index : Nat
deriving DecidableEq, Repr

/-- How far a unit has come. The two last ones are kept and answer every later evaluation. -/
inductive Status
  | unlinked
  | linked
  | instantiating
  | instantiated
  | evaluating
  | evaluated (completion : Option Value)
  | errored (error : LoadError)
deriving Inhabited

/-- The stages at which a unit is called from outside. -/
inductive Stage
  | compile
  | link
  | instantiate
  | evaluate
  | namespace
deriving DecidableEq, Repr

def Stage.name : Stage → String
  | compile => "compile"
  | link => "link"
  | instantiate => "instantiate"
  | evaluate => "evaluate"
  | «namespace» => "namespace"

/-- The unit of a script. -/
structure ScriptUnit where
  url : Url
  program : Script.Program
  /-- A cell for each name that the script declares. -/
  locals : Scope
  /-- Exported names with the cells of the locals behind them. -/
  exports : Scope
  /-- Imported names with cells of other units; bound by instantiation. -/
  imports : Scope := []
  /-- The units behind the specifiers, as far as they are linked. -/
  dependencies : List (String × UnitId) := []
  status : Status := .unlinked

/-- What an executor does to the exports of its bridge. -/
inductive Effect
  | set (name : String) (v : Value)
  | copy (source target : String)
  /-- Puts another executor in the slot. -/
  | install (effects : List Effect)
  | fail (message : String)
  /-- Gives every export the value that a table has for it, or none. -/
  | fill (table : TableId)

abbrev Executor := List Effect

/-- A table of the host as a module. It needs no linking. -/
structure Bridge where
  url : Url
  exports : Scope
  /-- Runs once, at the first evaluation that gets to it. -/
  executor : Option Executor := none
  status : Status := .linked

/-- A module that says what it imports, exports and answers, and at which stage it fails. -/
structure Manifest where
  url : Url
  specifiers : List String := []
  completion : Option Value := none
  exports : Scope := []
  failing : Option Stage := none

inductive ModuleUnit
  | script (u : ScriptUnit)
  | bridge (b : Bridge)
  | manifest (m : Manifest)

namespace ModuleUnit

def url : ModuleUnit → Url
  | script u => u.url
  | bridge b => b.url
  | manifest m => m.url

/-- The specifiers that a unit asks for when it is linked. -/
def specifiers : ModuleUnit → List String
  | script u => u.program.specifiers
  | bridge _ => []
  | manifest m => m.specifiers

def exports : ModuleUnit → Scope
  | script u => u.exports
  | bridge b => b.exports
  | manifest m => m.exports

/-- The cell behind an export. -/
def export? (unit : ModuleUnit) (name : String) : Option CellId := unit.exports.cell? name

def status : ModuleUnit → Status
  | script u => u.status
  | bridge b => b.status
  | manifest _ => .linked

def withStatus (status : Status) : ModuleUnit → ModuleUnit
  | script u => script { u with status }
  | bridge b => bridge { b with status }
  | manifest m => manifest m

/-- The exports of a unit as others see them. -/
def namespace? : ModuleUnit → Except LoadError Namespace
  | manifest m =>
    if m.failing = some .namespace then .error (.unknownExport m.url "*")
    else .ok (.ofScope m.exports)
  | unit => .ok (.ofScope unit.exports)

end ModuleUnit

/-! ## Making units -/

/-- The unit of a source text: every local gets a new cell, and exports share those cells. -/
def ScriptUnit.compile (url : Url) (source : String) (cells : Cells) :
    Except LoadError (Cells × ScriptUnit) := do
  let fault (e : Script.ScriptError) : LoadError := .compile url (.script e)
  let program ← (Script.parse source).mapError fault
  let names ← (Script.declarations program).mapError fault
  let (cells, locals) := Scope.fresh names.locals cells
  let exports := names.exports.filterMap fun (exported, here) =>
    (locals.cell? here).map fun cell => (exported, cell)
  return (cells, { url, program, locals, exports })

/-- A bridge with a new undefined cell for each name; repeated names count once. -/
def Bridge.make (url : Url) (names : List String) (executor : Option Executor) (cells : Cells) :
    Cells × Bridge :=
  let (cells, exports) := Scope.fresh (names.mergeSort nameLe) cells
  (cells, { url, exports, executor })

namespace Manifest

/-- A stage by the word for it. -/
def stage? (word : String) : Option Stage :=
  [Stage.link, .instantiate, .evaluate, .namespace].find? fun stage => stage.name = word

/-- Adds what one line says. -/
def addLine (m : Manifest) (cells : Cells) (line : String) :
    Except LoadError (Cells × Manifest) :=
  match line.splitOn " " with
  | ["import", specifier] => .ok (cells, { m with specifiers := m.specifiers ++ [specifier] })
  | ["value", word] => .ok (cells, { m with completion := (Decimal.number? word).map .number })
  | ["export", name, word] =>
    let (cells, cell) := cells.alloc (((Decimal.number? word).map .number).getD .undefined)
    .ok (cells, { m with exports := m.exports.bind name cell })
  | ["fail", word] => .ok (cells, { m with failing := stage? word })
  | _ => .error (.compile m.url (.line line))

/-- The manifest that a source text is, line by line; empty lines say nothing. -/
def compile (url : Url) (source : String) (cells : Cells) : Except LoadError (Cells × Manifest) :=
  ((source.splitOn "\n").filter (· ≠ "")).foldlM
    (fun (cells, m) line => m.addLine cells line) (cells, { url })

end Manifest

end ModuleLoader
