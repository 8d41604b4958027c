import ModuleLoader.Script.Error
/-!
The names of a script. Imports and declarations together are distinct, export lists name only
declarations, and no name is exported twice. All imports and declarations are checked in source
order before the first export list.
-/
namespace ModuleLoader.Script

structure Declarations where
  imported : List String := []
  locals : List String := []
  /-- Exported name and the local behind it, in the order in which they are exported. -/
  exports : List (String × String) := []
deriving DecidableEq, Repr

namespace Declarations

def declares (d : Declarations) (name : String) : Bool :=
  d.imported.contains name || d.locals.contains name

def exportsName (d : Declarations) (name : String) : Bool := d.exports.any (·.1 = name)

def addImport (d : Declarations) (binding : ImportBinding) : Except ScriptError Declarations :=
  if d.declares binding.here then .error (.duplicate binding.here)
  else .ok { d with imported := d.imported ++ [binding.here] }

def addLocal (d : Declarations) (name : String) (exported : Bool) :
    Except ScriptError Declarations :=
  if d.declares name then .error (.duplicate name)
  else .ok { d with
    locals := d.locals ++ [name]
    exports := if exported then d.exports ++ [(name, name)] else d.exports }

def addExport (d : Declarations) (binding : ExportBinding) : Except ScriptError Declarations :=
  if d.locals.contains binding.here then
    if d.exportsName binding.exported then .error (.duplicate binding.exported)
    else .ok { d with exports := d.exports ++ [(binding.exported, binding.here)] }
  else if d.imported.contains binding.here then
    .error (.reexported binding.span.position binding.here)
  else .error (.undeclared binding.span.position binding.here)

/-- Adds what one statement declares. -/
def addDeclared (d : Declarations) : Statement → Except ScriptError Declarations
  | .importFrom decl => decl.bindings.foldlM addImport d
  | .declare name _ exported _ => d.addLocal name exported
  | _ => .ok d

/-- Adds what one statement exports by a list. -/
def addListed (d : Declarations) : Statement → Except ScriptError Declarations
  | .exportList bindings => bindings.foldlM addExport d
  | _ => .ok d

end Declarations

/-- The declarations of a program, or the first rule that it breaks. -/
def declarations (p : Program) : Except ScriptError Declarations := do
  let declared ← p.statements.foldlM Declarations.addDeclared {}
  p.statements.foldlM Declarations.addListed declared

end ModuleLoader.Script
