import ModuleLoader.Cell
import ModuleLoader.Script.Error
/-!
Running the body of a script. Expressions read cells and call host functions but write nothing;
only declarations and assignments write, and only cells of the script's own locals. What was
written before a fault stays written.
-/
namespace ModuleLoader.Script

/-- The names a body can use. A local hides an import of the same name. -/
structure Bindings where
  locals : Scope
  imports : Scope

namespace Bindings

def lookup (names : Bindings) (cells : Cells) (name : String) : Except Fault Value :=
  match (names.locals.cell? name).or (names.imports.cell? name) with
  | some cell => .ok (cells.read cell)
  | none => .error (.undefinedName name)

def assign (names : Bindings) (cells : Cells) (name : String) (v : Value) : Except Fault Cells :=
  match names.locals.cell? name with
  | some cell => .ok (cells.write cell v)
  | none =>
    match names.imports.cell? name with
    | some _ => .error (.readOnly name)
    | none => .error (.undefinedName name)

end Bindings

/-- Numbers compute; a string on either side of a sum joins the display texts. -/
def Operator.apply (op : Operator) (left right : Value) : Except Fault Value :=
  match op, left, right with
  | .add, .number x, .number y => .ok (.number (x + y))
  | .add, .string s, v => .ok (.string (s ++ v.text))
  | .add, v, .string s => .ok (.string (v.text ++ s))
  | .subtract, .number x, .number y => .ok (.number (x - y))
  | .multiply, .number x, .number y => .ok (.number (x * y))
  | .divide, .number x, .number y => .ok (.number (x / y))
  | op, left, right => .error (.operands op left.typeName right.typeName)

mutual

/--
Computes an expression over cells that stay as they are. The state is what the functions of the host do
from now on; a fault keeps the calls before it.
-/
def Expression.compute (names : Bindings) (cells : Cells) :
    Expression → EStateM Fault HostFunctions Value
  | .number x => return .number x
  | .string s => return .string s
  | .boolean b => return .boolean b
  | .null => return .null
  | .identifier name _ => MonadExcept.ofExcept (names.lookup cells name)
  | .negate operand => do
    match ← operand.compute names cells with
    | .number x => return .number (-x)
    | v => throw (.negated v.typeName)
  | .binary op left right => do
    let l ← left.compute names cells
    let r ← right.compute names cells
    MonadExcept.ofExcept (op.apply l r)
  | .call callee args span => do
    match ← callee.compute names cells with
    | .function f =>
      let values ← computeAll names cells args
      match ← modifyGet fun functions => functions.call f values with
      | .ok v => return v
      | .error message => throw (.host f.name message)
    | v => throw (.notCallable span.position v.typeName)

/-- The values of arguments, from left to right, up to the first fault. -/
def computeAll (names : Bindings) (cells : Cells) :
    List Expression → EStateM Fault HostFunctions (List Value)
  | [] => return []
  | e :: es => do
    let v ← e.compute names cells
    let vs ← computeAll names cells es
    return v :: vs

end

/-- The value of an expression, and the cells behind it. No value in them has changed. -/
def Expression.eval (names : Bindings) (cells : Cells) (e : Expression) :
    Cells × Except Fault Value :=
  match e.compute names cells cells.functions with
  | .ok v functions => ({ cells with functions }, .ok v)
  | .error fault functions => ({ cells with functions }, .error fault)

/-- Writes the value of an expression under a name. -/
def Bindings.write (names : Bindings) (cells : Cells) (name : String) (e : Expression) :
    Cells × Except Fault (Option Value) :=
  match e.eval names cells with
  | (cells, .error fault) => (cells, .error fault)
  | (cells, .ok v) =>
    match names.assign cells name v with
    | .error fault => (cells, .error fault)
    | .ok cells => (cells, .ok none)

/-- What one statement does: the cells behind it, and a value if it is an expression. -/
def Statement.run (names : Bindings) (cells : Cells) :
    Statement → Cells × Except Fault (Option Value)
  | .importFrom _ => (cells, .ok none)
  | .exportList _ => (cells, .ok none)
  | .declare name init _ _ => names.write cells name init
  | .assign name value _ => names.write cells name value
  | .expression e =>
    let (cells, result) := e.eval names cells
    (cells, result.map some)

/--
Runs statements in order up to the first fault. The completion is the value of the last expression
statement, or `completion` if there is none.
-/
def runStatements (names : Bindings) (cells : Cells) (completion : Option Value) :
    List Statement → Cells × Except Fault (Option Value)
  | [] => (cells, .ok completion)
  | s :: rest =>
    match s.run names cells with
    | (cells, .error fault) => (cells, .error fault)
    | (cells, .ok v) => runStatements names cells (v.or completion) rest

/-- Runs the body of a program. -/
def Program.run (p : Program) (names : Bindings) (cells : Cells) :
    Cells × Except Fault (Option Value) :=
  runStatements names cells none p.statements

end ModuleLoader.Script
