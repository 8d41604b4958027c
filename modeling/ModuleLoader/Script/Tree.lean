import ModuleLoader.Text.Position
/-!
What a script says: a list of statements. Parentheses leave no trace in an expression.
-/
namespace ModuleLoader.Script

inductive Operator
  | add | subtract | multiply | divide
deriving DecidableEq, Repr

def Operator.name : Operator → String
  | add => "Add"
  | subtract => "Subtract"
  | multiply => "Multiply"
  | divide => "Divide"

inductive Expression
  | number (x : Float)
  | string (s : String)
  | boolean (b : Bool)
  | null
  | identifier (name : String) (span : Span)
  | negate (operand : Expression)
  | binary (op : Operator) (left right : Expression)
  /-- The span is that of the opening parenthesis. -/
  | call (callee : Expression) (args : List Expression) (span : Span)
deriving Inhabited

/-- `imported as here`, in an import. -/
structure ImportBinding where
  imported : String
  here : String
  span : Span
deriving DecidableEq, Repr

/-- `here as exported`, in an export list. -/
structure ExportBinding where
  here : String
  exported : String
  span : Span
deriving DecidableEq, Repr

/-- One import declaration; the span is that of its keyword. -/
structure ImportDecl where
  specifier : String
  bindings : List ImportBinding
  span : Span
deriving DecidableEq, Repr

inductive Statement
  | importFrom (decl : ImportDecl)
  | declare (name : String) (init : Expression) (exported : Bool) (span : Span)
  | exportList (bindings : List ExportBinding)
  | assign (name : String) (value : Expression) (span : Span)
  | expression (e : Expression)
deriving Inhabited

/-- A whole script. -/
structure Program where
  statements : List Statement
deriving Inhabited

namespace Program

/-- The import declarations in source order. -/
def imports (p : Program) : List ImportDecl :=
  p.statements.filterMap fun
    | .importFrom decl => some decl
    | _ => none

/-- The names that the script declares itself, in source order. -/
def declared (p : Program) : List String :=
  p.statements.filterMap fun
    | .declare name .. => some name
    | _ => none

/-- Every specifier the script imports from, each once, in order of first occurrence. -/
def specifiers (p : Program) : List String := (p.imports.map ImportDecl.specifier).eraseDups

end Program

end ModuleLoader.Script
