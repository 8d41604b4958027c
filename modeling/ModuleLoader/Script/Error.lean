import ModuleLoader.Script.Parse
/-!
What can be wrong with a script, and how it is told. A script fails before it runs when its text
does not split into tokens, when the tokens form no program, or when its declarations clash; while
it runs it fails with a fault.
-/
namespace ModuleLoader.Script

/-- A failure of a running script. -/
inductive Fault
  | undefinedName (name : String)
  | readOnly (name : String)
  | negated (typeName : String)
  | operands (op : Operator) (left right : String)
  | notCallable (position : Position) (typeName : String)
  | host (function message : String)
deriving DecidableEq, Repr

def Fault.message : Fault → String
  | undefinedName name => "'" ++ name ++ "' is not defined"
  | readOnly name => "cannot assign to imported binding '" ++ name ++ "'"
  | negated typeName => "cannot negate a " ++ typeName
  | operands op left right =>
    "unsupported operands for " ++ op.name ++ ": " ++ left ++ " and " ++ right
  | notCallable position typeName => position.text ++ ": a " ++ typeName ++ " is not callable"
  | host function message => function ++ ": " ++ message

inductive ScriptError
  | stray (s : Stray)
  /-- No token is found at the end of the input. -/
  | unexpected (position : Position) (expected : Expected) (found : Option Token)
  | reexported (position : Position) (name : String)
  | undeclared (position : Position) (name : String)
  | duplicate (name : String)
  | fault (f : Fault)

def ScriptError.message : ScriptError → String
  | stray s => s.position.text ++ ": unexpected character '" ++ s.char.toString ++ "'"
  | unexpected position expected found =>
    position.text ++ ": expected " ++ expected.text ++ ", found " ++
      (match found with
        | some token => token.text
        | none => "end of input")
  | reexported position name =>
    position.text ++ ": cannot re-export imported binding '" ++ name ++ "'"
  | undeclared position name => position.text ++ ": '" ++ name ++ "' is not declared"
  | duplicate name => "Duplicate declaration of '" ++ name ++ "'"
  | fault f => f.message

/-- The error for a failure of the grammar; the end of the input has a position too. -/
def Failure.toError (source : String) (f : Failure) : ScriptError :=
  match f.rest with
  | [] => .unexpected (Text.endPosition source.toList) f.expected none
  | first :: _ => .unexpected first.span.position f.expected (some first.token)

/-- The program of a source text. -/
def parse (source : String) : Except ScriptError Program :=
  match tokens source with
  | .error stray => .error (.stray stray)
  | .ok ts =>
    match program ts with
    | .error failure => .error (failure.toError source)
    | .ok p => .ok p

/-- What becomes of a text that splits into tokens is what the grammar makes of them. -/
theorem parse_eq {source : String} {ts : Tokens} (h : tokens source = .ok ts) :
    parse source = (program ts).mapError (Failure.toError source) := by
  simp only [parse, h]
  cases program ts <;> rfl

end ModuleLoader.Script
