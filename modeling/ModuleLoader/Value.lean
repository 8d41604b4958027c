import ModuleLoader.Decimal.Shortest
/-!
The values that modules compute with, their display text, and the functions of a host, which modules
can call.
-/
namespace ModuleLoader

/-- A function of the host. Its number tells it from all others, of the same name too. -/
structure HostFunction where
  name : String
  identity : Nat
deriving DecidableEq, Repr

inductive Value
  | undefined
  | null
  | boolean (b : Bool)
  | number (x : Float)
  | string (s : String)
  | function (f : HostFunction)
deriving Inhabited

namespace Value

/-- The name of the value's type, as messages and scripts see it. -/
def typeName : Value → String
  | undefined => "undefined"
  | null => "null"
  | boolean _ => "boolean"
  | number _ => "number"
  | string _ => "string"
  | function _ => "function"

/-- The display text: strings stand for themselves, without quotes. -/
def text : Value → String
  | undefined => "undefined"
  | null => "null"
  | boolean b => if b then "true" else "false"
  | number x => Decimal.text x
  | string s => s
  | function f => "[Function: " ++ f.name ++ "]"

/-- Equality as a host sees it: numbers by value, so a NaN differs from itself, functions by identity. -/
def same : Value → Value → Bool
  | undefined, undefined => true
  | null, null => true
  | boolean a, boolean b => a == b
  | number x, number y => x == y
  | string s, string t => s == t
  | function f, function g => f.identity == g.identity
  | _, _ => false

def number? : Value → Option Float
  | number x => some x
  | _ => none

def string? : Value → Option String
  | string s => some s
  | _ => none

def boolean? : Value → Option Bool
  | boolean b => some b
  | _ => none

def function? : Value → Option HostFunction
  | function f => some f
  | _ => none

end Value

/--
What the functions of a host do: the answer to a call by how many calls modules make before it, by the
function and by the arguments. So functions can remember what was called, and those of one name can do
different things. A call touches no cell.
-/
structure HostFunctions where
  answer : Nat → HostFunction → List Value → Except String Value

namespace HostFunctions

/-- What the functions do once modules have made some more calls. -/
def after (functions : HostFunctions) (calls : Nat) : HostFunctions :=
  ⟨fun count => functions.answer (calls + count)⟩

/-- A call, and what the functions do from then on. -/
def call (functions : HostFunctions) (f : HostFunction) (args : List Value) :
    Except String Value × HostFunctions :=
  (functions.answer 0 f args, functions.after 1)

end HostFunctions

end ModuleLoader
