import ModuleLoader.Value
/-!
A stock of host functions, told by their names, for hosts that say nothing of what theirs do.
-/
namespace ModuleLoader

/-- Upper case for the letters of ASCII, every other character as it is. -/
def asciiUpper (s : String) : String := s.map Char.toUpper

/-- A call by name; the one function that calls another hands on all arguments but the first. -/
def callNamed (name : String) (args : List Value) : Except String Value :=
  match name, args with
  | "id", args => .ok (args.head?.getD .undefined)
  | "argc", args => .ok (.number (Float.ofNat args.length))
  | "double", [.number x] => .ok (.number (x * 2))
  | "double", _ => .error "expected one number"
  | "upper", [.string s] => .ok (.string (asciiUpper s))
  | "upper", _ => .error "expected one string"
  | "typeof", [] => .ok (.string "nothing")
  | "typeof", v :: _ => .ok (.string v.typeName)
  | "join", args => .ok (.string (",".intercalate (args.map Value.text)))
  | "fail", [] => .error "failed"
  | "fail", v :: _ => .error v.text
  | "call", .function f :: rest => callNamed f.name rest
  | "call", _ => .error "expected a function"
  | _, _ => .ok .undefined
termination_by args.length

def HostFunction.call (f : HostFunction) (args : List Value) : Except String Value :=
  callNamed f.name args

/-- Functions that remember nothing. -/
def HostFunctions.stock : HostFunctions := ⟨fun _ => HostFunction.call⟩

end ModuleLoader
