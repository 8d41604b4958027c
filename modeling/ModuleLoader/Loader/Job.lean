import ModuleLoader.Graph.Unit
import ModuleLoader.Resolve.Resolver
/-!
Jobs: a loader has one for each canonical URL. The job prepares a unit from the source, links the
unit to those of its dependencies, and instantiates everything that it reaches. Each of these phases
ends once and keeps its result, which is what everybody gets who waits for it.
-/
namespace ModuleLoader

structure JobId where
  index : Nat
deriving DecidableEq, Repr

def JobId.text (id : JobId) : String := "#" ++ toString id.index

/-- From a URL to a unit. -/
inductive Preparation
  | idle
  /-- The file system is asked for the source. -/
  | reading (path : FilePath)
  | done (result : Except LoadError UnitId)

/-- The unit or the error, once there is one. -/
def Preparation.result? : Preparation → Option (Except LoadError UnitId)
  | done result => some result
  | _ => none

/-- How far one dependency of a link phase has come. -/
inductive Wiring
  | unasked
  | resolving (request : RequestId)
  /-- Its job is there, its unit maybe not. -/
  | located (job : JobId)
  | wired (job : JobId)
deriving DecidableEq, Repr

def Wiring.wired? : Wiring → Option JobId
  | wired job => some job
  | _ => none

structure Dependency where
  specifier : String
  wiring : Wiring := .unasked
deriving DecidableEq, Repr

/-- From a unit to the jobs of its dependencies, in the order in which it declares them. -/
inductive Linking
  | waiting
  | wiring (dependencies : List Dependency)
  | done (result : Except LoadError (List JobId))

def Linking.result? : Linking → Option (Except LoadError (List JobId))
  | done result => some result
  | _ => none

/-! ## Walking the graph -/

/-- A walk over everything that a job reaches. -/
structure Walk where
  /-- The jobs that were visited, in the order of their visits. -/
  members : List JobId := []
  /-- The jobs to visit, the next one first. -/
  stack : List JobId
deriving DecidableEq, Repr

namespace Walk

def start (root : JobId) : Walk := { stack := [root] }

/-- Visits the next job, or passes it if it was visited before. -/
def visit (w : Walk) (job : JobId) (rest dependencies : List JobId) : Walk :=
  let members := w.members ++ [job]
  { members, stack := (dependencies.filter fun d => !members.elem d) ++ rest }

end Walk

/-- From linked units to instantiated ones. -/
inductive Instantiation
  | unasked
  | entering
  | walking (walk : Walk)
  | done (result : Except LoadError Unit)

def Instantiation.result? : Instantiation → Option (Except LoadError Unit)
  | done result => some result
  | _ => none

structure ComponentId where
  index : Nat
deriving DecidableEq, Repr

/-- Jobs that were instantiated together, by one call on the unit of the root. -/
structure Component where
  root : JobId
  members : List JobId
  outcome : Except LoadError Unit

structure Job where
  id : JobId
  url : Url
  format : Format
  /-- The text supplied for the eval module when the job was made. -/
  evalSource : Option String := none
  preparation : Preparation := .idle
  linking : Linking := .waiting
  instantiation : Instantiation := .unasked
  /-- The component that the job joined first. -/
  component : Option ComponentId := none

/-! ## Calls -/

/-- What can be wanted of a job. -/
inductive Wish
  | job
  | unit
  | linked
  | dependencies
  | instantiated
  | completion
  | namespace
  /-- The namespace, after the module has run. -/
  | imported
deriving DecidableEq, Repr

inductive Answer
  | resolved (m : Resolved)
  | job (id : JobId)
  | jobs (ids : List JobId)
  | unit (id : UnitId)
  | instantiated
  | completion (v : Option Value)
  | namespace (ns : Namespace)

/-- What a client of the loader calls for. -/
inductive Goal
  | resolve (specifier : String) (referrer : Option Url)
  | find (specifier : String) (referrer : Option Url) (wish : Wish)
  /-- Runs a text as the eval module. -/
  | eval (source : String)
  | ask (job : JobId) (wish : Wish)
deriving DecidableEq

/-- How far a call has come. -/
inductive Call
  | resolving (request : RequestId)
  | locating (request : RequestId) (wish : Wish)
  | serving (job : JobId) (wish : Wish)
  | answered (answer : Except LoadError Answer)

def Call.answer? : Call → Option (Except LoadError Answer)
  | answered answer => some answer
  | _ => none

structure CallId where
  index : Nat
deriving DecidableEq, Repr

end ModuleLoader
