import ModuleLoader.Loader.Schedule
/-!
Loaders over one host. They share its file system, its libraries and the cells of its units, and
nothing else. Their steps are taken one at a time.
-/
namespace ModuleLoader

structure World where
  host : Host
  loaders : Array Loader := #[]
  /-- The file system answers every question at once, before anything else happens. -/
  promptly : Bool := true

/-- A call on one of the loaders. -/
structure OpenCall where
  loader : Nat
  call : CallId
deriving DecidableEq, Repr

namespace World

/-- A loader that is not dropped. -/
def live? (w : World) (loader : Nat) : Option Loader := (w.loaders[loader]?).filter (·.alive)

def machine? (w : World) (loader : Nat) : Option Machine :=
  (w.loaders[loader]?).map fun l => ⟨w.host, l⟩

def withMachine (w : World) (loader : Nat) (m : Machine) : World :=
  { w with host := m.host, loaders := w.loaders.setIfInBounds loader m.loader }

/-- The world after a step of one loader, or the same one if the step is not possible. -/
def act (w : World) (loader : Nat) (action : Action) : World :=
  match (w.machine? loader).bind (·.step? action) with
  | some m => w.withMachine loader m
  | none => w

/-- Starts a call. -/
def start (w : World) (loader : Nat) (goal : Goal) : World × OpenCall :=
  let count := ((w.loaders[loader]?).map fun l => l.calls.size).getD 0
  (w.act loader (.start goal), ⟨loader, ⟨count⟩⟩)

def answerOf? (w : World) (call : OpenCall) : Option (Except LoadError Answer) :=
  (w.machine? call.loader).bind (·.answerOf? call.call)

/-! ## Taking steps -/

/-- The first loader for which there is a step. -/
def firstStep? (w : World) (step? : Machine → Option Action) : Option (Nat × Action) :=
  (List.range w.loaders.size).findSome? fun i =>
    ((w.machine? i).bind step?).map fun action => (i, action)

def callStep? (w : World) (call : OpenCall) : Option (Nat × Action) :=
  ((w.machine? call.loader).bind (·.callStep? call.call)).map fun action => (call.loader, action)

def fileStep? (w : World) : Option (Nat × Action) := w.firstStep? Machine.fileStep?

/-- The next step for one call alone. -/
def pollStep? (call : OpenCall) (w : World) : Option (Nat × Action) :=
  if w.promptly then w.fileStep?.or (w.callStep? call) else w.callStep? call

/-- The next step of all: calls first, in their order, then what goes on by itself. -/
def settleStep? (calls : List OpenCall) (w : World) : Option (Nat × Action) :=
  let work := (calls.findSome? w.callStep?).or (w.firstStep? Machine.backgroundStep?)
  if w.promptly then w.fileStep?.or work else work.or w.fileStep?

/-- Takes steps until there are none, at most `count`. -/
def run (choose : World → Option (Nat × Action)) : Nat → World → World
  | 0, w => w
  | count + 1, w =>
    match choose w with
    | none => w
    | some (loader, action) => run choose count (w.act loader action)

/-- More steps than a project takes that fits into memory. -/
def stepLimit : Nat := 16777216

/-- Follows one call until it is answered or waits for the file system. -/
def poll (w : World) (call : OpenCall) : World := w.run (pollStep? call) stepLimit

/-- Takes steps until all calls are answered and nothing goes on. -/
def settle (w : World) (calls : List OpenCall) : World := w.run (settleStep? calls) stepLimit

/-! ## Dropping loaders -/

/-- The units that a job keeps in use: its own, and that of the root of its component. -/
def unitsOf (l : Loader) (id : JobId) : List UnitId :=
  let unit (id : JobId) : Option UnitId := (l.prepared? id).bind Except.toOption
  (unit id).toList ++ ((l.root? id).bind unit).toList

/-- The units that are in use while some jobs are held from outside. -/
def unitsInUse (w : World) (held : List (Nat × JobId)) : List UnitId :=
  let ofLive := w.loaders.toList.flatMap fun l =>
    if l.alive then (List.range l.jobs.size).flatMap fun i => unitsOf l ⟨i⟩ else []
  let ofHeld := held.flatMap fun (loader, id) =>
    ((w.loaders[loader]?).map fun l => unitsOf l id).getD []
  ofLive ++ ofHeld

/-- Drops a loader, and all units that are not in use any more. -/
def drop (w : World) (loader : Nat) (held : List (Nat × JobId)) : World :=
  let w := { w with loaders := w.loaders.modify loader fun l => { l with alive := false } }
  let used := w.unitsInUse held
  { w with host := { w.host with store := w.host.store.retain fun id => used.elem id } }

/-- Writes a value into a registered library. -/
def setLibrary? (w : World) (id name : String) (v : Value) : Option World := do
  let table ← w.host.registry.get? id
  let store := { w.host.store with tables := w.host.store.tables.set table name v }
  return { w with host := { w.host with store } }

/-- Adds a library to the registry. -/
def addLibrary (w : World) (id : String) (table : Table) : World :=
  let (tables, t) := w.host.store.tables.alloc table
  { w with host := { w.host with
      store := { w.host.store with tables }
      registry := w.host.registry.put id t } }

end World

end ModuleLoader
