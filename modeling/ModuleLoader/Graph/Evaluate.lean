import ModuleLoader.Graph.Store
/-!
Evaluation runs the body of a unit once, after the bodies of the units it depends on. The outcome is
kept. A unit that is being evaluated further up is not entered again, so cycles end, and every chain
of units that wait for each other is shorter than the number of units.
-/
namespace ModuleLoader.Store

/-! ## Executors -/

/-- What an executor changes: the cells, and the slot of its bridge. -/
structure Slot where
  cells : Cells
  executor : Option Executor

/-- The cell behind an export of a bridge. -/
def exportCell (b : Bridge) (name : String) : Except LoadError CellId :=
  match b.exports.cell? name with
  | some cell => .ok cell
  | none => .error (.unknownExport b.url name)

def performEffect (tables : Tables) (b : Bridge) (slot : Slot) :
    Effect → Except LoadError Slot
  | .set name v => do
    let cell ← exportCell b name
    return { slot with cells := slot.cells.write cell v }
  | .copy source target => do
    let cell ← exportCell b source
    let other ← exportCell b target
    return { slot with cells := slot.cells.write other (slot.cells.read cell) }
  | .install effects => .ok { slot with executor := some effects }
  | .fail message => .error (.evaluate b.url (.told message))
  | .fill table => .ok { slot with
      cells := b.exports.foldl
        (fun cells (name, cell) =>
          cells.write cell (((tables.read table).get? name).getD .undefined))
        slot.cells }

/-- Performs effects in order, up to the first failure; what was done before stays done. -/
def perform (tables : Tables) (b : Bridge) (slot : Slot) :
    Executor → Slot × Except LoadError Unit
  | [] => (slot, .ok ())
  | effect :: rest =>
    match performEffect tables b slot effect with
    | .ok slot => perform tables b slot rest
    | .error e => (slot, .error e)

/-- Takes the executor of a bridge out of its slot and runs it. -/
def runExecutor (s : Store) (id : UnitId) (b : Bridge) : Store × Except LoadError Unit :=
  let (slot, result) := perform s.tables b ⟨s.cells, none⟩ (b.executor.getD [])
  ({ s with cells := slot.cells }.changeBridge id fun b => { b with executor := slot.executor },
    result)

/-! ## Bodies -/

/-- Runs the body of a script whose dependencies are evaluated. -/
def runBody (s : Store) (u : ScriptUnit) : Store × Except LoadError (Option Value) :=
  let (cells, result) := u.program.run ⟨u.locals, u.imports⟩ s.cells
  ({ s with cells }, result.mapError fun fault => .evaluate u.url (.script fault))

/-- Keeps the outcome of an evaluation as the status of the unit. -/
def settleEvaluation (id : UnitId) :
    Store × Except LoadError (Option Value) → Store × Except LoadError (Option Value)
  | (s, .ok completion) => (s.setStatus id (.evaluated completion), .ok completion)
  | (s, .error e) => (s.setStatus id (.errored e), .error e)

/--
The answer of a unit that is not to be run: a kept outcome, nothing for one that is running further
up, and an error for one that is not instantiated.
-/
def replay (url : Url) : Status → Except LoadError (Option Value)
  | .evaluated completion => .ok completion
  | .errored e => .error e
  | .evaluating => .ok none
  | _ => .error (.evaluate url .uninstantiated)

/-- Evaluates a unit, when at most `depth` units wait for each other. -/
def evaluateWithin : Nat → Store → UnitId → Store × Except LoadError (Option Value)
  | 0, s, _ => (s, .ok none)
  | depth + 1, s, id =>
    match s.unit? id with
    | none => (s, .ok none)
    | some (.bridge b) =>
      match b.status with
      | .instantiated =>
        let (s, result) := (s.setStatus id .evaluating).runExecutor id b
        settleEvaluation id (s, result.map fun _ => none)
      | status => (s, replay b.url status)
    | some (.manifest m) =>
      (s.record .evaluate m.url,
        if m.failing = some .evaluate then .error (.evaluate m.url (.told "evaluate failed"))
        else .ok m.completion)
    | some (.script u) =>
      match u.status with
      | .instantiated =>
        let enter (s : Store) (specifier : String) : Store × Except LoadError Unit :=
          match s.dependency u specifier with
          | .ok dependency =>
            let (s, result) := evaluateWithin depth s dependency
            (s, result.map fun _ => ())
          | .error e => (s, .error e)
        settleEvaluation id <|
          match (s.setStatus id .evaluating).forEach enter u.program.specifiers with
          | (s, .error e) => (s, .error e)
          | (s, .ok ()) => s.runBody u
      | status => (s, replay u.url status)

/-- Evaluates a unit and everything it depends on. -/
def evaluate (s : Store) (id : UnitId) : Store × Except LoadError (Option Value) :=
  evaluateWithin (s.units.size + 1) s id

end ModuleLoader.Store
