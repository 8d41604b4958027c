import ModuleLoader.Graph.Unit
/-!
All units of a host with the cells they share. A unit that nothing holds any more is dropped: its
place stays empty, and those that were linked to it find nothing there.
-/
namespace ModuleLoader

structure Store where
  cells : Cells := {}
  tables : Tables := {}
  units : Array (Option ModuleUnit) := #[]
  /-- The calls on manifests, oldest first. -/
  events : Array (Stage × Url) := #[]

namespace Store

def unit? (s : Store) (id : UnitId) : Option ModuleUnit := (s.units[id.index]?).join

def status (s : Store) (id : UnitId) : Status :=
  ((s.unit? id).map ModuleUnit.status).getD .unlinked

def add (s : Store) (unit : ModuleUnit) : Store × UnitId :=
  ({ s with units := s.units.push (some unit) }, ⟨s.units.size⟩)

def change (s : Store) (id : UnitId) (f : ModuleUnit → ModuleUnit) : Store :=
  { s with units := s.units.modify id.index (Option.map f) }

def setStatus (s : Store) (id : UnitId) (status : Status) : Store :=
  s.change id (ModuleUnit.withStatus status)

def changeScript (s : Store) (id : UnitId) (f : ScriptUnit → ScriptUnit) : Store :=
  s.change id fun
    | .script u => .script (f u)
    | unit => unit

def changeBridge (s : Store) (id : UnitId) (f : Bridge → Bridge) : Store :=
  s.change id fun
    | .bridge b => .bridge (f b)
    | unit => unit

/-- Keeps the units that satisfy a condition and drops all others. -/
def retain (s : Store) (keep : UnitId → Bool) : Store :=
  { s with units := s.units.mapIdx fun i unit => if keep ⟨i⟩ then unit else none }

def drop (s : Store) (id : UnitId) : Store := s.retain (· ≠ id)

def record (s : Store) (stage : Stage) (url : Url) : Store :=
  { s with events := s.events.push (stage, url) }

/-- Takes a step for each item, in order, up to the first failure. -/
def forEach {α : Type} (step : Store → α → Store × Except LoadError Unit) (s : Store) :
    List α → Store × Except LoadError Unit
  | [] => (s, .ok ())
  | a :: rest =>
    match step s a with
    | (s, .error e) => (s, .error e)
    | (s, .ok ()) => forEach step s rest

/-! ## Linking -/

/--
The unit behind a specifier. Not being linked is told from being linked to a unit that has been
dropped since.
-/
def dependency (s : Store) (u : ScriptUnit) (specifier : String) : Except LoadError UnitId :=
  match u.dependencies.lookup specifier with
  | none => .error (.instantiate u.url (.dependencyUnlinked specifier))
  | some id =>
    match s.unit? id with
    | some _ => .ok id
    | none => .error (.link u.url (.unloaded specifier))

/-- Starts to link a unit, whatever its status. The answer is what it asks for. -/
def beginLink (s : Store) (id : UnitId) : Store × Except LoadError (List String) :=
  match s.unit? id with
  | none => (s, .ok [])
  | some (.script u) => (s.setStatus id .linked, .ok u.program.specifiers)
  | some (.bridge _) => (s, .ok [])
  | some (.manifest m) =>
    (s.record .link m.url,
      if m.failing = some .link then .error (.link m.url .declared) else .ok m.specifiers)

/-- Records the unit behind a specifier of another. -/
def wire (s : Store) (id : UnitId) (specifier : String) (dependency : UnitId) : Store :=
  s.changeScript id fun u =>
    { u with dependencies := u.dependencies.filter (·.1 ≠ specifier) ++ [(specifier, dependency)] }

end Store

end ModuleLoader
