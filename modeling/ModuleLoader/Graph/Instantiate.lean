import ModuleLoader.Graph.Store
/-!
Instantiation binds the imports of a unit to cells of the units they come from, after those units
are instantiated themselves. A unit whose instantiation is under way is not entered again, so cycles
end, and every chain of units that wait for each other is shorter than the number of units.
-/
namespace ModuleLoader.Store

/-- The cells for the names of one import declaration. -/
def importCells (s : Store) (u : ScriptUnit) (decl : Script.ImportDecl) :
    Except LoadError Scope := do
  let id ← s.dependency u decl.specifier
  match s.unit? id with
  | none => throw (.link u.url (.unloaded decl.specifier))
  | some unit =>
    decl.bindings.mapM fun binding =>
      match unit.export? binding.imported with
      | some cell => .ok (binding.here, cell)
      | none => .error (.unknownExport unit.url binding.imported)

/-- The cells for all imported names of a script, in source order, or the first that is missing. -/
def allImportCells (s : Store) (u : ScriptUnit) : Except LoadError Scope :=
  (u.program.imports.mapM (s.importCells u)).map List.flatten

/-- Binds the imports of a script whose dependencies are instantiated. -/
def bindImports (s : Store) (id : UnitId) (u : ScriptUnit) : Store × Except LoadError Unit :=
  match s.allImportCells u with
  | .ok imports => (s.changeScript id fun u => { u with imports }, .ok ())
  | .error e => (s, .error e)

/-- Keeps the outcome of an instantiation as the status of the unit. -/
def settleInstantiation (id : UnitId) : Store × Except LoadError Unit → Store × Except LoadError Unit
  | (s, .ok ()) => (s.setStatus id .instantiated, .ok ())
  | (s, .error e) => (s.setStatus id (.errored e), .error e)

/-- Instantiates a unit, when at most `depth` units wait for each other. -/
def instantiateWithin : Nat → Store → UnitId → Store × Except LoadError Unit
  | 0, s, _ => (s, .ok ())
  | depth + 1, s, id =>
    match s.unit? id with
    | none => (s, .ok ())
    | some (.bridge b) =>
      match b.status with
      | .linked => (s.setStatus id .instantiated, .ok ())
      | _ => (s, .ok ())
    | some (.manifest m) =>
      (s.record .instantiate m.url,
        if m.failing = some .instantiate then .error (.instantiate m.url .declared) else .ok ())
    | some (.script u) =>
      match u.status with
      | .unlinked => (s, .error (.instantiate u.url .unlinked))
      | .errored e => (s, .error e)
      | .linked =>
        let enter (s : Store) (specifier : String) : Store × Except LoadError Unit :=
          match s.dependency u specifier with
          | .ok dependency => instantiateWithin depth s dependency
          | .error e => (s, .error e)
        settleInstantiation id <|
          match (s.setStatus id .instantiating).forEach enter u.program.specifiers with
          | (s, .error e) => (s, .error e)
          | (s, .ok ()) => s.bindImports id u
      | _ => (s, .ok ())

/-- Instantiates a unit and everything it depends on. -/
def instantiate (s : Store) (id : UnitId) : Store × Except LoadError Unit :=
  instantiateWithin (s.units.size + 1) s id

end ModuleLoader.Store
