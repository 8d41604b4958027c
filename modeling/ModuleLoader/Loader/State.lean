import ModuleLoader.Graph.Evaluate
import ModuleLoader.Graph.Instantiate
import ModuleLoader.Loader.ModuleMap
import ModuleLoader.Source
/-!
The state of a loader and of its host. What a loader knows of its modules is in its map, which has one
job for each URL.
-/
namespace ModuleLoader

/-- What turns a source text into a unit. -/
inductive Compiler
  | script
  | manifest
deriving DecidableEq, Repr

/-- What loaders share. -/
structure Host where
  store : Store := {}
  files : Files := []
  registry : Registry := []
  compiler : Compiler := .script
  /-- The paths that were read, oldest first. -/
  reads : List FilePath := []

namespace Host

/-- Compiles a source text into a new unit. -/
def compile (host : Host) (url : Url) (source : String) : Host × Except LoadError UnitId :=
  let cells := host.store.cells
  match host.compiler with
  | .script =>
    match ScriptUnit.compile url source cells with
    | .error e => (host, .error e)
    | .ok (cells, u) =>
      let (store, id) := { host.store with cells }.add (.script u)
      ({ host with store }, .ok id)
  | .manifest =>
    let store := host.store.record .compile url
    match Manifest.compile url source cells with
    | .error e => ({ host with store }, .error e)
    | .ok (cells, m) =>
      let (store, id) := { store with cells }.add (.manifest m)
      ({ host with store }, .ok id)

/-- The identifier behind the prefix in the path of a builtin URL. -/
def builtinId? (front : String) (path : String) : Option String :=
  if front.toList.isPrefixOf path.toList then
    match path.toList.drop front.toList.length with
    | [] => none
    | id => some (String.ofList id)
  else none

/-- Makes a bridge to the library that a builtin URL names. -/
def bridge (host : Host) (front : String) (url : Url) : Host × Except LoadError UnitId :=
  match builtinId? front url.path.text with
  | none => (host, .error (.unknownBuiltin url.path.text))
  | some id =>
    match host.registry.load? host.store.tables id with
    | none => (host, .error (.unknownBuiltin id))
    | some library =>
      let (cells, b) := Bridge.make url library.names (some [.fill library.table]) host.store.cells
      let (store, unit) := { host.store with cells }.add (.bridge b)
      ({ host with store }, .ok unit)

end Host

structure Loader extends ModuleMap where
  resolver : Resolver
  /-- The requests for a job that got one, oldest first. -/
  served : List (RequestId × JobId) := []
  /-- The text for an eval module yet to be made. -/
  evalSource : Option String := none
  components : Array Component := #[]
  calls : Array Call := #[]
  /-- A loader that is dropped makes no more jobs; those that are held go on with what they have. -/
  alive : Bool := true

namespace Loader

def ofSettings (settings : Settings) : Loader := { resolver := .ofSettings settings }

def changeJob (l : Loader) (id : JobId) (f : Job → Job) : Loader :=
  { l with jobs := l.jobs.modify id.index f }

def prepared? (l : Loader) (id : JobId) : Option (Except LoadError UnitId) :=
  (l.job? id).bind fun job => job.preparation.result?

def linked? (l : Loader) (id : JobId) : Option (Except LoadError (List JobId)) :=
  (l.job? id).bind fun job => job.linking.result?

def instantiated? (l : Loader) (id : JobId) : Option (Except LoadError Unit) :=
  (l.job? id).bind fun job => job.instantiation.result?

/-- The component of a job. -/
def component? (l : Loader) (id : JobId) : Option Component := do
  l.components[(← (← l.job? id).component).index]?

/-- The job whose instantiation took this one with it. -/
def root? (l : Loader) (id : JobId) : Option JobId := (l.component? id).map Component.root

end Loader

/-- A loader at work, with its host. -/
structure Machine where
  host : Host
  loader : Loader

namespace Machine

def changeJob (m : Machine) (id : JobId) (f : Job → Job) : Machine :=
  { m with loader := m.loader.changeJob id f }

/-- Makes the job for a URL. Libraries are bridged at once, and remote modules fail at once. -/
def makeJob (m : Machine) (target : Resolved) : Machine :=
  let job : Job :=
    { id := m.loader.nextId, url := target.url, format := target.format,
      evalSource := m.loader.evalSource }
  let (host, preparation) : Host × Preparation :=
    match target.format with
    | .js => (m.host, .idle)
    | .builtin =>
      let (host, result) := m.host.bridge m.loader.resolver.settings.builtinPrefix target.url
      (host, .done result)
    | .remote => (m.host, .done (.error (.unimplemented (.remoteModule target.url))))
  { host, loader := { m.loader with toModuleMap := m.loader.insert { job with preparation } } }

/-- Gives a request its job: the one for the URL, made now if there is none. -/
def serve (m : Machine) (request : RequestId) (target : Resolved) : Machine × JobId :=
  match m.loader.lookup target.url with
  | (map, some id) =>
    ({ m with loader := { m.loader with
        toModuleMap := map
        served := m.loader.served ++ [(request, id)] } }, id)
  | (map, none) =>
    let id := map.nextId
    let m := { m with loader := { m.loader with toModuleMap := map } }.makeJob target
    ({ m with loader := { m.loader with served := m.loader.served ++ [(request, id)] } }, id)

end Machine

end ModuleLoader
