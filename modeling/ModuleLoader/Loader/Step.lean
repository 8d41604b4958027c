import ModuleLoader.Loader.State
/-!
The steps of a loader. Each one is what can happen without waiting: a phase of a job that goes on, a
call that gets further, an answer of the file system. Which of the possible steps is taken next is
left open here.
-/
namespace ModuleLoader

/-- What can happen to a loader at work. -/
inductive Action
  | start (goal : Goal)
  /-- A text is supplied for the eval module. -/
  | supply (source : String)
  | acquire (probe : Probe)
  | answer (probe : Probe)
  | prepare (job : JobId)
  | read (job : JobId)
  | link (job : JobId)
  | wire (job : JobId) (index : Nat)
  | instantiate (job : JobId)
  | advance (call : CallId)
deriving DecidableEq

namespace Machine

/-! ## Requests -/

def ask (m : Machine) (specifier : String) (referrer : Option Url) : Machine × RequestId :=
  let (resolver, request) := m.loader.resolver.ask specifier referrer
  ({ m with loader := { m.loader with resolver } }, request)

def abandon (m : Machine) (request : RequestId) : Machine :=
  { m with loader := { m.loader with resolver := m.loader.resolver.abandon request } }

def withResolver (m : Machine) (resolver : Resolver) : Machine :=
  { m with loader := { m.loader with resolver } }

/-! ## Preparing -/

/-- Ends the preparation of a job. -/
def finishPreparation (m : Machine) (id : JobId) (url : Url) (source : Except LoadError String) :
    Machine :=
  let (host, result) := match source with
    | .ok text => m.host.compile url text
    | .error e => (m.host, .error e)
  { m with host }.changeJob id fun job => { job with preparation := .done result }

/-- Begins a preparation: a source that is at hand is compiled, a file is asked for. -/
def prepare? (m : Machine) (id : JobId) : Option Machine := do
  let job ← m.loader.job? id
  match job.preparation with
  | .idle =>
    match job.url.sourcePlace job.evalSource with
    | .here source => return m.finishPreparation id job.url source
    | .file path =>
      let host := { m.host with reads := m.host.reads ++ [path] }
      return { m with host }.changeJob id fun job => { job with preparation := .reading path }
  | _ => none

/-- The file system gives the source of a job, or says why not. -/
def read? (m : Machine) (id : JobId) : Option Machine := do
  let job ← m.loader.job? id
  match job.preparation with
  | .reading path =>
    return m.finishPreparation id job.url (sourceOfRead job.url path (m.host.files.read path))
  | _ => none

/-! ## Linking -/

def setLinking (m : Machine) (id : JobId) (linking : Linking) : Machine :=
  m.changeJob id fun job => { job with linking }

/-- Ends a link phase with an error. What its dependencies still wait for is not wanted any more. -/
def failLinking (m : Machine) (id : JobId) (dependencies : List Dependency) (e : LoadError) :
    Machine :=
  let m := dependencies.foldl
    (fun m dependency =>
      match dependency.wiring with
      | .resolving request => m.abandon request
      | _ => m)
    m
  m.setLinking id (.done (.error e))

/-- Begins a link phase when the unit is there, or ends it when all dependencies are wired. -/
def link? (m : Machine) (id : JobId) : Option Machine := do
  let job ← m.loader.job? id
  match job.linking with
  | .waiting =>
    match ← job.preparation.result? with
    | .error e => return m.setLinking id (.done (.error e))
    | .ok unit =>
      let (store, result) := m.host.store.beginLink unit
      let m := { m with host := { m.host with store } }
      match result with
      | .error e => return m.setLinking id (.done (.error e))
      | .ok specifiers =>
        return m.setLinking id (.wiring (specifiers.map fun specifier => { specifier }))
  | .wiring dependencies => do
    let jobs ← dependencies.mapM fun dependency => dependency.wiring.wired?
    return m.setLinking id (.done (.ok jobs))
  | .done _ => none

def setWiring (m : Machine) (id : JobId) (dependencies : List Dependency) (index : Nat)
    (wiring : Wiring) : Machine :=
  m.setLinking id (.wiring (dependencies.modify index fun d => { d with wiring }))

/-- Gets one dependency of a link phase further. -/
def wire? (m : Machine) (id : JobId) (index : Nat) : Option Machine := do
  let job ← m.loader.job? id
  match job.linking with
  | .wiring dependencies => do
    let dependency ← dependencies[index]?
    match dependency.wiring with
    | .unasked =>
      if m.loader.alive then
        let (m, request) := m.ask dependency.specifier (some job.url)
        return m.setWiring id dependencies index (.resolving request)
      else return m.failLinking id dependencies .loaderDropped
    | .resolving request =>
      match ← m.loader.resolver.outcome? request with
      | .error e => return m.failLinking id dependencies e
      | .ok target =>
        let (m, found) := m.serve request target
        return m.setWiring id dependencies index (.located found)
    | .located found =>
      match ← m.loader.prepared? found with
      | .error e => return m.failLinking id dependencies e
      | .ok other => do
        match ← m.loader.prepared? id with
        | .error _ => none
        | .ok unit =>
          let store := m.host.store.wire unit dependency.specifier other
          let m := { m with host := { m.host with store } }
          return m.setWiring id dependencies index (.wired found)
    | .wired _ => none
  | _ => none

/-! ## Instantiating -/

def setInstantiation (m : Machine) (id : JobId) (instantiation : Instantiation) : Machine :=
  m.changeJob id fun job => { job with instantiation }

/-- Lets a job join a component unless it belongs to one. -/
def join (component : ComponentId) (m : Machine) (id : JobId) : Machine :=
  m.changeJob id fun job => { job with component := some (job.component.getD component) }

/--
Instantiates the unit of a job for everything that the job reaches. The job joins the new component
in any case, the others only if all went well.
-/
def instantiateMembers (m : Machine) (id : JobId) (unit : UnitId) (members : List JobId) :
    Machine :=
  let component : ComponentId := ⟨m.loader.components.size⟩
  let (store, outcome) := m.host.store.instantiate unit
  let components := m.loader.components.push { root := id, members, outcome }
  let m : Machine :=
    { host := { m.host with store }, loader := { m.loader with components } }
  let joining := match outcome with
    | .ok () => id :: members
    | .error _ => [id]
  (joining.foldl (join component) m).setInstantiation id (.done outcome)

/-- Gets the instantiation of a job further. A job with a component takes over its outcome. -/
def instantiate? (m : Machine) (id : JobId) : Option Machine := do
  let job ← m.loader.job? id
  let outcome := (m.loader.component? id).map Component.outcome
  match job.instantiation with
  | .entering =>
    match outcome with
    | some outcome => return m.setInstantiation id (.done outcome)
    | none =>
      match ← job.preparation.result? with
      | .error e => return m.setInstantiation id (.done (.error e))
      | .ok _ =>
        if m.loader.alive then return m.setInstantiation id (.walking (.start id))
        else return m.setInstantiation id (.done (.error .loaderDropped))
  | .walking walk =>
    match walk.stack with
    | [] =>
      match outcome, job.preparation with
      | some outcome, _ => return m.setInstantiation id (.done outcome)
      | none, .done (.ok unit) => return m.instantiateMembers id unit walk.members
      | none, _ => none
    | next :: rest =>
      if walk.members.elem next then
        return m.setInstantiation id (.walking { walk with stack := rest })
      else
        match ← m.loader.linked? next with
        | .error e => return m.setInstantiation id (.done (.error e))
        | .ok dependencies =>
          return m.setInstantiation id (.walking (walk.visit next rest dependencies))
  | _ => none

/-! ## Calls -/

def setCall (m : Machine) (id : CallId) (call : Call) : Machine :=
  { m with loader := { m.loader with calls := m.loader.calls.setIfInBounds id.index call } }

def pushCall (m : Machine) (call : Call) : Machine :=
  { m with loader := { m.loader with calls := m.loader.calls.push call } }

/-- Makes the eval module and asks for its completion, unless there is an eval module already. -/
def startEval (m : Machine) (source : String) : Machine :=
  match m.loader.find? Url.evalModule with
  | some _ => m.pushCall (.answered (.error .evalAlreadyLoaded))
  | none =>
    let m := { m with loader := { m.loader with evalSource := some source } }
    let (m, request) := m.ask m.loader.resolver.settings.evalSpecifier none
    match m.loader.resolver.outcome? request with
    | some (.ok target) =>
      let (m, id) := m.serve request target
      m.pushCall (.serving id .completion)
    | _ => m.pushCall (.locating request .completion)

/-- Starts a call. -/
def start (m : Machine) : Goal → Machine
  | .resolve specifier referrer =>
    let (m, request) := m.ask specifier referrer
    m.pushCall (.resolving request)
  | .find specifier referrer wish =>
    let (m, request) := m.ask specifier referrer
    m.pushCall (.locating request wish)
  | .eval source => m.startEval source
  | .ask job wish => m.pushCall (.serving job wish)

/-- The exports of a job's unit. -/
def namespaceOf (m : Machine) (unit : UnitId) : Except LoadError Namespace :=
  match m.host.store.unit? unit with
  | some unit => unit.namespace?
  | none => .ok {}

/-- Evaluates the unit of a job that is instantiated. -/
def evaluateJob (m : Machine) (id : JobId) : Machine × Except LoadError (Option Value) :=
  match m.loader.prepared? id with
  | some (.ok unit) =>
    let (store, result) := m.host.store.evaluate unit
    ({ m with host := { m.host with store } }, result)
  | some (.error e) => (m, .error e)
  | none => (m, .ok none)

/-- The answer of a job to a wish that needs no instantiation, once the job has it. -/
def answer? (m : Machine) (id : JobId) : Wish → Option (Except LoadError Answer)
  | .job => some (.ok (.job id))
  | .unit => (m.loader.prepared? id).map (·.map .unit)
  | .linked => (m.loader.linked? id).map (·.map .jobs)
  | .dependencies => (m.loader.linked? id).map fun
    | .error e => .error e
    | .ok jobs => if m.loader.alive then .ok (.jobs jobs) else .error .loaderDropped
  | .namespace => (m.loader.prepared? id).map fun
    | .error e => .error e
    | .ok unit => (m.namespaceOf unit).map .namespace
  | _ => none

/-- The namespace of a job that has run, as the answer to an import. -/
def importedNamespace (m : Machine) (id : JobId) : Except LoadError Answer :=
  ((m.answer? id .namespace).getD (.ok (.namespace {})))

/-- Serves a wish that needs the job instantiated, with the machine behind it. -/
def serveInstantiated (m : Machine) (id : JobId) (wish : Wish) :
    Machine × Except LoadError Answer :=
  match wish with
  | .instantiated => (m, .ok .instantiated)
  | _ =>
    let (m, result) := m.evaluateJob id
    match result with
    | .error e => (m, .error e)
    | .ok completion =>
      if wish = .imported then (m, m.importedNamespace id) else (m, .ok (.completion completion))

def needsInstantiation (wish : Wish) : Bool :=
  wish = .instantiated || wish = .completion || wish = .imported

/-- Gets a call further. -/
def advance? (m : Machine) (id : CallId) : Option Machine := do
  match ← m.loader.calls[id.index]? with
  | .resolving request =>
    let result ← m.loader.resolver.outcome? request
    return m.setCall id (.answered (result.map .resolved))
  | .locating request wish =>
    match ← m.loader.resolver.outcome? request with
    | .error e => return m.setCall id (.answered (.error e))
    | .ok target =>
      let (m, job) := m.serve request target
      return m.setCall id (.serving job wish)
  | .serving jobId wish =>
    if needsInstantiation wish then do
      let job ← m.loader.job? jobId
      match job.instantiation with
      | .unasked => return m.setInstantiation jobId .entering
      | .done (.error e) => return m.setCall id (.answered (.error e))
      | .done (.ok ()) =>
        let (m, answer) := m.serveInstantiated jobId wish
        return m.setCall id (.answered answer)
      | _ => none
    else return m.setCall id (.answered (← m.answer? jobId wish))
  | .answered _ => none

/-! ## All steps -/

/-- The machine after an action, if it can happen now. -/
def step? (m : Machine) : Action → Option Machine
  | .start goal => some (m.start goal)
  | .supply source => some { m with loader := { m.loader with evalSource := some source } }
  | .acquire probe => (m.loader.resolver.acquire? probe).map m.withResolver
  | .answer probe => (m.loader.resolver.answer? m.host.files probe).map m.withResolver
  | .prepare job => m.prepare? job
  | .read job => m.read? job
  | .link job => m.link? job
  | .wire job index => m.wire? job index
  | .instantiate job => m.instantiate? job
  | .advance call => m.advance? call

end Machine

end ModuleLoader
