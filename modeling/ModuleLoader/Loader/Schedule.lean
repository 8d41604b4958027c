import ModuleLoader.Loader.Step
/-!
One order of steps. A call is followed as deep as it can go: to the phase of the job that it waits
for, to what that phase waits for, and so on, and only when it waits for the file system is other
work done. Link phases that no call waits for go on by themselves, in the order of their jobs.
-/
namespace ModuleLoader.Machine

/-! ## What is waited for -/

/-- The step of a preparation. -/
def preparationStep? (m : Machine) (id : JobId) : Option Action := do
  match (← m.loader.job? id).preparation with
  | .idle => some (.prepare id)
  | _ => none

/-- The step of a request that has no outcome yet. -/
def requestStep? (m : Machine) (request : RequestId) : Option Action :=
  (m.loader.resolver.unasked? request).map .acquire

/-- The step of one dependency of a link phase. -/
def wiringStep? (m : Machine) (id : JobId) (index : Nat) (dependency : Dependency) :
    Option Action :=
  match dependency.wiring with
  | .unasked => some (.wire id index)
  | .resolving request =>
    match m.loader.resolver.outcome? request with
    | some _ => some (.wire id index)
    | none => m.requestStep? request
  | .located found =>
    match m.loader.prepared? found with
    | some _ => some (.wire id index)
    | none => m.preparationStep? found
  | .wired _ => none

/-- The first step of a dependency that has one, in the order of the dependencies. -/
def firstWiringStep? (m : Machine) (id : JobId) (index : Nat) : List Dependency → Option Action
  | [] => none
  | dependency :: rest =>
    (m.wiringStep? id index dependency).or (m.firstWiringStep? id (index + 1) rest)

/-- The step of a link phase. -/
def linkStep? (m : Machine) (id : JobId) : Option Action := do
  let job ← m.loader.job? id
  match job.linking with
  | .waiting =>
    match job.preparation.result? with
    | some _ => some (.link id)
    | none => m.preparationStep? id
  | .wiring dependencies =>
    if dependencies.all fun d => d.wiring.wired?.isSome then some (.link id)
    else m.firstWiringStep? id 0 dependencies
  | .done _ => none

/-- The step of an instantiation that has begun. -/
def instantiationStep? (m : Machine) (id : JobId) : Option Action := do
  let job ← m.loader.job? id
  match job.instantiation with
  | .entering =>
    match m.loader.component? id, job.preparation.result? with
    | none, none => m.preparationStep? id
    | _, _ => some (.instantiate id)
  | .walking walk =>
    match walk.stack with
    | [] => some (.instantiate id)
    | next :: _ =>
      if walk.members.elem next || (m.loader.linked? next).isSome then some (.instantiate id)
      else m.linkStep? next
  | _ => none

/-- The step of a call that is served by a job. -/
def servingStep? (m : Machine) (call : CallId) (jobId : JobId) (wish : Wish) : Option Action :=
  match wish with
  | .job => some (.advance call)
  | .unit | .namespace =>
    match m.loader.prepared? jobId with
    | some _ => some (.advance call)
    | none => m.preparationStep? jobId
  | .linked | .dependencies =>
    match m.loader.linked? jobId with
    | some _ => some (.advance call)
    | none => m.linkStep? jobId
  | .instantiated | .completion | .imported => do
    match (← m.loader.job? jobId).instantiation with
    | .unasked | .done _ => some (.advance call)
    | _ => m.instantiationStep? jobId

/-- The step of a call. -/
def callStep? (m : Machine) (call : CallId) : Option Action := do
  match ← m.loader.calls[call.index]? with
  | .resolving request | .locating request _ =>
    match m.loader.resolver.outcome? request with
    | some _ => some (.advance call)
    | none => m.requestStep? request
  | .serving job wish => m.servingStep? call job wish
  | .answered _ => none

/-! ## What goes on by itself -/

/-- The step of the first link phase that has one. -/
def backgroundStep? (m : Machine) : Option Action :=
  (List.range m.loader.jobs.size).findSome? fun i => m.linkStep? ⟨i⟩

/-- An answer of the file system: questions come first, then sources. -/
def fileStep? (m : Machine) : Option Action :=
  match m.loader.resolver.outstanding with
  | probe :: _ => some (.answer probe)
  | [] =>
    (List.range m.loader.jobs.size).findSome? fun i =>
      match (m.loader.job? ⟨i⟩).map Job.preparation with
      | some (.reading _) => some (.read ⟨i⟩)
      | _ => none

/-- The answer to a call, once there is one. -/
def answerOf? (m : Machine) (call : CallId) : Option (Except LoadError Answer) :=
  (m.loader.calls[call.index]?).bind Call.answer?

end ModuleLoader.Machine
