import ModuleLoader.Loader.Schedule
import ModuleLoader.Proofs.Requests
import ModuleLoader.Proofs.Rules
/-!
# Runs of a loader, and what they keep

A run is a list of events from a fresh loader on: steps of the loader in any order, and whatever
happens in its host in between. A step that is not possible changes nothing, so every list of
events is a run.

Results:
1. `Rule.later`: a step keeps every job with its URL and format, every result of a phase, every
   component that a job joined, every component that was made and every request that was served.
2. `acts_induction`, `after_induction`: what a fresh loader satisfies and every rule preserves
   holds after every run.
3. `later_after`: a run keeps what a step keeps.
-/
namespace ModuleLoader

/-! ## Jobs under changes -/

namespace Loader

theorem job?_changeJob (l : Loader) (id i : JobId) (f : Job → Job) :
    (l.changeJob id f).job? i = if id = i then (l.job? i).map f else l.job? i := by
  unfold ModuleMap.job? changeJob
  rw [Array.getElem?_modify]
  obtain ⟨id⟩ := id
  obtain ⟨i⟩ := i
  simp only [JobId.mk.injEq]

theorem job?_changeJob_self {l : Loader} {id : JobId} {job : Job} (f : Job → Job)
    (h : l.job? id = some job) : (l.changeJob id f).job? id = some (f job) := by
  rw [job?_changeJob, if_pos rfl, h]
  rfl

theorem job?_lt {l : Loader} {id : JobId} {job : Job} (h : l.job? id = some job) :
    id.index < l.jobs.size :=
  (Array.getElem?_eq_some_iff.mp h).1

/-- A job of a loader to which one job is added at the end. -/
theorem job?_push (l : Loader) (jobs : Array Job) (job : Job) (h : l.jobs = jobs.push job)
    (i : JobId) : l.job? i = if i.index = jobs.size then some job else jobs[i.index]? := by
  unfold ModuleMap.job?
  rw [h, Array.getElem?_push]

end Loader

/-! ## Later states -/

/-- `job.Later job'`: what holds for good in one state of a job holds in a later one. -/
structure Job.Later (job job' : Job) : Prop where
  id : job'.id = job.id
  url : job'.url = job.url
  format : job'.format = job.format
  preparation : ∀ result, job.preparation = .done result → job'.preparation = .done result
  linking : ∀ result, job.linking = .done result → job'.linking = .done result
  instantiation : ∀ result, job.instantiation = .done result → job'.instantiation = .done result
  component : ∀ c, job.component = some c → job'.component = some c

/-- `l.Later l'`: what holds for good in one state of a loader holds in a later one. -/
structure Loader.Later (l l' : Loader) : Prop where
  resolver : l.resolver.Extends l'.resolver
  job : ∀ {id job}, l.job? id = some job → ∃ job', l'.job? id = some job' ∧ job.Later job'
  component : ∀ {i : Nat} {c : Component}, l.components[i]? = some c → l'.components[i]? = some c
  served : l.served <+: l'.served
  alive : l'.alive = l.alive

namespace Job

theorem Later.refl (job : Job) : job.Later job :=
  ⟨rfl, rfl, rfl, fun _ h => h, fun _ h => h, fun _ h => h, fun _ h => h⟩

theorem Later.trans {a b c : Job} (h : a.Later b) (h' : b.Later c) : a.Later c where
  id := h'.id.trans h.id
  url := h'.url.trans h.url
  format := h'.format.trans h.format
  preparation r hr := h'.preparation r (h.preparation r hr)
  linking r hr := h'.linking r (h.linking r hr)
  instantiation r hr := h'.instantiation r (h.instantiation r hr)
  component c hc := h'.component c (h.component c hc)

theorem later_preparation {job : Job} (p : Preparation)
    (h : ∀ result, job.preparation ≠ .done result) :
    job.Later { job with preparation := p } :=
  { Later.refl job with preparation := fun r hr => absurd hr (h r) }

theorem later_linking {job : Job} (p : Linking) (h : ∀ result, job.linking ≠ .done result) :
    job.Later { job with linking := p } :=
  { Later.refl job with linking := fun r hr => absurd hr (h r) }

theorem later_instantiation {job : Job} (p : Instantiation)
    (h : ∀ result, job.instantiation ≠ .done result) :
    job.Later { job with instantiation := p } :=
  { Later.refl job with instantiation := fun r hr => absurd hr (h r) }

end Job

namespace Loader

theorem Later.refl (l : Loader) : l.Later l :=
  ⟨.refl _, fun {_ job} h => ⟨job, h, .refl job⟩, fun h => h, List.prefix_refl _, rfl⟩

theorem Later.trans {a b c : Loader} (h : a.Later b) (h' : b.Later c) : a.Later c where
  resolver := h.resolver.trans h'.resolver
  job hjob := by
    obtain ⟨job', hjob', hlater⟩ := h.job hjob
    obtain ⟨job'', hjob'', hlater'⟩ := h'.job hjob'
    exact ⟨job'', hjob'', hlater.trans hlater'⟩
  component hc := h'.component (h.component hc)
  served := h.served.trans h'.served
  alive := h'.alive.trans h.alive

theorem later_changeJob {l : Loader} {id : JobId} {job : Job} {f : Job → Job}
    (hjob : l.job? id = some job) (h : job.Later (f job)) : l.Later (l.changeJob id f) where
  resolver := .refl _
  job {i old} hold := by
    rw [job?_changeJob]
    split
    next hi =>
      subst hi
      cases hjob.symm.trans hold
      exact ⟨f job, by rw [hjob]; rfl, h⟩
    next => exact ⟨old, hold, .refl old⟩
  component hc := hc
  served := List.prefix_refl _
  alive := rfl

/-- A loader with the same jobs whose other parts only grew. -/
theorem later_of_jobs_eq {l l' : Loader} (jobs : l'.jobs = l.jobs)
    (resolver : l.resolver.Extends l'.resolver) (components : l'.components = l.components)
    (served : l.served <+: l'.served) (alive : l'.alive = l.alive) : l.Later l' where
  resolver := resolver
  job {id job} hjob := ⟨job, by unfold ModuleMap.job? at hjob ⊢; rw [jobs]; exact hjob, .refl job⟩
  component hc := by rw [components]; exact hc
  served := served
  alive := alive

/-- A loader with one more job, and otherwise the same but for what was served. -/
theorem later_of_push {l l' : Loader} (job : Job) (jobs : l'.jobs = l.jobs.push job)
    (resolver : l'.resolver = l.resolver) (components : l'.components = l.components)
    (served : l.served <+: l'.served) (alive : l'.alive = l.alive) : l.Later l' where
  resolver := by rw [resolver]; exact .refl _
  job {i old} hold := by
    refine ⟨old, ?_, .refl old⟩
    rw [job?_push l' l.jobs job jobs, if_neg (Nat.ne_of_lt (job?_lt hold))]
    exact hold
  component hc := by rw [components]; exact hc
  served := served
  alive := alive

theorem Later.prepared {l l' : Loader} (h : l.Later l') {id : JobId}
    {result : Except LoadError UnitId} (hr : l.prepared? id = some result) :
    l'.prepared? id = some result := by
  obtain ⟨job, hjob, hres⟩ := Option.bind_eq_some_iff.mp hr
  obtain ⟨job', hjob', hlater⟩ := h.job hjob
  refine Option.bind_eq_some_iff.mpr ⟨job', hjob', ?_⟩
  rw [hlater.preparation result (Machine.preparation_done hres)]
  rfl

theorem linking_done {p : Linking} {result : Except LoadError (List JobId)}
    (h : p.result? = some result) : p = .done result := by
  cases p with
  | done _ => exact congrArg _ (Option.some.inj h)
  | waiting => cases h
  | wiring _ => cases h

theorem instantiation_done {p : Instantiation} {result : Except LoadError Unit}
    (h : p.result? = some result) : p = .done result := by
  cases p with
  | done _ => exact congrArg _ (Option.some.inj h)
  | unasked => cases h
  | entering => cases h
  | walking _ => cases h

theorem linked?_eq_some {l : Loader} {id : JobId} {result : Except LoadError (List JobId)} :
    l.linked? id = some result ↔ ∃ job, l.job? id = some job ∧ job.linking = .done result := by
  unfold linked?
  rw [Option.bind_eq_some_iff]
  constructor
  · rintro ⟨job, hjob, h⟩
    exact ⟨job, hjob, linking_done h⟩
  · rintro ⟨job, hjob, h⟩
    exact ⟨job, hjob, by rw [h]; rfl⟩

theorem prepared?_eq_some {l : Loader} {id : JobId} {result : Except LoadError UnitId} :
    l.prepared? id = some result ↔
      ∃ job, l.job? id = some job ∧ job.preparation = .done result := by
  unfold prepared?
  rw [Option.bind_eq_some_iff]
  constructor
  · rintro ⟨job, hjob, h⟩
    exact ⟨job, hjob, Machine.preparation_done h⟩
  · rintro ⟨job, hjob, h⟩
    exact ⟨job, hjob, by rw [h]; rfl⟩

theorem instantiated?_eq_some {l : Loader} {id : JobId} {result : Except LoadError Unit} :
    l.instantiated? id = some result ↔
      ∃ job, l.job? id = some job ∧ job.instantiation = .done result := by
  unfold instantiated?
  rw [Option.bind_eq_some_iff]
  constructor
  · rintro ⟨job, hjob, h⟩
    exact ⟨job, hjob, instantiation_done h⟩
  · rintro ⟨job, hjob, h⟩
    exact ⟨job, hjob, by rw [h]; rfl⟩

theorem Later.linked {l l' : Loader} (h : l.Later l') {id : JobId}
    {result : Except LoadError (List JobId)} (hr : l.linked? id = some result) :
    l'.linked? id = some result := by
  obtain ⟨job, hjob, hdone⟩ := linked?_eq_some.mp hr
  obtain ⟨job', hjob', hlater⟩ := h.job hjob
  exact linked?_eq_some.mpr ⟨job', hjob', hlater.linking result hdone⟩

end Loader

/-! ## What a step keeps -/

/-- Two hosts with the same files, libraries and compiler. -/
structure Host.SameSetup (h h' : Host) : Prop where
  files : h'.files = h.files
  registry : h'.registry = h.registry
  compiler : h'.compiler = h.compiler

/-- What a step does to the resolver, with the requests that it makes. -/
inductive Resolver.Step (files : Files) (r : Resolver) :
    List (String × Option Url) → Resolver → Prop
  | none : r.Step files [] r
  | ask (specifier : String) (referrer : Option Url) :
      r.Step files [(specifier, referrer)] (r.ask specifier referrer).1
  | acquire {probe : Probe} {r' : Resolver} : r.acquire? probe = some r' → r.Step files [] r'
  | answer {probe : Probe} {r' : Resolver} : r.answer? files probe = some r' → r.Step files [] r'
  | abandonAll (dependencies : List Dependency) : r.Step files [] (r.abandonAll dependencies)

namespace Resolver

/-- What abandoning one request preserves, abandoning those of a link phase does. -/
theorem abandonAll_induction {P : Resolver → Prop} (abandon : ∀ {r} id, P r → P (r.abandon id))
    {r : Resolver} (h : P r) (dependencies : List Dependency) : P (r.abandonAll dependencies) := by
  unfold abandonAll
  induction dependencies generalizing r with
  | nil => exact h
  | cons dependency rest ih =>
    rw [List.foldl_cons]
    cases dependency.wiring with
    | resolving request => exact ih (abandon request h)
    | unasked => exact ih h
    | located _ => exact ih h
    | wired _ => exact ih h

theorem sound_abandonAll {r : Resolver} (hr : r.Sound) (dependencies : List Dependency) :
    (r.abandonAll dependencies).Sound :=
  abandonAll_induction (P := Sound) (fun id h => sound_abandon h id) hr dependencies

theorem extends_abandonAll (r : Resolver) (dependencies : List Dependency) :
    r.Extends (r.abandonAll dependencies) :=
  abandonAll_induction (P := r.Extends) (fun id h => h.trans (extends_abandon _ id)) (.refl r)
    dependencies

variable {files : Files} {asked : List (String × Option Url)}

theorem Step.sound {r r' : Resolver} (h : r.Step files asked r') (hr : r.Sound) : r'.Sound := by
  cases h with
  | none => exact hr
  | ask specifier referrer => exact sound_ask hr specifier referrer
  | acquire h => exact sound_acquire hr h
  | answer h => exact sound_answer hr h
  | abandonAll dependencies => exact sound_abandonAll hr dependencies

theorem Step.extends {r r' : Resolver} (h : r.Step files asked r') (hr : r.Sound) :
    r.Extends r' := by
  cases h with
  | none => exact .refl r
  | ask specifier referrer => exact extends_ask r specifier referrer
  | acquire h => exact extends_acquire h
  | answer h => exact extends_answer hr h
  | abandonAll dependencies => exact extends_abandonAll r dependencies

end Resolver

namespace Machine

variable {m m' : Machine} {action : Action}

/-! ### Serving a request -/

/-- Serving a request adds to the jobs and the counters, and to nothing else of the loader. -/
theorem loader_serve (m : Machine) (request : RequestId) (target : Resolved) :
    ∃ map served, (m.serve request target).1.loader =
      { m.loader with toModuleMap := map, served } := by
  cases hfind : m.loader.find? target.url with
  | some id => rw [serve_hit request hfind]; exact ⟨_, _, rfl⟩
  | none =>
    obtain ⟨host, preparation, hmake⟩ := m.exists_makeJob target
    rw [serve_miss request hfind, hmake]
    exact ⟨_, _, rfl⟩

theorem resolver_serve (m : Machine) (request : RequestId) (target : Resolved) :
    (m.serve request target).1.loader.resolver = m.loader.resolver := by
  obtain ⟨map, served, h⟩ := m.loader_serve request target
  rw [h]

theorem calls_serve (m : Machine) (request : RequestId) (target : Resolved) :
    (m.serve request target).1.loader.calls = m.loader.calls := by
  obtain ⟨map, served, h⟩ := m.loader_serve request target
  rw [h]

theorem components_serve (m : Machine) (request : RequestId) (target : Resolved) :
    (m.serve request target).1.loader.components = m.loader.components := by
  obtain ⟨map, served, h⟩ := m.loader_serve request target
  rw [h]

theorem later_serve (m : Machine) (request : RequestId) (target : Resolved) :
    m.loader.Later (m.serve request target).1.loader := by
  cases hfind : m.loader.find? target.url with
  | some id =>
    rw [serve_hit request hfind]
    exact Loader.later_of_jobs_eq rfl (.refl _) rfl (List.prefix_append _ _) rfl
  | none =>
    obtain ⟨host, preparation, hmake⟩ := m.exists_makeJob target
    rw [serve_miss request hfind, hmake]
    exact Loader.later_of_push (m.newJob target preparation) rfl rfl rfl
      (List.prefix_append _ _) rfl

/-- The jobs that are there already stay as they are when a request is served. -/
theorem job?_serve {id : JobId} {job : Job} (request : RequestId) (target : Resolved)
    (h : m.loader.job? id = some job) :
    (m.serve request target).1.loader.job? id = some job := by
  cases hfind : m.loader.find? target.url with
  | some other => rw [serve_hit request hfind]; exact h
  | none =>
    obtain ⟨host, preparation, hmake⟩ := m.exists_makeJob target
    rw [serve_miss request hfind, hmake]
    show ModuleMap.job? _ id = _
    rw [Loader.job?_push _ m.loader.jobs (m.newJob target preparation) rfl,
      if_neg (Nat.ne_of_lt (Loader.job?_lt h))]
    exact h

/-- A job that comes with a request being served is one that was there or a new one. -/
theorem job?_of_serve {request : RequestId} {target : Resolved} {i : JobId} {job : Job}
    (h : (m.serve request target).1.loader.job? i = some job) :
    m.loader.job? i = some job ∨
      m.loader.find? target.url = none ∧ i = ⟨m.loader.jobs.size⟩ ∧
        ∃ preparation, job = m.newJob target preparation := by
  cases hfind : m.loader.find? target.url with
  | some other =>
    rw [serve_hit request hfind] at h
    exact .inl h
  | none =>
    obtain ⟨host, preparation, hmake⟩ := m.exists_makeJob target
    rw [serve_miss request hfind, hmake] at h
    rw [Loader.job?_push _ m.loader.jobs (m.newJob target preparation) rfl] at h
    split at h
    next hi =>
      obtain ⟨i⟩ := i
      cases hi
      cases h
      exact .inr ⟨rfl, rfl, preparation, rfl⟩
    next => exact .inl h

/-! ### Joining a component -/

theorem job?_join (c : ComponentId) (m : Machine) (id i : JobId) :
    (join c m id).loader.job? i =
      if id = i then
        (m.loader.job? i).map fun job => { job with component := some (job.component.getD c) }
      else m.loader.job? i :=
  Loader.job?_changeJob m.loader id i _

/-- Joining twice is joining once. -/
theorem job?_joinAll (c : ComponentId) (m : Machine) (ids : List JobId) (i : JobId) :
    (ids.foldl (join c) m).loader.job? i =
      if i ∈ ids then
        (m.loader.job? i).map fun job => { job with component := some (job.component.getD c) }
      else m.loader.job? i := by
  induction ids generalizing m with
  | nil => rw [if_neg List.not_mem_nil]; rfl
  | cons id rest ih =>
    rw [List.foldl_cons, ih, job?_join]
    by_cases hid : id = i
    · subst hid
      rw [if_pos rfl, if_pos List.mem_cons_self]
      split
      next =>
        rw [Option.map_map]
        rfl
      next => rfl
    · have hne : i ≠ id := fun h => hid h.symm
      simp only [if_neg hid, List.mem_cons, hne, false_or]

/-- What joining a component leaves alone. -/
theorem joinAll_eq (c : ComponentId) (m : Machine) (ids : List JobId) :
    ∃ jobs, ids.foldl (join c) m = { m with loader := { m.loader with jobs } } := by
  induction ids generalizing m with
  | nil => exact ⟨_, rfl⟩
  | cons id rest ih =>
    obtain ⟨jobs, hjobs⟩ := ih (join c m id)
    exact ⟨jobs, hjobs⟩

/-- The jobs that join the component of an instantiation. -/
def joining (id : JobId) (members : List JobId) : Except LoadError Unit → List JobId
  | .ok () => id :: members
  | .error _ => [id]

theorem instantiateMembers_eq (m : Machine) (id : JobId) (unit : UnitId) (members : List JobId) :
    m.instantiateMembers id unit members =
      ((joining id members (m.host.store.instantiate unit).2).foldl
        (join ⟨m.loader.components.size⟩)
        { host := { m.host with store := (m.host.store.instantiate unit).1 },
          loader := { m.loader with
            components := m.loader.components.push
              ⟨id, members, (m.host.store.instantiate unit).2⟩ } }).setInstantiation id
        (.done (m.host.store.instantiate unit).2) := by
  unfold instantiateMembers
  generalize m.host.store.instantiate unit = result
  obtain ⟨store, outcome⟩ := result
  cases outcome <;> rfl

/-- What happens to one job when a component is instantiated. -/
theorem job?_instantiateMembers (m : Machine) (id : JobId) (unit : UnitId)
    (members : List JobId) (i : JobId) :
    (m.instantiateMembers id unit members).loader.job? i =
      (m.loader.job? i).map fun job =>
        { job with
          component :=
            if i ∈ joining id members (m.host.store.instantiate unit).2 then
              some (job.component.getD ⟨m.loader.components.size⟩)
            else job.component
          instantiation :=
            if id = i then .done (m.host.store.instantiate unit).2 else job.instantiation } := by
  rw [instantiateMembers_eq]
  show (Loader.changeJob _ _ _).job? _ = _
  rw [Loader.job?_changeJob, job?_joinAll]
  show (if id = i then
      Option.map _ (if i ∈ joining id members (m.host.store.instantiate unit).2 then
        Option.map _ (m.loader.job? i) else m.loader.job? i)
    else if i ∈ joining id members (m.host.store.instantiate unit).2 then
      Option.map _ (m.loader.job? i) else m.loader.job? i) = _
  generalize (m.host.store.instantiate unit).2 = outcome
  cases m.loader.job? i with
  | none => simp only [Option.map_none, ite_self]
  | some job =>
    by_cases hid : id = i
    · subst hid
      by_cases hin : id ∈ joining id members outcome
      · simp only [hin, if_true, Option.map_some]
      · simp only [hin, if_true, if_false, Option.map_some]
    · by_cases hin : i ∈ joining id members outcome
      · simp only [hid, hin, if_true, if_false, Option.map_some]
      · simp only [hid, hin, if_false, Option.map_some]

/-- An instantiation adds one component and changes jobs, and nothing else of the loader. -/
theorem loader_instantiateMembers (m : Machine) (id : JobId) (unit : UnitId)
    (members : List JobId) :
    ∃ jobs, (m.instantiateMembers id unit members).loader =
      { m.loader with
        jobs
        components := m.loader.components.push
          ⟨id, members, (m.host.store.instantiate unit).2⟩ } := by
  rw [instantiateMembers_eq]
  generalize m.host.store.instantiate unit = result
  obtain ⟨jobs, hjobs⟩ := joinAll_eq ⟨m.loader.components.size⟩
    { host := { m.host with store := result.1 },
      loader := { m.loader with
        components := m.loader.components.push ⟨id, members, result.2⟩ } }
    (joining id members result.2)
  rw [hjobs]
  exact ⟨_, rfl⟩

theorem later_instantiateMembers {m : Machine} {id : JobId} {job : Job} (unit : UnitId)
    (members : List JobId) (hjob : m.loader.job? id = some job)
    (hopen : ∀ result, job.instantiation ≠ .done result) :
    m.loader.Later (m.instantiateMembers id unit members).loader := by
  have hjobs := fun i => job?_instantiateMembers m id unit members i
  obtain ⟨jobs, hloader⟩ := loader_instantiateMembers m id unit members
  rw [hloader] at hjobs ⊢
  refine ⟨.refl _, fun {i old} hold => ?_, fun {i c} hc => ?_, List.prefix_refl _, rfl⟩
  · rw [hjobs, hold]
    refine ⟨_, rfl, rfl, rfl, rfl, fun _ h => h, fun _ h => h, fun result h => ?_, fun c hc => ?_⟩
    · dsimp only
      split
      next hid =>
        subst hid
        rw [hjob] at hold
        cases hold
        exact absurd h (hopen result)
      next => exact h
    · dsimp only
      split
      next => rw [hc]; rfl
      next => exact hc
  · show (Array.push _ _)[i]? = _
    rw [Array.getElem?_push, if_neg (Nat.ne_of_lt (Array.getElem?_eq_some_iff.mp hc).1)]
    exact hc

/-! ### All rules -/

theorem loader_evaluateJob (m : Machine) (id : JobId) :
    (m.evaluateJob id).1.loader = m.loader := by
  unfold evaluateJob
  split <;> rfl

/-- Running a module changes the host only. -/
theorem loader_serveInstantiated (m : Machine) (id : JobId) (wish : Wish) :
    (m.serveInstantiated id wish).1.loader = m.loader := by
  have hevaluate := loader_evaluateJob m id
  unfold serveInstantiated
  split
  next => rfl
  next =>
    dsimp only
    split
    next => exact hevaluate
    next =>
      split
      next => exact hevaluate
      next => exact hevaluate

/-- The requests that a step makes: none or one. -/
def asks (m : Machine) : Action → List (String × Option Url)
  | .start (.resolve specifier referrer) => [(specifier, referrer)]
  | .start (.find specifier referrer _) => [(specifier, referrer)]
  | .start (.eval _) =>
    match m.loader.find? Url.evalModule with
    | some _ => []
    | none => [(m.loader.resolver.settings.evalSpecifier, none)]
  | .wire id index =>
    match m.loader.job? id with
    | none => []
    | some job =>
      match job.linking with
      | .wiring dependencies =>
        match dependencies[index]? with
        | none => []
        | some dependency =>
          if dependency.wiring = .unasked ∧ m.loader.alive then
            [(dependency.specifier, some job.url)]
          else []
      | _ => []
  | _ => []

theorem asks_wire {id : JobId} {index : Nat} {job : Job} {dependencies : List Dependency}
    {dependency : Dependency} (hjob : m.loader.job? id = some job)
    (hwiring : job.linking = .wiring dependencies) (hdep : dependencies[index]? = some dependency) :
    m.asks (.wire id index) =
      if dependency.wiring = .unasked ∧ m.loader.alive then
        [(dependency.specifier, some job.url)]
      else [] := by
  unfold asks
  simp only [hjob, hwiring, hdep]

theorem resolver_startEval (m : Machine) (source : String) :
    m.loader.resolver.Step m.host.files (m.asks (.start (.eval source)))
      (m.startEval source).loader.resolver := by
  unfold asks
  cases hfind : m.loader.find? Url.evalModule with
  | some id => rw [startEval_loaded source hfind]; exact .none
  | none =>
    rw [(startEval_fresh source hfind).2]
    show Resolver.Step _ _ _ (serve _ _ _).1.loader.resolver
    rw [resolver_serve]
    exact .ask _ _

theorem Rule.resolver (h : Rule m action m') :
    m.loader.resolver.Step m.host.files (m.asks action) m'.loader.resolver := by
  cases h with
  | startResolve specifier referrer => exact .ask specifier referrer
  | startFind specifier referrer wish => exact .ask specifier referrer
  | startEval source => exact resolver_startEval m source
  | acquire h => exact .acquire h
  | answer h => exact .answer h
  | wireAsked hjob hwiring hdep hunasked halive =>
    rw [asks_wire hjob hwiring hdep, if_pos ⟨hunasked, halive⟩]
    exact .ask _ _
  | wireDropped hjob hwiring hdep hunasked hdropped =>
    rw [asks_wire hjob hwiring hdep, if_neg fun h => by simp [hdropped] at h, failLinking_eq]
    exact .abandonAll _
  | wireUnresolved hjob hwiring hdep hother | wireUnprepared hjob hwiring hdep hother =>
    rw [asks_wire hjob hwiring hdep, if_neg fun h => by simp [hother] at h, failLinking_eq]
    exact .abandonAll _
  | wireServed hjob hwiring hdep hresolving =>
    rw [asks_wire hjob hwiring hdep, if_neg fun h => by simp [hresolving] at h]
    show Resolver.Step _ _ _ (serve _ _ _).1.loader.resolver
    rw [resolver_serve]
    exact .none
  | wireEnded hjob hwiring hdep hlocated =>
    rw [asks_wire hjob hwiring hdep, if_neg fun h => by simp [hlocated] at h]
    exact .none
  | callServed =>
    show Resolver.Step _ _ _ (serve _ _ _).1.loader.resolver
    rw [resolver_serve]
    exact .none
  | walkEnded =>
    obtain ⟨jobs, hloader⟩ := loader_instantiateMembers m _ _ _
    rw [hloader]
    exact .none
  | callInstantiated =>
    show Resolver.Step _ _ _ (serveInstantiated _ _ _).1.loader.resolver
    rw [loader_serveInstantiated]
    exact .none
  | _ => exact .none

theorem later_setLinking {id : JobId} {job : Job} (p : Linking)
    (hjob : m.loader.job? id = some job) (h : ∀ result, job.linking ≠ .done result) :
    m.loader.Later (m.setLinking id p).loader :=
  Loader.later_changeJob hjob (Job.later_linking p h)

theorem later_setInstantiation {id : JobId} {job : Job} (p : Instantiation)
    (hjob : m.loader.job? id = some job) (h : ∀ result, job.instantiation ≠ .done result) :
    m.loader.Later (m.setInstantiation id p).loader :=
  Loader.later_changeJob hjob (Job.later_instantiation p h)

theorem later_setPreparation {id : JobId} {job : Job} {p : Preparation}
    (hjob : m.loader.job? id = some job) (h : ∀ result, job.preparation ≠ .done result) :
    m.loader.Later (m.loader.changeJob id fun job => { job with preparation := p }) :=
  Loader.later_changeJob hjob (Job.later_preparation p h)

theorem later_withResolver {r : Resolver} (h : m.loader.resolver.Extends r) :
    m.loader.Later (m.withResolver r).loader :=
  Loader.later_of_jobs_eq rfl h rfl (List.prefix_refl _) rfl

theorem later_setCall (m : Machine) (id : CallId) (call : Call) :
    m.loader.Later (m.setCall id call).loader :=
  Loader.later_of_jobs_eq rfl (.refl _) rfl (List.prefix_refl _) rfl

theorem later_pushCall (m : Machine) (call : Call) :
    m.loader.Later (m.pushCall call).loader :=
  Loader.later_of_jobs_eq rfl (.refl _) rfl (List.prefix_refl _) rfl

theorem later_failLinking {id : JobId} {job : Job} {dependencies : List Dependency}
    (e : LoadError) (hjob : m.loader.job? id = some job)
    (hwiring : job.linking = .wiring dependencies) :
    m.loader.Later (m.failLinking id dependencies e).loader := by
  rw [failLinking_eq]
  refine (later_withResolver (Resolver.extends_abandonAll _ dependencies)).trans ?_
  exact later_setLinking (m := m.withResolver _) _ hjob fun _ h => by rw [hwiring] at h; cases h

theorem later_startEval (m : Machine) (source : String) :
    m.loader.Later (m.startEval source).loader := by
  cases hfind : m.loader.find? Url.evalModule with
  | some id =>
    rw [startEval_loaded source hfind]
    exact later_pushCall m _
  | none =>
    rw [(startEval_fresh source hfind).2]
    have hask : m.loader.Later
        ((m.supplied source).ask m.loader.resolver.settings.evalSpecifier none).1.loader :=
      Loader.later_of_jobs_eq rfl (Resolver.extends_ask _ _ _) rfl (List.prefix_refl _) rfl
    exact (hask.trans (later_serve _ _ _)).trans (later_pushCall _ _)

/-- Whatever holds for good still holds after a step. -/
theorem Rule.later (h : Rule m action m') (hr : m.loader.resolver.Sound) :
    m.loader.Later m'.loader := by
  cases h with
  | startResolve specifier referrer | startFind specifier referrer =>
    exact Loader.later_of_jobs_eq rfl (Resolver.extends_ask _ _ _) rfl (List.prefix_refl _) rfl
  | startEval source => exact later_startEval m source
  | startAsk => exact later_pushCall m _
  | supply => exact Loader.later_of_jobs_eq rfl (.refl _) rfl (List.prefix_refl _) rfl
  | callResolved | callUnresolved | callFailed | callAnswered => exact later_setCall m _ _
  | acquire h => exact later_withResolver (Resolver.extends_acquire h)
  | answer h => exact later_withResolver (Resolver.extends_answer hr h)
  | prepareHere hjob hidle =>
    exact later_setPreparation hjob fun _ h => by rw [hidle] at h; cases h
  | prepareFile hjob hidle =>
    exact later_setPreparation hjob fun _ h => by rw [hidle] at h; cases h
  | read hjob hreading =>
    exact later_setPreparation hjob fun _ h => by rw [hreading] at h; cases h
  | linkUnprepared hjob hwaiting | linkRefused hjob hwaiting | linkBegun hjob hwaiting =>
    exact later_setLinking _ hjob fun _ h => by rw [hwaiting] at h; cases h
  | linkEnded hjob hwiring | wireEnded hjob hwiring =>
    exact later_setLinking _ hjob fun _ h => by rw [hwiring] at h; cases h
  | @wireAsked _ _ job _ dependency hjob hwiring =>
    refine (later_withResolver
      (Resolver.extends_ask _ dependency.specifier (some job.url))).trans ?_
    exact later_setLinking (m := m.withResolver _) _ hjob
      fun _ h => by rw [hwiring] at h; cases h
  | wireDropped hjob hwiring | wireUnresolved hjob hwiring | wireUnprepared hjob hwiring =>
    exact later_failLinking _ hjob hwiring
  | @wireServed _ _ _ _ _ request target hjob hwiring =>
    refine (later_serve m request target).trans ?_
    exact later_setLinking _ (job?_serve _ _ hjob) fun _ h => by rw [hwiring] at h; cases h
  | enterJoined hjob hentering | enterUnprepared hjob hentering | enterWalk hjob hentering
  | enterDropped hjob hentering =>
    exact later_setInstantiation _ hjob fun _ h => by rw [hentering] at h; cases h
  | walkPass hjob hwalking | walkVisit hjob hwalking | walkStopped hjob hwalking
  | walkJoined hjob hwalking =>
    exact later_setInstantiation _ hjob fun _ h => by rw [hwalking] at h; cases h
  | walkEnded hjob hwalking =>
    exact later_instantiateMembers _ _ hjob fun _ h => by rw [hwalking] at h; cases h
  | callServed => exact (later_serve _ _ _).trans (later_setCall _ _ _)
  | callEnters _ _ hjob hunasked =>
    exact later_setInstantiation _ hjob fun _ h => by rw [hunasked] at h; cases h
  | @callInstantiated call id wish =>
    have hcall := later_setCall (m.serveInstantiated id wish).1 call
      (.answered (m.serveInstantiated id wish).2)
    rw [loader_serveInstantiated] at hcall
    exact hcall

/-- Only eval calls and supplies change the text for the eval module. -/
theorem Rule.evalSource_eq (h : Rule m action m')
    (heval : ∀ text, action ≠ .start (.eval text)) (hsupply : ∀ text, action ≠ .supply text) :
    m'.loader.evalSource = m.loader.evalSource := by
  have hserve : ∀ request t, (m.serve request t).1.loader.evalSource = m.loader.evalSource := by
    intro request t
    obtain ⟨map, served, hloader⟩ := m.loader_serve request t
    rw [hloader]
  cases h with
  | startEval source => exact absurd rfl (heval source)
  | supply source => exact absurd rfl (hsupply source)
  | wireDropped | wireUnresolved | wireUnprepared => rw [failLinking_eq]; rfl
  | wireServed | callServed => exact hserve _ _
  | walkEnded =>
    obtain ⟨jobs, hloader⟩ := loader_instantiateMembers m _ _ _
    rw [hloader]
  | @callInstantiated _ id wish =>
    have hsame := congrArg Loader.evalSource (loader_serveInstantiated m id wish)
    exact hsame
  | _ => rfl

/-! ### The host -/

theorem sameSetup_compile (host : Host) (url : Url) (source : String) :
    host.SameSetup (host.compile url source).1 := by
  unfold Host.compile
  dsimp only
  split
  next => split <;> exact ⟨rfl, rfl, rfl⟩
  next => split <;> exact ⟨rfl, rfl, rfl⟩

theorem sameSetup_finishPreparation (m : Machine) (id : JobId) (url : Url)
    (source : Except LoadError String) :
    m.host.SameSetup (m.finishPreparation id url source).host := by
  cases source with
  | ok text => exact sameSetup_compile m.host url text
  | error _ => exact ⟨rfl, rfl, rfl⟩

theorem sameSetup_bridge (host : Host) (front : String) (url : Url) :
    host.SameSetup (host.bridge front url).1 := by
  unfold Host.bridge
  split
  next => exact ⟨rfl, rfl, rfl⟩
  next => split <;> exact ⟨rfl, rfl, rfl⟩

theorem sameSetup_serve (m : Machine) (request : RequestId) (target : Resolved) :
    m.host.SameSetup (m.serve request target).1.host := by
  cases hfind : m.loader.find? target.url with
  | some id => rw [serve_hit request hfind]; exact ⟨rfl, rfl, rfl⟩
  | none =>
    rw [serve_miss request hfind]
    unfold makeJob
    cases target.format with
    | js => exact ⟨rfl, rfl, rfl⟩
    | remote => exact ⟨rfl, rfl, rfl⟩
    | builtin => exact sameSetup_bridge m.host _ _

theorem sameSetup_startEval (m : Machine) (source : String) :
    m.host.SameSetup (m.startEval source).host := by
  cases hfind : m.loader.find? Url.evalModule with
  | some id => rw [startEval_loaded source hfind]; exact ⟨rfl, rfl, rfl⟩
  | none =>
    rw [(startEval_fresh source hfind).2]
    exact sameSetup_serve ((m.supplied source).ask _ _).1 _ _

theorem sameSetup_serveInstantiated (m : Machine) (id : JobId) (wish : Wish) :
    m.host.SameSetup (m.serveInstantiated id wish).1.host := by
  have hevaluate : m.host.SameSetup (m.evaluateJob id).1.host := by
    unfold evaluateJob
    split <;> exact ⟨rfl, rfl, rfl⟩
  unfold serveInstantiated
  split
  next => exact ⟨rfl, rfl, rfl⟩
  next =>
    dsimp only
    split
    next => exact hevaluate
    next => split <;> exact hevaluate

/-- The steps of a loader leave files, libraries and compiler of its host alone. -/
theorem Rule.sameSetup (h : Rule m action m') : m.host.SameSetup m'.host := by
  cases h with
  | startEval source => exact sameSetup_startEval m source
  | prepareHere | read => exact sameSetup_finishPreparation m _ _ _
  | wireDropped | wireUnresolved | wireUnprepared => rw [failLinking_eq]; exact ⟨rfl, rfl, rfl⟩
  | wireServed | callServed => exact sameSetup_serve m _ _
  | walkEnded =>
    rw [instantiateMembers_eq]
    obtain ⟨jobs, hjoined⟩ := joinAll_eq ⟨m.loader.components.size⟩
      { host := { m.host with store := (m.host.store.instantiate _).1 },
        loader := { m.loader with
          components := m.loader.components.push ⟨_, _, (m.host.store.instantiate _).2⟩ } }
      (joining _ _ (m.host.store.instantiate _).2)
    rw [hjoined]
    exact ⟨rfl, rfl, rfl⟩
  | callInstantiated => exact sameSetup_serveInstantiated m _ _
  | _ => exact ⟨rfl, rfl, rfl⟩

end Machine

/-! ## Runs -/

/-- The settings of a loader that is only told to start from the root directory. -/
def Settings.atRoot : Settings where
  baseUrl := { scheme := "file", authority := some {}, path := .segments [""] }
  cwdUrl := { scheme := "file", authority := some {}, path := .segments [""] }
  sourceExtension := "js"
  builtinPrefix := "@rt/"
  evalSpecifier := "[eval]"
  maxProbes := 10

example : (Settings.ofConfig { cwd := some "/" }).toOption = some .atRoot := by decide +kernel

namespace Machine

variable {m : Machine}

/-- What can happen to a loader: a step of its own, or anything in the host that it shares. -/
inductive Event
  | step (action : Action)
  | host (host : Host)

/-- The machine after an event. A step that is not possible changes nothing. -/
def happen (m : Machine) : Event → Machine
  | .step action => (m.step? action).getD m
  | .host host => { m with host }

theorem happen_of_none {action : Action} (h : m.step? action = none) :
    m.happen (.step action) = m := by
  show (m.step? action).getD m = m
  rw [h]
  rfl

theorem happen_of_some {action : Action} {m' : Machine} (h : m.step? action = some m') :
    m.happen (.step action) = m' := by
  show (m.step? action).getD m = m'
  rw [h]
  rfl

theorem Rule.happen_eq {action : Action} {m' : Machine} (h : Rule m action m') :
    m.happen (.step action) = m' := happen_of_some h.step?_eq

/-- An action changes nothing, or it goes by a rule. -/
theorem happen_cases (m : Machine) (action : Action) :
    m.happen (.step action) = m ∨ Rule m action (m.happen (.step action)) := by
  cases hstep : m.step? action with
  | none => exact .inl (happen_of_none hstep)
  | some m' => exact .inr (happen_of_some hstep ▸ Rule.of_step? hstep)

/-- The machine after a run. -/
def after (m : Machine) (events : List Event) : Machine := events.foldl happen m

theorem after_append (m : Machine) (events more : List Event) :
    m.after (events ++ more) = (m.after events).after more := List.foldl_append

/-- The machine after steps of its own, with nobody else at work in the host. -/
def acts (m : Machine) (actions : List Action) : Machine := m.after (actions.map .step)

/-- What the steps of a run say, one after the other. -/
def logged {α : Type} (say : Machine → Action → List α) : Machine → List Event → List α
  | _, [] => []
  | m, .host host :: rest => logged say (m.happen (.host host)) rest
  | m, .step action :: rest =>
    (if (m.step? action).isSome then say m action else []) ++
      logged say (m.happen (.step action)) rest

/-- What every event of a run preserves, with what was said so far, holds after the run. -/
theorem logged_induction {α : Type} {P : Machine → List α → Prop}
    (say : Machine → Action → List α) (events : List Event)
    (step : ∀ {m action m' log}, Rule m action m' → P m log → P m' (log ++ say m action))
    (host : ∀ {m log} host, .host host ∈ events → P m log → P { m with host } log)
    (log : List α) (h : P m log) : P (m.after events) (log ++ m.logged say events) := by
  induction events generalizing m log with
  | nil => rw [logged, List.append_nil]; exact h
  | cons event rest ih =>
    have hrest : ∀ {m log} host, .host host ∈ rest → P m log → P { m with host } log :=
      fun other hin => host other (List.mem_cons_of_mem _ hin)
    cases event with
    | host other => exact ih hrest log (host other List.mem_cons_self h)
    | step action =>
      show P ((m.happen (.step action)).after rest) _
      unfold logged
      rw [← List.append_assoc]
      refine ih hrest _ ?_
      cases hstep : m.step? action with
      | none =>
        rw [happen_of_none hstep, Option.isSome_none, if_neg Bool.false_ne_true, List.append_nil]
        exact h
      | some m' =>
        rw [happen_of_some hstep]
        exact step (.of_step? hstep) h

/-- What every event preserves holds after every run. -/
theorem after_induction {P : Machine → Prop}
    (step : ∀ {m action m'}, Rule m action m' → P m → P m')
    (host : ∀ {m} host, P m → P { m with host }) (h : P m) (events : List Event) :
    P (m.after events) :=
  logged_induction (P := fun m (_ : List Empty) => P m) (fun _ _ => []) events
    (fun hrule h => step hrule h) (fun other _ h => host other h) [] h

/-- What every step preserves, with what was said so far, holds after every run of steps. -/
theorem acts_logged_induction {α : Type} {P : Machine → List α → Prop}
    (say : Machine → Action → List α)
    (step : ∀ {m action m' log}, Rule m action m' → P m log → P m' (log ++ say m action))
    (log : List α) (h : P m log) (actions : List Action) :
    P (m.acts actions) (log ++ m.logged say (actions.map .step)) := by
  refine logged_induction say (actions.map .step) step (fun other hin _ => ?_) log h
  obtain ⟨_, -, hother⟩ := List.mem_map.mp hin
  cases hother

/-- What every step preserves holds after every run of steps. -/
theorem acts_induction {P : Machine → Prop}
    (step : ∀ {m action m'}, Rule m action m' → P m → P m') (h : P m) (actions : List Action) :
    P (m.acts actions) :=
  acts_logged_induction (P := fun m (_ : List Empty) => P m) (fun _ _ => [])
    (fun hrule h => step hrule h) [] h actions

theorem sound_after (h : m.loader.resolver.Sound) (events : List Event) :
    (m.after events).loader.resolver.Sound :=
  after_induction (P := fun m => m.loader.resolver.Sound)
    (fun hrule h => hrule.resolver.sound h) (fun _ h => h) h events

/-- Whatever holds for good still holds after a run. -/
theorem later_after (h : m.loader.resolver.Sound) (events : List Event) :
    m.loader.Later (m.after events).loader := by
  refine (after_induction
    (P := fun m' => m'.loader.resolver.Sound ∧ m.loader.Later m'.loader) ?_ ?_
    ⟨h, .refl _⟩ events).2
  · intro m₁ action m₂ hrule ⟨hsound, hlater⟩
    exact ⟨hrule.resolver.sound hsound, hlater.trans (hrule.later hsound)⟩
  · intro _ _ h
    exact h

/-- A loader in which nothing has happened yet. -/
def ofSettings (host : Host) (settings : Settings) : Machine := ⟨host, .ofSettings settings⟩

theorem sound_fresh (host : Host) (settings : Settings) (events : List Event) :
    ((ofSettings host settings).after events).loader.resolver.Sound :=
  sound_after (Resolver.sound_ofSettings settings) events

/-! ### One run of many -/

/-- The actions that are taken when each time the next one is chosen so, at most `count`. -/
def path (next? : Machine → Option Action) : Nat → Machine → List Action
  | 0, _ => []
  | count + 1, m =>
    match next? m with
    | none => []
    | some action => action :: path next? count (m.happen (.step action))

/-- The actions by which calls are answered one after the other, with at most `count` for each. -/
def answering (count : Nat) (m : Machine) : List Goal → List Action
  | [] => []
  | goal :: rest =>
    let call : CallId := ⟨m.loader.calls.size⟩
    let next? (m : Machine) := (m.fileStep?.or (m.callStep? call)).or m.backgroundStep?
    let actions := .start goal :: path next? count (m.happen (.step (.start goal)))
    actions ++ answering count (m.acts actions) rest

end Machine

/-- A host with these scripts, and nothing else. -/
def Host.ofScripts (scripts : List (String × String)) : Host :=
  { files := scripts.map fun (path, source) => (path, .contents (Text.utf8 source.toList)) }

end ModuleLoader
