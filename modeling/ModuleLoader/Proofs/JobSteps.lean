import ModuleLoader.Proofs.Keeping
/-!
# What a step does to one job

Most steps change one job, some change many, and most invariants speak about each job by itself. So
the steps are told here as seen from a job: what it can become, and what it can be when it is new.

Results:
1. `Rule.job`: after a step a job is what it was, got one phase further, or is new.
2. `Job.HasUnit`, `hasUnit_after`: only a job whose unit is there links it.
3. `Rule.walking`: only the steps of its own instantiation get the walk of a job further.
4. `Rule.quiet`: steps other than those of an instantiation leave components alone, and no
   instantiation gets further than to its entry.
-/
namespace ModuleLoader

/-- How the job of this name goes on in one step, which is the one of this action. -/
inductive Job.Step (action : Action) (id : JobId) (job : Job) : Job → Prop
  | kept : job.Step action id job
  | prepared (p : Preparation) : (∀ result, job.preparation ≠ .done result) →
      job.Step action id { job with preparation := p }
  | begun {unit : UnitId} (specifiers : List String) : job.linking = .waiting →
      job.preparation = .done (.ok unit) →
      job.Step action id
        { job with linking := .wiring (specifiers.map fun specifier => { specifier }) }
  | wired {dependencies : List Dependency} (index : Nat) (wiring : Wiring) :
      job.linking = .wiring dependencies →
      job.Step action id { job with
        linking := .wiring (dependencies.modify index fun d => { d with wiring }) }
  | linked {dependencies : List Dependency} {jobs : List JobId} :
      job.linking = .wiring dependencies →
      (dependencies.mapM fun dependency => dependency.wiring.wired?) = some jobs →
      job.Step action id { job with linking := .done (.ok jobs) }
  | failed (e : LoadError) : (∀ result, job.linking ≠ .done result) →
      job.Step action id { job with linking := .done (.error e) }
  | entered : job.instantiation = .unasked →
      job.Step action id { job with instantiation := .entering }
  | instantiated (p : Instantiation) (component : Option ComponentId) :
      action = .instantiate id → job.Step action id { job with instantiation := p, component }
  /-- It joins the component of another one. -/
  | joined {root : JobId} (component : Option ComponentId) : action = .instantiate root →
      job.Step action id { job with component }

/-- A job that was made just now: nobody asked for more than its source. -/
structure Job.New (job : Job) : Prop where
  linking : job.linking = .waiting
  instantiation : job.instantiation = .unasked
  component : job.component = none

namespace Machine

variable {m m' : Machine} {action : Action}

/-- A job is one that was there and went on, or a new one. -/
def JobOf (m : Machine) (action : Action) (id : JobId) (job' : Job) : Prop :=
  (∃ job, m.loader.job? id = some job ∧ job.Step action id job') ∨
    m.loader.job? id = none ∧ job'.New

/-- One job goes on, where all others are as in `m` or new. -/
theorem jobOf_changeJob {l : Loader} {id : JobId} {job : Job} {f : Job → Job}
    (hl : ∀ i job', l.job? i = some job' → m.JobOf action i job')
    (hjob : m.loader.job? id = some job) (hsame : l.job? id = some job)
    (hstep : job.Step action id (f job)) {i : JobId} {job' : Job}
    (h : (l.changeJob id f).job? i = some job') : m.JobOf action i job' := by
  rw [Loader.job?_changeJob] at h
  split at h
  next hid =>
    subst hid
    rw [hsame] at h
    cases h
    exact .inl ⟨job, hjob, hstep⟩
  next => exact hl i job' h

theorem jobOf_self (i : JobId) (job' : Job) (h : m.loader.job? i = some job') :
    m.JobOf action i job' :=
  .inl ⟨job', h, .kept⟩

theorem jobOf_setJob {id : JobId} {job : Job} {f : Job → Job}
    (hjob : m.loader.job? id = some job) (hstep : job.Step action id (f job)) {i : JobId}
    {job' : Job}
    (h : (m.loader.changeJob id f).job? i = some job') : m.JobOf action i job' :=
  jobOf_changeJob jobOf_self hjob hjob hstep h

theorem jobOf_serve {request : RequestId} {target : Resolved} (i : JobId) (job' : Job)
    (h : (m.serve request target).1.loader.job? i = some job') : m.JobOf action i job' := by
  rcases job?_of_serve h with hold | ⟨-, rfl, preparation, rfl⟩
  · exact .inl ⟨job', hold, .kept⟩
  · exact .inr ⟨Array.getElem?_eq_none (Nat.le_refl _), rfl, rfl, rfl⟩

theorem jobOf_startEval {source : String} {i : JobId} {job' : Job}
    (h : (m.startEval source).loader.job? i = some job') : m.JobOf action i job' := by
  cases hfind : m.loader.find? Url.evalModule with
  | some id =>
    rw [startEval_loaded source hfind] at h
    exact .inl ⟨job', h, .kept⟩
  | none =>
    rw [(startEval_fresh source hfind).2] at h
    exact jobOf_serve (m := ((m.supplied source).ask _ _).1) i job' h

theorem jobOf_instantiateMembers {id : JobId} {unit : UnitId} {members : List JobId}
    {i : JobId} {job' : Job}
    (h : (m.instantiateMembers id unit members).loader.job? i = some job') :
    m.JobOf (.instantiate id) i job' := by
  rw [job?_instantiateMembers] at h
  obtain ⟨job, hjob, rfl⟩ := Option.map_eq_some_iff.mp h
  refine .inl ⟨job, hjob, ?_⟩
  by_cases hid : id = i
  · exact .instantiated _ _ (hid ▸ rfl)
  · rw [if_neg hid]
    exact .joined _ rfl

theorem Rule.job (h : Rule m action m') {i : JobId} {job' : Job}
    (hjob' : m'.loader.job? i = some job') : m.JobOf action i job' := by
  cases h with
  | startEval source => exact jobOf_startEval hjob'
  | prepareHere hjob hidle | prepareFile hjob hidle =>
    exact jobOf_setJob hjob (.prepared _ fun _ h => by rw [hidle] at h; cases h) hjob'
  | read hjob hreading =>
    exact jobOf_setJob hjob (.prepared _ fun _ h => by rw [hreading] at h; cases h) hjob'
  | linkUnprepared hjob hwaiting | linkRefused hjob hwaiting =>
    exact jobOf_setJob hjob (.failed _ fun _ h => by rw [hwaiting] at h; cases h) hjob'
  | linkBegun hjob hwaiting hprep =>
    exact jobOf_setJob hjob (.begun _ hwaiting hprep) hjob'
  | linkEnded hjob hwiring hjobs => exact jobOf_setJob hjob (.linked hwiring hjobs) hjob'
  | wireAsked hjob hwiring => exact jobOf_setJob hjob (.wired _ _ hwiring) hjob'
  | wireEnded hjob hwiring => exact jobOf_setJob hjob (.wired _ _ hwiring) hjob'
  | wireDropped hjob hwiring | wireUnresolved hjob hwiring | wireUnprepared hjob hwiring =>
    rw [failLinking_eq] at hjob'
    exact jobOf_setJob hjob (.failed _ fun _ h => by rw [hwiring] at h; cases h) hjob'
  | wireServed hjob hwiring =>
    exact jobOf_changeJob jobOf_serve hjob (job?_serve _ _ hjob) (.wired _ _ hwiring) hjob'
  | enterJoined hjob | enterUnprepared hjob | enterWalk hjob | enterDropped hjob | walkPass hjob
  | walkVisit hjob | walkStopped hjob | walkJoined hjob =>
    exact jobOf_setJob hjob (.instantiated _ _ rfl) hjob'
  | walkEnded hjob => exact jobOf_instantiateMembers hjob'
  | callEnters _ _ hjob hunasked => exact jobOf_setJob hjob (.entered hunasked) hjob'
  | callServed => exact jobOf_serve i job' hjob'
  | callInstantiated =>
    change (serveInstantiated _ _ _).1.loader.job? i = _ at hjob'
    rw [loader_serveInstantiated] at hjob'
    exact .inl ⟨job', hjob', .kept⟩
  | _ => exact .inl ⟨job', hjob', .kept⟩

end Machine

/-! ## Units and link phases -/

theorem Wiring.wired?_eq_some {wiring : Wiring} {job : JobId} :
    wiring.wired? = some job ↔ wiring = .wired job := by
  cases wiring <;> simp [Wiring.wired?]

/-- A job that links its unit, or has linked it, has one. -/
def Job.HasUnit (job : Job) : Prop :=
  ((∃ dependencies, job.linking = .wiring dependencies) ∨
    ∃ jobs, job.linking = .done (.ok jobs)) → ∃ unit, job.preparation = .done (.ok unit)

namespace Job

variable {job job' : Job} {action : Action} {id : JobId}

theorem New.hasUnit (h : job.New) : job.HasUnit := by
  rintro (⟨_, hl⟩ | ⟨_, hl⟩)
  · rw [h.linking] at hl
    cases hl
  · rw [h.linking] at hl
    cases hl

theorem Step.hasUnit (h : job.Step action id job') (hp : job.HasUnit) : job'.HasUnit := by
  cases h with
  | kept => exact hp
  | prepared p hopen =>
    intro hl
    obtain ⟨unit, hunit⟩ := hp hl
    exact absurd hunit (hopen _)
  | begun specifiers hwaiting hprep => exact fun _ => ⟨_, hprep⟩
  | wired index wiring hwiring => exact fun _ => hp (.inl ⟨_, hwiring⟩)
  | linked hwiring hjobs => exact fun _ => hp (.inl ⟨_, hwiring⟩)
  | failed e hopen => rintro (⟨_, hl⟩ | ⟨_, hl⟩) <;> cases hl
  | entered hunasked => exact hp
  | instantiated p component => exact hp
  | joined component => exact hp

/-- A step that instantiates nothing lets a job enter its instantiation at most. -/
theorem Step.instantiation_cases (h : job.Step action id job')
    (hother : ∀ id, action ≠ .instantiate id) :
    job'.component = job.component ∧
      (job'.instantiation = job.instantiation ∨ job'.instantiation = .entering) := by
  cases h with
  | entered => exact ⟨rfl, .inr rfl⟩
  | instantiated p component hact => exact absurd hact (hother _)
  | joined component hact => exact absurd hact (hother _)
  | _ => exact ⟨rfl, .inl rfl⟩

/-- Only the steps of its own instantiation get the walk of a job further. -/
theorem Step.walking (h : job.Step action id job') (hother : action ≠ .instantiate id) {walk : Walk}
    (hwalking : job.instantiation = .walking walk) : job'.instantiation = .walking walk := by
  cases h with
  | entered hunasked => cases hunasked.symm.trans hwalking
  | instantiated p component hact => exact absurd hact hother
  | _ => exact hwalking

end Job

namespace Machine

variable {m m' : Machine} {action : Action}

/-- What holds of new jobs and is kept by a job that goes on is kept for all jobs. -/
theorem Rule.forall_jobs {P : Job → Prop} (new : ∀ job, job.New → P job)
    (step : ∀ {id} job job', job.Step action id job' → P job → P job') (h : Rule m action m')
    (hm : ∀ id job, m.loader.job? id = some job → P job) (id : JobId) (job' : Job)
    (hjob' : m'.loader.job? id = some job') : P job' := by
  rcases h.job hjob' with ⟨job, hjob, hstep⟩ | ⟨-, hnew⟩
  · exact step job job' hstep (hm id job hjob)
  · exact new job' hnew

theorem Rule.walking (h : Rule m action m') (hr : m.loader.resolver.Sound) {id : JobId}
    (hother : action ≠ .instantiate id) {job : Job} {walk : Walk}
    (hjob : m.loader.job? id = some job) (hwalking : job.instantiation = .walking walk) :
    ∃ job', m'.loader.job? id = some job' ∧ job'.instantiation = .walking walk := by
  obtain ⟨job', hjob', -⟩ := (h.later hr).job hjob
  rcases h.job hjob' with ⟨old, hold, hstep⟩ | ⟨hnone, -⟩
  · cases hjob.symm.trans hold
    exact ⟨job', hjob', hstep.walking hother hwalking⟩
  · cases hjob.symm.trans hnone

theorem hasUnit_after (host : Host) (settings : Settings) (events : List Event) (id : JobId)
    (job : Job) (hjob : ((ofSettings host settings).after events).loader.job? id = some job) :
    job.HasUnit :=
  after_induction (m := ofSettings host settings)
    (P := fun m => ∀ id job, m.loader.job? id = some job → job.HasUnit)
    (fun hrule hm => hrule.forall_jobs (fun _ h => h.hasUnit) (fun _ _ h => h.hasUnit) hm)
    (fun _ hm => hm) (fun _ _ h => by cases h) events id job hjob

end Machine

/-! ## Steps that instantiate nothing -/

/-- What a loader keeps while nothing is instantiated. -/
structure Loader.Quiet (l l' : Loader) : Prop where
  later : l.Later l'
  components : l'.components = l.components
  component : ∀ {id job' i}, l'.job? id = some job' → job'.component = some i →
    ∃ job, l.job? id = some job ∧ job.component = some i
  walking : ∀ {id job' walk}, l'.job? id = some job' → job'.instantiation = .walking walk →
    ∃ job, l.job? id = some job ∧ job.instantiation = .walking walk
  done : ∀ {id job' result}, l'.job? id = some job' → job'.instantiation = .done result →
    ∃ job, l.job? id = some job ∧ job.instantiation = .done result

namespace Machine

variable {m m' : Machine} {action : Action}

theorem components_startEval (m : Machine) (source : String) :
    (m.startEval source).loader.components = m.loader.components := by
  cases hfind : m.loader.find? Url.evalModule with
  | some id => rw [startEval_loaded source hfind]; rfl
  | none =>
    rw [(startEval_fresh source hfind).2]
    exact components_serve _ _ _

theorem Rule.components (h : Rule m action m') (hother : ∀ id, action ≠ .instantiate id) :
    m'.loader.components = m.loader.components := by
  cases h with
  | startEval source => exact components_startEval m source
  | wireDropped | wireUnresolved | wireUnprepared => rw [failLinking_eq]; rfl
  | wireServed | callServed => exact components_serve m _ _
  | callInstantiated =>
    show (serveInstantiated _ _ _).1.loader.components = _
    rw [loader_serveInstantiated]
  | walkEnded => exact absurd rfl (hother _)
  | _ => rfl

theorem Rule.quiet (h : Rule m action m') (hr : m.loader.resolver.Sound)
    (hother : ∀ id, action ≠ .instantiate id) : m.loader.Quiet m'.loader where
  later := h.later hr
  components := h.components hother
  component hjob' hi := by
    rcases h.job hjob' with ⟨job, hjob, hstep⟩ | ⟨-, hnew⟩
    · exact ⟨job, hjob, (hstep.instantiation_cases hother).1 ▸ hi⟩
    · rw [hnew.component] at hi
      cases hi
  walking hjob' hw := by
    rcases h.job hjob' with ⟨job, hjob, hstep⟩ | ⟨-, hnew⟩
    · rcases (hstep.instantiation_cases hother).2 with hsame | hentering
      · exact ⟨job, hjob, hsame ▸ hw⟩
      · rw [hentering] at hw
        cases hw
    · rw [hnew.instantiation] at hw
      cases hw
  done hjob' hd := by
    rcases h.job hjob' with ⟨job, hjob, hstep⟩ | ⟨-, hnew⟩
    · rcases (hstep.instantiation_cases hother).2 with hsame | hentering
      · exact ⟨job, hjob, hsame ▸ hd⟩
      · rw [hentering] at hd
        cases hd
    · rw [hnew.instantiation] at hd
      cases hd

end Machine

end ModuleLoader
