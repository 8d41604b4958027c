import ModuleLoader.Loader.Step
/-!
# The steps of a loader as rules

`Machine.step?` says what an action does by following the program. Here every case of it is a rule
with all of its conditions. `Rule.of_step?` says that there are no other cases, and `Rule.step?_eq`
that each of them occurs. An invariant is then shown rule by rule, and that a task can go on by giving
the rule, without a look into the functions behind the steps.

Results:
1. `Rule.of_step?`, `Rule.step?_eq`: what a step does and what the rules allow are the same.
2. `startEval_loaded`, `startEval_fresh`: an eval call is answered at once or served at once, since
   its specifier leads to a URL without a question to the file system.
3. `failLinking_eq`: a link phase that fails withdraws requests and keeps its error, nothing else.
-/
namespace ModuleLoader

/-- The resolver after the requests of some dependencies are withdrawn. -/
def Resolver.abandonAll (r : Resolver) (dependencies : List Dependency) : Resolver :=
  dependencies.foldl
    (fun r dependency =>
      match dependency.wiring with
      | .resolving request => r.abandon request
      | _ => r)
    r

namespace Machine

/--
`Rule m action m'`: the action takes `m` to `m'`. There is one rule for each way in which an action
can go, and its premises are all that the step looks at.
-/
inductive Rule (m : Machine) : Action → Machine → Prop
  -- calls begin
  | startResolve (specifier : String) (referrer : Option Url) :
      Rule m (.start (.resolve specifier referrer))
        ((m.ask specifier referrer).1.pushCall (.resolving (m.ask specifier referrer).2))
  | startFind (specifier : String) (referrer : Option Url) (wish : Wish) :
      Rule m (.start (.find specifier referrer wish))
        ((m.ask specifier referrer).1.pushCall (.locating (m.ask specifier referrer).2 wish))
  | startEval (source : String) : Rule m (.start (.eval source)) (m.startEval source)
  | startAsk (job : JobId) (wish : Wish) :
      Rule m (.start (.ask job wish)) (m.pushCall (.serving job wish))
  | supply (source : String) :
      Rule m (.supply source) { m with loader := { m.loader with evalSource := some source } }
  -- the file system is asked, and answers
  | acquire {probe : Probe} {r : Resolver} :
      m.loader.resolver.acquire? probe = some r → Rule m (.acquire probe) (m.withResolver r)
  | answer {probe : Probe} {r : Resolver} :
      m.loader.resolver.answer? m.host.files probe = some r →
      Rule m (.answer probe) (m.withResolver r)
  -- preparations
  | prepareHere {id : JobId} {job : Job} {source : Except LoadError String} :
      m.loader.job? id = some job → job.preparation = .idle →
      job.url.sourcePlace job.evalSource = .here source →
      Rule m (.prepare id) (m.finishPreparation id job.url source)
  | prepareFile {id : JobId} {job : Job} {path : FilePath} :
      m.loader.job? id = some job → job.preparation = .idle →
      job.url.sourcePlace job.evalSource = .file path →
      Rule m (.prepare id)
        ({ m with host := { m.host with reads := m.host.reads ++ [path] } }.changeJob id
          fun job => { job with preparation := .reading path })
  | read {id : JobId} {job : Job} {path : FilePath} :
      m.loader.job? id = some job → job.preparation = .reading path →
      Rule m (.read id)
        (m.finishPreparation id job.url (sourceOfRead job.url path (m.host.files.read path)))
  -- link phases
  | linkUnprepared {id : JobId} {job : Job} {e : LoadError} :
      m.loader.job? id = some job → job.linking = .waiting → job.preparation = .done (.error e) →
      Rule m (.link id) (m.setLinking id (.done (.error e)))
  | linkRefused {id : JobId} {job : Job} {unit : UnitId} {store : Store} {e : LoadError} :
      m.loader.job? id = some job → job.linking = .waiting → job.preparation = .done (.ok unit) →
      m.host.store.beginLink unit = (store, .error e) →
      Rule m (.link id)
        ({ m with host := { m.host with store } }.setLinking id (.done (.error e)))
  | linkBegun {id : JobId} {job : Job} {unit : UnitId} {store : Store} {specifiers : List String} :
      m.loader.job? id = some job → job.linking = .waiting → job.preparation = .done (.ok unit) →
      m.host.store.beginLink unit = (store, .ok specifiers) →
      Rule m (.link id)
        ({ m with host := { m.host with store } }.setLinking id
          (.wiring (specifiers.map fun specifier => { specifier })))
  | linkEnded {id : JobId} {job : Job} {dependencies : List Dependency} {jobs : List JobId} :
      m.loader.job? id = some job → job.linking = .wiring dependencies →
      (dependencies.mapM fun dependency => dependency.wiring.wired?) = some jobs →
      Rule m (.link id) (m.setLinking id (.done (.ok jobs)))
  -- dependencies of a link phase
  | wireAsked {id : JobId} {index : Nat} {job : Job} {dependencies : List Dependency}
      {dependency : Dependency} :
      m.loader.job? id = some job → job.linking = .wiring dependencies →
      dependencies[index]? = some dependency → dependency.wiring = .unasked →
      m.loader.alive = true →
      Rule m (.wire id index)
        ((m.ask dependency.specifier (some job.url)).1.setWiring id dependencies index
          (.resolving (m.ask dependency.specifier (some job.url)).2))
  | wireDropped {id : JobId} {index : Nat} {job : Job} {dependencies : List Dependency}
      {dependency : Dependency} :
      m.loader.job? id = some job → job.linking = .wiring dependencies →
      dependencies[index]? = some dependency → dependency.wiring = .unasked →
      m.loader.alive = false →
      Rule m (.wire id index) (m.failLinking id dependencies .loaderDropped)
  | wireUnresolved {id : JobId} {index : Nat} {job : Job} {dependencies : List Dependency}
      {dependency : Dependency} {request : RequestId} {e : LoadError} :
      m.loader.job? id = some job → job.linking = .wiring dependencies →
      dependencies[index]? = some dependency → dependency.wiring = .resolving request →
      m.loader.resolver.outcome? request = some (.error e) →
      Rule m (.wire id index) (m.failLinking id dependencies e)
  | wireServed {id : JobId} {index : Nat} {job : Job} {dependencies : List Dependency}
      {dependency : Dependency} {request : RequestId} {target : Resolved} :
      m.loader.job? id = some job → job.linking = .wiring dependencies →
      dependencies[index]? = some dependency → dependency.wiring = .resolving request →
      m.loader.resolver.outcome? request = some (.ok target) →
      Rule m (.wire id index)
        ((m.serve request target).1.setWiring id dependencies index
          (.located (m.serve request target).2))
  | wireUnprepared {id : JobId} {index : Nat} {job : Job} {dependencies : List Dependency}
      {dependency : Dependency} {found : JobId} {e : LoadError} :
      m.loader.job? id = some job → job.linking = .wiring dependencies →
      dependencies[index]? = some dependency → dependency.wiring = .located found →
      m.loader.prepared? found = some (.error e) →
      Rule m (.wire id index) (m.failLinking id dependencies e)
  | wireEnded {id : JobId} {index : Nat} {job : Job} {dependencies : List Dependency}
      {dependency : Dependency} {found : JobId} {other unit : UnitId} :
      m.loader.job? id = some job → job.linking = .wiring dependencies →
      dependencies[index]? = some dependency → dependency.wiring = .located found →
      m.loader.prepared? found = some (.ok other) → m.loader.prepared? id = some (.ok unit) →
      Rule m (.wire id index)
        ({ m with host := { m.host with
            store := m.host.store.wire unit dependency.specifier other } }.setWiring
          id dependencies index (.wired found))
  -- instantiations
  | enterJoined {id : JobId} {job : Job} {c : Component} :
      m.loader.job? id = some job → job.instantiation = .entering →
      m.loader.component? id = some c →
      Rule m (.instantiate id) (m.setInstantiation id (.done c.outcome))
  | enterUnprepared {id : JobId} {job : Job} {e : LoadError} :
      m.loader.job? id = some job → job.instantiation = .entering →
      m.loader.component? id = none → job.preparation = .done (.error e) →
      Rule m (.instantiate id) (m.setInstantiation id (.done (.error e)))
  | enterWalk {id : JobId} {job : Job} {unit : UnitId} :
      m.loader.job? id = some job → job.instantiation = .entering →
      m.loader.component? id = none → job.preparation = .done (.ok unit) →
      m.loader.alive = true →
      Rule m (.instantiate id) (m.setInstantiation id (.walking (.start id)))
  | enterDropped {id : JobId} {job : Job} {unit : UnitId} :
      m.loader.job? id = some job → job.instantiation = .entering →
      m.loader.component? id = none → job.preparation = .done (.ok unit) →
      m.loader.alive = false →
      Rule m (.instantiate id) (m.setInstantiation id (.done (.error .loaderDropped)))
  | walkPass {id next : JobId} {job : Job} {walk : Walk} {rest : List JobId} :
      m.loader.job? id = some job → job.instantiation = .walking walk →
      walk.stack = next :: rest → next ∈ walk.members →
      Rule m (.instantiate id) (m.setInstantiation id (.walking { walk with stack := rest }))
  | walkVisit {id next : JobId} {job : Job} {walk : Walk} {rest dependencies : List JobId} :
      m.loader.job? id = some job → job.instantiation = .walking walk →
      walk.stack = next :: rest → next ∉ walk.members →
      m.loader.linked? next = some (.ok dependencies) →
      Rule m (.instantiate id)
        (m.setInstantiation id (.walking (walk.visit next rest dependencies)))
  | walkStopped {id next : JobId} {job : Job} {walk : Walk} {rest : List JobId} {e : LoadError} :
      m.loader.job? id = some job → job.instantiation = .walking walk →
      walk.stack = next :: rest → next ∉ walk.members →
      m.loader.linked? next = some (.error e) →
      Rule m (.instantiate id) (m.setInstantiation id (.done (.error e)))
  | walkJoined {id : JobId} {job : Job} {walk : Walk} {c : Component} :
      m.loader.job? id = some job → job.instantiation = .walking walk → walk.stack = [] →
      m.loader.component? id = some c →
      Rule m (.instantiate id) (m.setInstantiation id (.done c.outcome))
  | walkEnded {id : JobId} {job : Job} {walk : Walk} {unit : UnitId} :
      m.loader.job? id = some job → job.instantiation = .walking walk → walk.stack = [] →
      m.loader.component? id = none → job.preparation = .done (.ok unit) →
      Rule m (.instantiate id) (m.instantiateMembers id unit walk.members)
  -- calls go on
  | callResolved {call : CallId} {request : RequestId} {result : Except LoadError Resolved} :
      m.loader.calls[call.index]? = some (.resolving request) →
      m.loader.resolver.outcome? request = some result →
      Rule m (.advance call) (m.setCall call (.answered (result.map .resolved)))
  | callUnresolved {call : CallId} {request : RequestId} {wish : Wish} {e : LoadError} :
      m.loader.calls[call.index]? = some (.locating request wish) →
      m.loader.resolver.outcome? request = some (.error e) →
      Rule m (.advance call) (m.setCall call (.answered (.error e)))
  | callServed {call : CallId} {request : RequestId} {wish : Wish} {target : Resolved} :
      m.loader.calls[call.index]? = some (.locating request wish) →
      m.loader.resolver.outcome? request = some (.ok target) →
      Rule m (.advance call)
        ((m.serve request target).1.setCall call (.serving (m.serve request target).2 wish))
  | callEnters {call : CallId} {id : JobId} {wish : Wish} {job : Job} :
      m.loader.calls[call.index]? = some (.serving id wish) → needsInstantiation wish = true →
      m.loader.job? id = some job → job.instantiation = .unasked →
      Rule m (.advance call) (m.setInstantiation id .entering)
  | callFailed {call : CallId} {id : JobId} {wish : Wish} {job : Job} {e : LoadError} :
      m.loader.calls[call.index]? = some (.serving id wish) → needsInstantiation wish = true →
      m.loader.job? id = some job → job.instantiation = .done (.error e) →
      Rule m (.advance call) (m.setCall call (.answered (.error e)))
  | callInstantiated {call : CallId} {id : JobId} {wish : Wish} {job : Job} :
      m.loader.calls[call.index]? = some (.serving id wish) → needsInstantiation wish = true →
      m.loader.job? id = some job → job.instantiation = .done (.ok ()) →
      Rule m (.advance call)
        ((m.serveInstantiated id wish).1.setCall call (.answered (m.serveInstantiated id wish).2))
  | callAnswered {call : CallId} {id : JobId} {wish : Wish} {answer : Except LoadError Answer} :
      m.loader.calls[call.index]? = some (.serving id wish) → needsInstantiation wish = false →
      m.answer? id wish = some answer →
      Rule m (.advance call) (m.setCall call (.answered answer))

/-! ## There are no other cases -/

variable {m m' : Machine}

theorem rule_of_prepare? {id : JobId} (h : m.prepare? id = some m') : Rule m (.prepare id) m' := by
  obtain ⟨job, hjob, h⟩ := Option.bind_eq_some_iff.mp h
  split at h
  next hidle =>
    split at h
    next source hplace => cases h; exact .prepareHere hjob hidle hplace
    next path hplace => cases h; exact .prepareFile hjob hidle hplace
  next => cases h

theorem rule_of_read? {id : JobId} (h : m.read? id = some m') : Rule m (.read id) m' := by
  obtain ⟨job, hjob, h⟩ := Option.bind_eq_some_iff.mp h
  split at h
  next path hreading => cases h; exact .read hjob hreading
  next => cases h

theorem preparation_done {p : Preparation} {result : Except LoadError UnitId}
    (h : p.result? = some result) : p = .done result := by
  cases p with
  | done _ => exact congrArg _ (Option.some.inj h)
  | idle => cases h
  | reading _ => cases h

theorem rule_of_link? {id : JobId} (h : m.link? id = some m') : Rule m (.link id) m' := by
  obtain ⟨job, hjob, h⟩ := Option.bind_eq_some_iff.mp h
  split at h
  next hwaiting =>
    obtain ⟨result, hresult, h⟩ := Option.bind_eq_some_iff.mp h
    have hprep := preparation_done hresult
    split at h
    next e => cases h; exact .linkUnprepared hjob hwaiting hprep
    next unit =>
      dsimp only at h
      split at h
      next e hbegin => cases h; exact .linkRefused hjob hwaiting hprep (Prod.ext rfl hbegin)
      next specifiers hbegin => cases h; exact .linkBegun hjob hwaiting hprep (Prod.ext rfl hbegin)
  next dependencies hwiring =>
    obtain ⟨jobs, hjobs, h⟩ := Option.bind_eq_some_iff.mp h
    cases h
    exact .linkEnded hjob hwiring hjobs
  next => cases h

theorem rule_of_wire? {id : JobId} {index : Nat} (h : m.wire? id index = some m') :
    Rule m (.wire id index) m' := by
  obtain ⟨job, hjob, h⟩ := Option.bind_eq_some_iff.mp h
  split at h
  next dependencies hwiring =>
    obtain ⟨dependency, hdep, h⟩ := Option.bind_eq_some_iff.mp h
    split at h
    next hunasked =>
      split at h
      next halive => cases h; exact .wireAsked hjob hwiring hdep hunasked halive
      next hdropped =>
        cases h
        exact .wireDropped hjob hwiring hdep hunasked (Bool.not_eq_true _ ▸ hdropped)
    next request hresolving =>
      obtain ⟨outcome, houtcome, h⟩ := Option.bind_eq_some_iff.mp h
      split at h
      next e => cases h; exact .wireUnresolved hjob hwiring hdep hresolving houtcome
      next target => cases h; exact .wireServed hjob hwiring hdep hresolving houtcome
    next found hlocated =>
      obtain ⟨prepared, hprepared, h⟩ := Option.bind_eq_some_iff.mp h
      split at h
      next e => cases h; exact .wireUnprepared hjob hwiring hdep hlocated hprepared
      next other =>
        obtain ⟨own, hown, h⟩ := Option.bind_eq_some_iff.mp h
        split at h
        next => cases h
        next unit => cases h; exact .wireEnded hjob hwiring hdep hlocated hprepared hown
    next => cases h
  next => cases h

theorem rule_of_instantiate? {id : JobId} (h : m.instantiate? id = some m') :
    Rule m (.instantiate id) m' := by
  obtain ⟨job, hjob, h⟩ := Option.bind_eq_some_iff.mp h
  dsimp only at h
  split at h
  next hentering =>
    split at h
    next outcome houtcome =>
      obtain ⟨c, hc, rfl⟩ := Option.map_eq_some_iff.mp houtcome
      cases h
      exact .enterJoined hjob hentering hc
    next houtcome =>
      have hc := Option.map_eq_none_iff.mp houtcome
      obtain ⟨result, hresult, h⟩ := Option.bind_eq_some_iff.mp h
      have hprep := preparation_done hresult
      split at h
      next e => cases h; exact .enterUnprepared hjob hentering hc hprep
      next unit =>
        split at h
        next halive => cases h; exact .enterWalk hjob hentering hc hprep halive
        next hdropped =>
          cases h
          exact .enterDropped hjob hentering hc hprep (Bool.not_eq_true _ ▸ hdropped)
  next walk hwalking =>
    split at h
    next hstack =>
      split at h
      next outcome _ houtcome =>
        obtain ⟨c, hc, rfl⟩ := Option.map_eq_some_iff.mp houtcome
        cases h
        exact .walkJoined hjob hwalking hstack hc
      next unit houtcome hprep =>
        cases h
        exact .walkEnded hjob hwalking hstack (Option.map_eq_none_iff.mp houtcome) hprep
      next => cases h
    next next rest hstack =>
      split at h
      next hmem => cases h; exact .walkPass hjob hwalking hstack (List.elem_iff.mp hmem)
      next hmem =>
        have hnew : next ∉ walk.members := fun hin => hmem (List.elem_iff.mpr hin)
        obtain ⟨linked, hlinked, h⟩ := Option.bind_eq_some_iff.mp h
        split at h
        next e => cases h; exact .walkStopped hjob hwalking hstack hnew hlinked
        next dependencies => cases h; exact .walkVisit hjob hwalking hstack hnew hlinked
  next => cases h

theorem rule_of_advance? {call : CallId} (h : m.advance? call = some m') :
    Rule m (.advance call) m' := by
  obtain ⟨state, hcall, h⟩ := Option.bind_eq_some_iff.mp h
  split at h
  next request =>
    obtain ⟨result, hresult, h⟩ := Option.bind_eq_some_iff.mp h
    cases h
    exact .callResolved hcall hresult
  next request wish =>
    obtain ⟨outcome, houtcome, h⟩ := Option.bind_eq_some_iff.mp h
    split at h
    next e => cases h; exact .callUnresolved hcall houtcome
    next target => cases h; exact .callServed hcall houtcome
  next id wish =>
    split at h
    next hneeds =>
      obtain ⟨job, hjob, h⟩ := Option.bind_eq_some_iff.mp h
      split at h
      next hunasked => cases h; exact .callEnters hcall hneeds hjob hunasked
      next e hfailed => cases h; exact .callFailed hcall hneeds hjob hfailed
      next hdone => cases h; exact .callInstantiated hcall hneeds hjob hdone
      next => cases h
    next hneeds =>
      obtain ⟨answer, hanswer, h⟩ := Option.bind_eq_some_iff.mp h
      cases h
      exact .callAnswered hcall (Bool.not_eq_true _ ▸ hneeds) hanswer
  next => cases h

/-- Whatever a step does is an instance of a rule. -/
theorem Rule.of_step? {action : Action} (h : m.step? action = some m') : Rule m action m' := by
  cases action with
  | start goal =>
    cases h
    cases goal with
    | resolve specifier referrer => exact .startResolve specifier referrer
    | find specifier referrer wish => exact .startFind specifier referrer wish
    | eval source => exact .startEval source
    | ask job wish => exact .startAsk job wish
  | supply source => cases h; exact .supply source
  | acquire probe =>
    obtain ⟨r, hr, rfl⟩ := Option.map_eq_some_iff.mp h
    exact .acquire hr
  | answer probe =>
    obtain ⟨r, hr, rfl⟩ := Option.map_eq_some_iff.mp h
    exact .answer hr
  | prepare id => exact rule_of_prepare? h
  | read id => exact rule_of_read? h
  | link id => exact rule_of_link? h
  | wire id index => exact rule_of_wire? h
  | instantiate id => exact rule_of_instantiate? h
  | advance call => exact rule_of_advance? h

/-! ## Every rule is a step -/

/-- Whatever a rule allows is what the step does. -/
theorem Rule.step?_eq {action : Action} (h : Rule m action m') : m.step? action = some m' := by
  cases h with
  | startResolve | startFind | startEval | startAsk | supply => rfl
  | acquire h => exact congrArg (Option.map m.withResolver) h
  | answer h => exact congrArg (Option.map m.withResolver) h
  | prepareHere hjob hidle hplace | prepareFile hjob hidle hplace =>
    simp [step?, prepare?, hjob, hidle, hplace]
  | read hjob hreading => simp [step?, read?, hjob, hreading]
  | linkUnprepared hjob hwaiting hprep =>
    simp [step?, link?, hjob, hwaiting, hprep, Preparation.result?]
  | linkRefused hjob hwaiting hprep hlink | linkBegun hjob hwaiting hprep hlink =>
    simp [step?, link?, hjob, hwaiting, hprep, hlink, Preparation.result?]
  | linkEnded hjob hwiring hjobs => simp [step?, link?, hjob, hwiring, hjobs]
  | wireAsked hjob hwiring hd hstate halive | wireDropped hjob hwiring hd hstate halive =>
    simp [step?, wire?, hjob, hwiring, hd, hstate, halive]
  | wireUnresolved hjob hwiring hd hstate houtcome | wireServed hjob hwiring hd hstate houtcome =>
    simp [step?, wire?, hjob, hwiring, hd, hstate, houtcome]
  | wireUnprepared hjob hwiring hd hstate hfound =>
    simp [step?, wire?, hjob, hwiring, hd, hstate, hfound]
  | wireEnded hjob hwiring hd hstate hfound hown =>
    simp [step?, wire?, hjob, hwiring, hd, hstate, hfound, hown]
  | enterJoined hjob hentering hc => simp [step?, instantiate?, hjob, hentering, hc]
  | enterUnprepared hjob hentering hc hprep =>
    simp [step?, instantiate?, hjob, hentering, hc, hprep, Preparation.result?]
  | enterWalk hjob hentering hc hprep halive | enterDropped hjob hentering hc hprep halive =>
    simp [step?, instantiate?, hjob, hentering, hc, hprep, halive, Preparation.result?]
  | walkPass hjob hwalking hstack hmem => simp [step?, instantiate?, hjob, hwalking, hstack, hmem]
  | walkVisit hjob hwalking hstack hnew hlinked | walkStopped hjob hwalking hstack hnew hlinked =>
    simp [step?, instantiate?, hjob, hwalking, hstack, hnew, hlinked]
  | walkJoined hjob hwalking hstack hc => simp [step?, instantiate?, hjob, hwalking, hstack, hc]
  | walkEnded hjob hwalking hstack hc hprep =>
    simp [step?, instantiate?, hjob, hwalking, hstack, hc, hprep]
  | callResolved hcall houtcome | callUnresolved hcall houtcome | callServed hcall houtcome =>
    simp [step?, advance?, hcall, houtcome]
  | callEnters hcall hneeds hjob hstate | callFailed hcall hneeds hjob hstate
  | callInstantiated hcall hneeds hjob hstate =>
    simp [step?, advance?, hcall, hneeds, hjob, hstate]
  | callAnswered hcall hneeds hanswer => simp [step?, advance?, hcall, hneeds, hanswer]

theorem Rule.isSome_step? {action : Action} (h : Rule m action m') :
    (m.step? action).isSome = true := by
  rw [h.step?_eq]
  rfl

theorem step?_eq_none {action : Action} (h : ∀ m', ¬ Rule m action m') :
    m.step? action = none :=
  Option.eq_none_iff_forall_ne_some.mpr fun m' hstep => h m' (Rule.of_step? hstep)

/-! ## What the longer steps come to -/

theorem failLinking_eq (m : Machine) (id : JobId) (dependencies : List Dependency)
    (e : LoadError) :
    m.failLinking id dependencies e =
      (m.withResolver (m.loader.resolver.abandonAll dependencies)).setLinking id
        (.done (.error e)) := by
  unfold failLinking Resolver.abandonAll
  refine congrArg (fun m : Machine => m.setLinking id (.done (.error e))) ?_
  induction dependencies generalizing m with
  | nil => rfl
  | cons dependency rest ih =>
    simp only [List.foldl_cons]
    rw [ih]
    cases dependency.wiring <;> rfl

/-- A machine in which a text is supplied for the eval module. -/
def supplied (m : Machine) (source : String) : Machine :=
  { m with loader := { m.loader with evalSource := some source } }

theorem startEval_loaded {id : JobId} (source : String)
    (h : m.loader.find? Url.evalModule = some id) :
    m.startEval source = m.pushCall (.answered (.error .evalAlreadyLoaded)) := by
  unfold startEval
  rw [h]

theorem target_evalSpecifier (settings : Settings) (referrer : Option Url) :
    settings.target settings.evalSpecifier referrer = .settled (.ok ⟨Url.evalModule, .js⟩) := by
  unfold Settings.target
  rw [if_pos rfl]

/-- The first eval call gets its request served at once. -/
theorem startEval_fresh (source : String) (h : m.loader.find? Url.evalModule = none) :
    let asked := (m.supplied source).ask m.loader.resolver.settings.evalSpecifier none
    asked.1.loader.resolver.outcome? asked.2 = some (.ok ⟨Url.evalModule, .js⟩) ∧
      m.startEval source =
        (asked.1.serve asked.2 ⟨Url.evalModule, .js⟩).1.pushCall
          (.serving (asked.1.serve asked.2 ⟨Url.evalModule, .js⟩).2 .completion) := by
  intro asked
  have houtcome : asked.1.loader.resolver.outcome? asked.2 = some (.ok ⟨Url.evalModule, .js⟩) := by
    simp only [asked, ask, supplied, Resolver.ask, Resolver.outcome?, Array.getElem?_push_size,
      target_evalSpecifier]
    rfl
  refine ⟨houtcome, ?_⟩
  unfold startEval
  rw [h]
  dsimp only
  rw [show ({ m with loader := { m.loader with evalSource := some source } } : Machine) =
    m.supplied source from rfl]
  rw [show (m.supplied source).ask m.loader.resolver.settings.evalSpecifier none = asked from rfl]
  rw [houtcome]

theorem serve_hit {id : JobId} (request : RequestId) {target : Resolved}
    (h : m.loader.find? target.url = some id) :
    m.serve request target =
      ({ m with loader := { m.loader with
          hits := m.loader.hits + 1
          served := m.loader.served ++ [(request, id)] } }, id) := by
  unfold serve ModuleMap.lookup
  rw [h]

theorem serve_miss (request : RequestId) {target : Resolved}
    (h : m.loader.find? target.url = none) :
    m.serve request target =
      ({ m.makeJob target with loader := { (m.makeJob target).loader with
          misses := (m.makeJob target).loader.misses + 1
          served := (m.makeJob target).loader.served ++ [(request, m.loader.nextId)] } },
        m.loader.nextId) := by
  unfold serve ModuleMap.lookup
  rw [h]
  unfold makeJob
  cases target.format <;> rfl

/-- The job that is made for a URL, when its preparation starts so. -/
def newJob (m : Machine) (target : Resolved) (preparation : Preparation) : Job :=
  { id := m.loader.nextId, url := target.url, format := target.format,
    evalSource := m.loader.evalSource, preparation }

/-- Making a job adds it to the map; only the host may change with it. -/
theorem exists_makeJob (m : Machine) (target : Resolved) :
    ∃ host preparation, m.makeJob target =
      { host, loader := { m.loader with
          toModuleMap := m.loader.insert (m.newJob target preparation) } } := by
  unfold makeJob newJob
  cases target.format with
  | js => exact ⟨_, _, rfl⟩
  | builtin => exact ⟨_, _, rfl⟩
  | remote => exact ⟨_, _, rfl⟩

end Machine

end ModuleLoader
