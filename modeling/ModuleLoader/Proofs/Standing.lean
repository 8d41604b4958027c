import ModuleLoader.Proofs.JobSteps
import ModuleLoader.Proofs.ModuleMap
import ModuleLoader.Proofs.Permits
import ModuleLoader.Proofs.UnitSteps
/-!
# What is named is there

Calls, link phases and walks name jobs and requests that they wait for. The jobs are jobs of the
loader, and nobody gives up a request for which somebody else waits.

Results:
1. `Rule.call`: what a call becomes in one step.
2. `Heard`, `Rule.heard`: the requests that somebody waits for are live.
3. `Fits`, `Rule.fits`: link phases and walks name jobs that are there.
4. `Standing`, `standing_after`: all of this holds after every run in which calls are made on jobs that
   are there.
-/
namespace ModuleLoader

namespace Machine

variable {m m' : Machine} {action : Action} {log : List (RequestId × Resolved)}

/-! ## Calls -/

/-- What a call can be after a step that made it or got it further. -/
def CallOf (m : Machine) (action : Action) (m' : Machine) : Call → Prop
  | .resolving request => ∃ specifier referrer, action = .start (.resolve specifier referrer) ∧
      request = ⟨m.loader.resolver.requests.size⟩
  | .serving job wish => action = .start (.ask job wish) ∨ (m'.loader.job? job).isSome = true
  | _ => True

theorem call_setCall {call : CallId} {state state' : Call} {i : Nat}
    (h : (m.setCall call state).loader.calls[i]? = some state') :
    m.loader.calls[i]? = some state' ∨ state' = state := by
  change (m.loader.calls.setIfInBounds call.index state)[i]? = _ at h
  rw [Array.getElem?_setIfInBounds] at h
  split at h
  next =>
    split at h
    next => exact .inr (Option.some.inj h).symm
    next => cases h
  next => exact .inl h

theorem call_pushCall {state state' : Call} {i : Nat}
    (h : (m.pushCall state).loader.calls[i]? = some state') :
    m.loader.calls[i]? = some state' ∨ state' = state := by
  change (m.loader.calls.push state)[i]? = _ at h
  rw [Array.getElem?_push] at h
  split at h
  next => exact .inr (Option.some.inj h).symm
  next => exact .inl h

/-- The job that a request gets is there. -/
theorem isSome_serve (h : m.loader.Indexed) (request : RequestId) (target : Resolved) :
    ((m.serve request target).1.loader.job? (m.serve request target).2).isSome = true := by
  cases hfind : m.loader.find? target.url with
  | some id =>
    rw [serve_hit request hfind]
    obtain ⟨job, hjob, -⟩ := h.job_of_find? hfind
    exact Option.isSome_iff_exists.mpr ⟨job, hjob⟩
  | none =>
    obtain ⟨host, preparation, hmake⟩ := m.exists_makeJob target
    rw [serve_miss request hfind, hmake]
    exact Option.isSome_iff_exists.mpr ⟨_, Array.getElem?_push_size⟩

/-- A call is as it was, or the step has made it what it is. -/
theorem Rule.call (h : Rule m action m') (hi : m.loader.Indexed) {i : Nat} {state : Call}
    (hstate : m'.loader.calls[i]? = some state) :
    m.loader.calls[i]? = some state ∨ m.CallOf action m' state := by
  cases h with
  | startResolve specifier referrer =>
    rcases call_pushCall hstate with hold | rfl
    · exact .inl hold
    · exact .inr ⟨specifier, referrer, rfl, rfl⟩
  | startFind specifier referrer wish =>
    rcases call_pushCall hstate with hold | rfl
    · exact .inl hold
    · exact .inr trivial
  | startEval source =>
    cases hfind : m.loader.find? Url.evalModule with
    | some id =>
      rw [startEval_loaded source hfind] at hstate
      rcases call_pushCall hstate with hold | rfl
      · exact .inl hold
      · exact .inr trivial
    | none =>
      have heval := (startEval_fresh source hfind).2
      rw [heval] at hstate
      rcases call_pushCall hstate with hold | rfl
      · rw [calls_serve] at hold
        exact .inl hold
      · refine .inr (.inr ?_)
        rw [heval]
        have hasked : ((m.supplied source).ask m.loader.resolver.settings.evalSpecifier
            none).1.loader.Indexed := hi.sameJobs ⟨rfl, rfl, rfl⟩
        exact isSome_serve hasked _ _
  | startAsk job wish =>
    rcases call_pushCall hstate with hold | rfl
    · exact .inl hold
    · exact .inr (.inl rfl)
  | wireDropped | wireUnresolved | wireUnprepared =>
    rw [failLinking_eq] at hstate
    exact .inl hstate
  | wireServed =>
    refine .inl ?_
    change (serve _ _ _).1.loader.calls[i]? = _ at hstate
    rwa [calls_serve] at hstate
  | walkEnded =>
    obtain ⟨jobs, hloader⟩ := loader_instantiateMembers m _ _ _
    rw [hloader] at hstate
    exact .inl hstate
  | callResolved | callUnresolved | callFailed | callAnswered =>
    rcases call_setCall hstate with hold | rfl
    · exact .inl hold
    · exact .inr trivial
  | callServed =>
    rcases call_setCall hstate with hold | rfl
    · rw [calls_serve] at hold
      exact .inl hold
    · exact .inr (.inr (isSome_serve hi _ _))
  | callInstantiated =>
    rcases call_setCall hstate with hold | rfl
    · rw [loader_serveInstantiated] at hold
      exact .inl hold
    · exact .inr trivial
  | _ => exact .inl hstate

/-! ## Requests -/

/-- A link phase that fails gives up the requests of its dependencies, and no others. -/
theorem live_failLinking {id : JobId} {job : Job} {dependencies : List Dependency}
    {request : RequestId} (hlive : m.loader.resolver.Live request)
    (hjob : m.loader.job? id = some job) (hwiring : job.linking = .wiring dependencies)
    (e : LoadError) : (m.failLinking id dependencies e).loader.resolver.Live request ∨
      ∃ id' index, m.loader.awaited? (.dependency id' index) = some request ∧
        (m.failLinking id dependencies e).loader.awaited? (.dependency id' index) = none := by
  by_cases hown : ∃ d ∈ dependencies, d.wiring = .resolving request
  · obtain ⟨d, hd, hresolving⟩ := hown
    obtain ⟨index, hindex⟩ := List.getElem?_of_mem hd
    refine .inr ⟨id, index, ?_, ?_⟩
    · show (m.loader.job? id).bind _ = _
      rw [hjob, Option.bind_some, hwiring, awaited?_wiring hindex, hresolving]
    · rw [failLinking_eq, awaited?_setLinking, if_pos rfl]
      exact Option.bind_eq_none_iff.mpr fun _ _ => rfl
  · refine .inl ?_
    rw [failLinking_eq]
    exact Resolver.live_abandonAll hlive fun d hd heq => hown ⟨d, hd, heq⟩

theorem live_serve {request : RequestId} (hlive : m.loader.resolver.Live request)
    (served : RequestId) (target : Resolved) :
    (m.serve served target).1.loader.resolver.Live request := by
  rw [resolver_serve]
  exact hlive

/-- A request stays live, or the link phase that waited for it has failed. -/
theorem Rule.live (h : Rule m action m') {request : RequestId}
    (hlive : m.loader.resolver.Live request) : m'.loader.resolver.Live request ∨
      ∃ id index, m.loader.awaited? (.dependency id index) = some request ∧
        m'.loader.awaited? (.dependency id index) = none := by
  cases h with
  | startResolve specifier referrer => exact .inl (Resolver.live_ask hlive specifier referrer)
  | startFind specifier referrer wish => exact .inl (Resolver.live_ask hlive specifier referrer)
  | startEval source =>
    cases hfind : m.loader.find? Url.evalModule with
    | some id => rw [startEval_loaded source hfind]; exact .inl hlive
    | none =>
      rw [(startEval_fresh source hfind).2]
      exact .inl (live_serve (Resolver.live_ask hlive _ _) _ _)
  | acquire hacquire =>
    obtain ⟨p, -, -, rfl⟩ := Resolver.acquire?_eq_some hacquire
    exact .inl (Resolver.live_setInquiry hlive _)
  | answer hanswer =>
    obtain ⟨p, -, -, rfl⟩ := Resolver.answer?_eq_some hanswer
    exact .inl (Resolver.live_setInquiry hlive _)
  | wireAsked => exact .inl (Resolver.live_ask hlive _ _)
  | wireDropped hjob hwiring | wireUnresolved hjob hwiring | wireUnprepared hjob hwiring =>
    exact live_failLinking hlive hjob hwiring _
  | wireServed => exact .inl (live_serve hlive _ _)
  | callServed => exact .inl (live_serve hlive _ _)
  | walkEnded =>
    obtain ⟨jobs, hloader⟩ := loader_instantiateMembers m _ _ _
    rw [hloader]
    exact .inl hlive
  | callInstantiated =>
    refine .inl ?_
    show (serveInstantiated _ _ _).1.loader.resolver.Live request
    rw [loader_serveInstantiated]
    exact hlive
  | _ => exact .inl hlive

end Machine

namespace Resolver

/-- A step makes the requests that it says, and no others. -/
theorem Step.size {r r' : Resolver} {files : Files} {asked : List (String × Option Url)}
    (h : r.Step files asked r') : r'.requests.size = r.requests.size + asked.length := by
  cases h with
  | none => rfl
  | ask specifier referrer => exact Array.size_push _
  | acquire h =>
    obtain ⟨p, -, -, rfl⟩ := acquire?_eq_some h
    exact Array.size_modify
  | answer h =>
    obtain ⟨p, -, -, rfl⟩ := answer?_eq_some h
    exact Array.size_modify
  | abandonAll dependencies =>
    refine abandonAll_induction (P := fun t => t.requests.size = r.requests.size)
      (fun {t} id ht => ?_) rfl dependencies
    unfold abandon
    split
    next => exact ht
    next => exact Array.size_modify.trans ht

/-- Only a request that is made now makes them more. -/
theorem Step.live_newest {r r' : Resolver} {files : Files} {asked : List (String × Option Url)}
    (h : r.Step files asked r') (hsize : r.requests.size < r'.requests.size) :
    r'.Live ⟨r.requests.size⟩ := by
  have hmade := h.size
  cases h with
  | ask specifier referrer => exact r.live_ask_self specifier referrer
  | none | acquire | answer | abandonAll =>
    rw [hmade] at hsize
    exact absurd hsize (Nat.lt_irrefl _)

theorem Live.lt {r : Resolver} {id : RequestId} (h : r.Live id) : id.index < r.requests.size := by
  obtain ⟨request, hrequest, -⟩ := h
  exact (Array.getElem?_eq_some_iff.mp hrequest).1

end Resolver

/-- Whoever waits for a request waits for one that is live, and nobody waits with a call that only
resolves. -/
structure Loader.Heard (l : Loader) : Prop where
  awaited : ∀ asker request, l.awaited? asker = some request → l.resolver.Live request
  resolving : ∀ (i : Nat) request, l.calls[i]? = some (.resolving request) →
    l.resolver.Live request ∧ ∀ asker, l.awaited? asker ≠ some request

namespace Machine

variable {m m' : Machine} {action : Action} {log : List (RequestId × Resolved)}

theorem Rule.heard (h : Rule m action m') (hi : m.loader.Indexed) (hw : m.loader.Waiting log)
    (hh : m.loader.Heard) : m'.loader.Heard where
  awaited asker request hawaited := by
    rcases h.awaited_cases hawaited with hold | ⟨rfl, hsize, -⟩
    · rcases h.live (hh.awaited asker request hold) with hlive | ⟨id, index, hother, hnone⟩
      · exact hlive
      · rw [hw.alone asker _ request hold hother, hnone] at hawaited
        cases hawaited
    · exact h.resolver.live_newest hsize
  resolving i request hcall := by
    have hnew : ∀ asker, m'.loader.awaited? asker = some request →
        request.index < m.loader.resolver.requests.size →
        m.loader.awaited? asker = some request := by
      intro asker hawaited hlt
      rcases h.awaited_cases hawaited with hold | ⟨rfl, -⟩
      · exact hold
      · exact absurd hlt (Nat.lt_irrefl _)
    rcases h.call hi hcall with hold | ⟨specifier, referrer, rfl, rfl⟩
    · obtain ⟨hlive, hnone⟩ := hh.resolving i request hold
      refine ⟨?_, fun asker hawaited => hnone asker (hnew asker hawaited hlive.lt)⟩
      rcases h.live hlive with hlive' | ⟨id, index, hother, -⟩
      · exact hlive'
      · exact absurd hother (hnone _)
    · cases h
      refine ⟨Resolver.live_ask_self _ specifier referrer, fun asker hawaited => ?_⟩
      have hold := awaitsLess_pushCall (m.ask specifier referrer).1 rfl asker _ hawaited
      exact Nat.lt_irrefl _ (hw.asked asker _ hold)

end Machine

/-! ## Jobs -/

/-- The job that a dependency has found. -/
def Wiring.found? : Wiring → Option JobId
  | located job | wired job => some job
  | _ => none

/-- The jobs that a link phase names. -/
def Linking.named : Linking → List JobId
  | wiring dependencies => dependencies.filterMap fun d => d.wiring.found?
  | done (.ok jobs) => jobs
  | _ => []

/-- The jobs that an instantiation is about to visit. -/
def Instantiation.named : Instantiation → List JobId
  | walking walk => walk.stack
  | _ => []

/-- A job names jobs of the loader, and walks only with a unit. -/
structure Job.Fits (l : Loader) (job : Job) : Prop where
  linking : ∀ id ∈ job.linking.named, (l.job? id).isSome = true
  instantiation : ∀ id ∈ job.instantiation.named, (l.job? id).isSome = true
  unit : ∀ walk, job.instantiation = .walking walk → ∃ unit, job.preparation = .done (.ok unit)

namespace Job

variable {l l' : Loader} {job : Job}

theorem Later.isSome (h : l.Later l') {id : JobId} (hid : (l.job? id).isSome = true) :
    (l'.job? id).isSome = true := by
  obtain ⟨old, hold⟩ := Option.isSome_iff_exists.mp hid
  obtain ⟨new, hnew, -⟩ := h.job hold
  exact Option.isSome_iff_exists.mpr ⟨new, hnew⟩

theorem Fits.later (h : l.Later l') (hfits : job.Fits l) : job.Fits l' where
  linking id hid := Later.isSome h (hfits.linking id hid)
  instantiation id hid := Later.isSome h (hfits.instantiation id hid)
  unit := hfits.unit

/-- What is left on the stack of a walk is there. -/
theorem Fits.rest (h : job.Fits l) {walk : Walk} {next i : JobId} {rest : List JobId}
    (hwalking : job.instantiation = .walking walk) (hstack : walk.stack = next :: rest)
    (hi : i ∈ rest) : (l.job? i).isSome = true := by
  refine h.instantiation i ?_
  rw [hwalking]
  show i ∈ walk.stack
  rw [hstack]
  exact List.mem_cons_of_mem _ hi

theorem New.fits (h : job.New) (l : Loader) : job.Fits l where
  linking id hid := by rw [h.linking] at hid; cases hid
  instantiation id hid := by rw [h.instantiation] at hid; cases hid
  unit walk hwalk := by rw [h.instantiation] at hwalk; cases hwalk

end Job

/-- All jobs of the loader fit. -/
def Loader.AllFit (l : Loader) : Prop := ∀ id job, l.job? id = some job → job.Fits l

theorem Loader.AllFit.of_jobs {l l' : Loader} (h : l.AllFit) (hjobs : l'.jobs = l.jobs) : l'.AllFit := by
  have hsame : ∀ id, l'.job? id = l.job? id := fun id => by unfold ModuleMap.job?; rw [hjobs]
  intro id job hjob
  rw [hsame] at hjob
  obtain ⟨hlinking, hinstantiation, hunit⟩ := h id job hjob
  exact ⟨fun i hi => hsame i ▸ hlinking i hi, fun i hi => hsame i ▸ hinstantiation i hi, hunit⟩

namespace Machine

variable {m m' : Machine} {action : Action}

/-- One job is changed, and still fits. -/
theorem allFit_changeJob {l : Loader} (hl : l.AllFit) {id : JobId} {job : Job} {f : Job → Job}
    (hjob : l.job? id = some job) (hfits : (f job).Fits l) : (l.changeJob id f).AllFit := by
  have hsame : ∀ {job' : Job}, job'.Fits l → job'.Fits (l.changeJob id f) := by
    intro job' h
    have hthere : ∀ {i}, (l.job? i).isSome = true → ((l.changeJob id f).job? i).isSome = true := by
      intro i hi
      rw [Loader.job?_changeJob]
      split
      next => rwa [Option.isSome_map]
      next => exact hi
    exact ⟨fun i hi => hthere (h.linking i hi), fun i hi => hthere (h.instantiation i hi), h.unit⟩
  intro i job' hjob'
  rw [Loader.job?_changeJob] at hjob'
  split at hjob'
  next hid =>
    subst hid
    rw [hjob] at hjob'
    cases hjob'
    exact hsame hfits
  next => exact hsame (hl i job' hjob')

theorem allFit_serve (hm : m.loader.AllFit) (request : RequestId) (target : Resolved) :
    (m.serve request target).1.loader.AllFit := by
  intro i job hjob
  rcases job?_of_serve hjob with hold | ⟨-, -, preparation, rfl⟩
  · exact (hm i job hold).later (later_serve m request target)
  · exact Job.New.fits ⟨rfl, rfl, rfl⟩ _

/-- A link phase goes on to one that names jobs of the loader. -/
theorem allFit_setLinking (hm : m.loader.AllFit) {id : JobId} {job : Job} {p : Linking}
    (hjob : m.loader.job? id = some job)
    (hp : ∀ i ∈ p.named, (m.loader.job? i).isSome = true) : (m.setLinking id p).loader.AllFit :=
  allFit_changeJob hm hjob ⟨hp, (hm id job hjob).instantiation, (hm id job hjob).unit⟩

theorem named_modify {dependencies : List Dependency} {index : Nat} {wiring : Wiring} {id : JobId}
    (h : id ∈ (Linking.wiring (dependencies.modify index fun d => { d with wiring })).named) :
    id ∈ (Linking.wiring dependencies).named ∨ wiring.found? = some id := by
  obtain ⟨d, hd, hfound⟩ := List.mem_filterMap.mp h
  rcases mem_modify hd with ⟨k, -, hold⟩ | ⟨old, -, rfl⟩
  · exact .inl (List.mem_filterMap.mpr ⟨d, List.mem_of_getElem? hold, hfound⟩)
  · exact .inr hfound

/-- The jobs of dependencies that are all wired are named by them. -/
theorem named_of_wired {dependencies : List Dependency} {jobs : List JobId} {id : JobId}
    (h : (dependencies.mapM fun dependency => dependency.wiring.wired?) = some jobs)
    (hid : id ∈ jobs) : id ∈ (Linking.wiring dependencies).named := by
  have hin : some id ∈ jobs.map some := List.mem_map_of_mem hid
  rw [← map_eq_of_mapM h] at hin
  obtain ⟨d, hd, hwired⟩ := List.mem_map.mp hin
  refine List.mem_filterMap.mpr ⟨d, hd, ?_⟩
  rw [Wiring.wired?_eq_some.mp hwired]
  rfl

/-- A dependency gets further, to a job of the loader if to any. -/
theorem allFit_setWiring (hm : m.loader.AllFit) {id : JobId} {job : Job}
    {dependencies : List Dependency} {index : Nat} {wiring : Wiring}
    (hjob : m.loader.job? id = some job) (hwiring : job.linking = .wiring dependencies)
    (hfound : ∀ i, wiring.found? = some i → (m.loader.job? i).isSome = true) :
    (m.setWiring id dependencies index wiring).loader.AllFit := by
  refine allFit_setLinking hm hjob fun i hi => ?_
  rcases named_modify hi with hold | hnew
  · exact (hm id job hjob).linking i (hwiring ▸ hold)
  · exact hfound i hnew

/-- An instantiation goes on to a walk over jobs of the loader, or to something else. -/
theorem allFit_setInstantiation (hm : m.loader.AllFit) {id : JobId} {job : Job} {p : Instantiation}
    (hjob : m.loader.job? id = some job)
    (hp : ∀ i ∈ p.named, (m.loader.job? i).isSome = true)
    (hunit : ∀ walk, p = .walking walk → ∃ unit, job.preparation = .done (.ok unit)) :
    (m.setInstantiation id p).loader.AllFit :=
  allFit_changeJob hm hjob ⟨(hm id job hjob).linking, hp, hunit⟩

theorem allFit_finishPreparation (hm : m.loader.AllFit) {id : JobId} {job : Job} {url : Url}
    {source : Except LoadError String} (hjob : m.loader.job? id = some job)
    (hopen : ∀ result, job.preparation ≠ .done result) :
    (m.finishPreparation id url source).loader.AllFit := by
  refine allFit_changeJob hm hjob ⟨(hm id job hjob).linking, (hm id job hjob).instantiation,
    fun walk hwalk => ?_⟩
  obtain ⟨unit, hunit⟩ := (hm id job hjob).unit walk hwalk
  exact absurd hunit (hopen _)

theorem allFit_startEval (hm : m.loader.AllFit) (source : String) :
    (m.startEval source).loader.AllFit := by
  cases hfind : m.loader.find? Url.evalModule with
  | some id =>
    rw [startEval_loaded source hfind]
    exact hm.of_jobs rfl
  | none =>
    rw [(startEval_fresh source hfind).2]
    have hasked : ((m.supplied source).ask
        m.loader.resolver.settings.evalSpecifier none).1.loader.AllFit := hm.of_jobs rfl
    exact (allFit_serve hasked _ _).of_jobs rfl

/-- Jobs join a component, and the walk of its root is over. -/
theorem allFit_instantiateMembers (hm : m.loader.AllFit) {id : JobId} {unit : UnitId}
    {members : List JobId} (hlater : m.loader.Later (m.instantiateMembers id unit members).loader) :
    (m.instantiateMembers id unit members).loader.AllFit := by
  intro i job hjob
  rw [job?_instantiateMembers] at hjob
  obtain ⟨old, hold, rfl⟩ := Option.map_eq_some_iff.mp hjob
  have hfits := (hm i old hold).later hlater
  refine ⟨hfits.linking, ?_, ?_⟩
  · dsimp only
    split
    next => exact nofun
    next => exact hfits.instantiation
  · dsimp only
    split
    next => exact nofun
    next => exact hfits.unit

/-- Jobs go on to fit. -/
theorem Rule.fits (h : Rule m action m') (hr : m.loader.resolver.Sound)
    (hindexed : m.loader.Indexed) (hm : m.loader.AllFit) : m'.loader.AllFit := by
  have hlater := h.later hr
  cases h with
  | startEval source => exact allFit_startEval hm source
  | prepareHere hjob hidle =>
    exact allFit_finishPreparation hm hjob fun _ hdone => by rw [hidle] at hdone; cases hdone
  | @prepareFile id job path hjob hidle =>
    refine allFit_changeJob hm hjob ⟨(hm _ _ hjob).linking, (hm _ _ hjob).instantiation,
      fun walk hwalk => ?_⟩
    obtain ⟨unit, hunit⟩ := (hm _ _ hjob).unit walk hwalk
    rw [hidle] at hunit
    cases hunit
  | read hjob hreading =>
    exact allFit_finishPreparation hm hjob fun _ hdone => by rw [hreading] at hdone; cases hdone
  | linkUnprepared hjob => exact allFit_setLinking hm hjob nofun
  | linkRefused hjob => exact allFit_setLinking hm hjob nofun
  | linkBegun hjob =>
    refine allFit_setLinking hm hjob fun i hi => ?_
    obtain ⟨d, hd, hfound⟩ := List.mem_filterMap.mp hi
    obtain ⟨specifier, -, rfl⟩ := List.mem_map.mp hd
    cases hfound
  | @linkEnded id job dependencies jobs hjob hwiring hjobs =>
    refine allFit_setLinking hm hjob fun i hi => (hm id job hjob).linking i ?_
    rw [hwiring]
    exact named_of_wired hjobs hi
  | wireAsked hjob hwiring =>
    exact allFit_setWiring (m := (m.ask _ _).1) (hm.of_jobs rfl) hjob hwiring nofun
  | @wireDropped id index job dependencies _ hjob
  | @wireUnresolved id index job dependencies _ _ _ hjob
  | @wireUnprepared id index job dependencies _ _ _ hjob =>
    rw [failLinking_eq]
    have hgiven : (m.withResolver (m.loader.resolver.abandonAll dependencies)).loader.AllFit :=
      hm.of_jobs rfl
    exact allFit_setLinking hgiven hjob fun i hi => by cases hi
  | wireServed hjob hwiring =>
    refine allFit_setWiring (allFit_serve hm _ _) (job?_serve _ _ hjob) hwiring fun i hi => ?_
    cases hi
    exact isSome_serve hindexed _ _
  | wireEnded hjob hwiring hdep hlocated =>
    refine allFit_setWiring hm hjob hwiring fun i hi => (hm _ _ hjob).linking i ?_
    rw [hwiring]
    exact List.mem_filterMap.mpr ⟨_, List.mem_of_getElem? hdep, by rw [hlocated]; exact hi⟩
  | enterJoined hjob => exact allFit_setInstantiation hm hjob nofun nofun
  | enterUnprepared hjob => exact allFit_setInstantiation hm hjob nofun nofun
  | enterDropped hjob => exact allFit_setInstantiation hm hjob nofun nofun
  | enterWalk hjob _ _ hprepared =>
    refine allFit_setInstantiation hm hjob (fun i hi => ?_) fun _ _ => ⟨_, hprepared⟩
    cases List.mem_singleton.mp hi
    exact Option.isSome_of_eq_some hjob
  | walkPass hjob hwalking hstack =>
    exact allFit_setInstantiation hm hjob (fun i hi => (hm _ _ hjob).rest hwalking hstack hi)
      fun _ _ => (hm _ _ hjob).unit _ hwalking
  | walkVisit hjob hwalking hstack _ hlinked =>
    refine allFit_setInstantiation hm hjob (fun i hi => ?_) fun _ _ => (hm _ _ hjob).unit _ hwalking
    rcases List.mem_append.mp hi with hnew | hrest
    · obtain ⟨other, hother, hdone⟩ := Loader.linked?_eq_some.mp hlinked
      refine (hm _ _ hother).linking i ?_
      rw [hdone]
      exact (List.mem_filter.mp hnew).1
    · exact (hm _ _ hjob).rest hwalking hstack hrest
  | walkStopped hjob => exact allFit_setInstantiation hm hjob nofun nofun
  | walkJoined hjob => exact allFit_setInstantiation hm hjob nofun nofun
  | walkEnded => exact allFit_instantiateMembers hm hlater
  | callServed => exact (allFit_serve hm _ _).of_jobs rfl
  | callEnters hcall _ hjob => exact allFit_setInstantiation hm hjob nofun nofun
  | @callInstantiated call id wish =>
    have hjobs := congrArg (·.jobs) (loader_serveInstantiated m id wish)
    exact hm.of_jobs hjobs
  | _ => exact hm.of_jobs rfl

end Machine

/-! ## After a run -/

/-- What is named in a loader is there, and what is waited for can come. -/
structure Loader.Standing (l : Loader) : Prop where
  indexed : l.Indexed
  waiting : ∃ log, l.Waiting log
  staffed : l.resolver.Staffed
  heard : l.Heard
  fits : l.AllFit
  units : ∀ id job, l.job? id = some job → job.HasUnit
  served : ∀ (i : Nat) job wish, l.calls[i]? = some (.serving job wish) →
    (l.job? job).isSome = true

namespace Machine

variable {m m' : Machine} {action : Action}

/-- A call on a job is made on one that is there. -/
def Event.OnJob (m : Machine) : Event → Prop
  | .step (.start (.ask job _)) => (m.loader.job? job).isSome = true
  | _ => True

/-- All calls of a run that are made on jobs are made on jobs that are there. -/
def OnJobs : Machine → List Event → Prop
  | _, [] => True
  | m, event :: rest => event.OnJob m ∧ OnJobs (m.happen event) rest

theorem Rule.standing (h : Rule m action m') (hs : m.loader.Standing)
    (hjob : Event.OnJob m (.step action)) : m'.loader.Standing := by
  obtain ⟨log, hw⟩ := hs.waiting
  have hlater := h.later hw.sound
  refine ⟨h.mapStep.indexed hs.indexed, ⟨_, h.waiting hw⟩, h.resolver.staffed hw.sound hs.staffed,
    h.heard hs.indexed hw hs.heard, h.fits hw.sound hs.indexed hs.fits,
    h.forall_jobs (P := Job.HasUnit) (fun _ => Job.New.hasUnit) (fun _ _ => Job.Step.hasUnit) hs.units,
    fun i job wish hcall => ?_⟩
  rcases h.call hs.indexed hcall with hold | rfl | hnew
  · exact Job.Later.isSome hlater (hs.served i job wish hold)
  · exact Job.Later.isSome hlater hjob
  · exact hnew

theorem standing_fresh (host : Host) (settings : Settings) :
    (ofSettings host settings).loader.Standing where
  indexed := indexed_fresh host settings
  waiting := ⟨[], waiting_fresh host settings⟩
  staffed := Resolver.staffed_ofSettings settings
  heard := ⟨fun asker _ h => (by cases asker <;> cases h), fun _ _ h => (by cases h)⟩
  fits id job hjob := by cases hjob
  units id job hjob := by cases hjob
  served i job wish hcall := by cases hcall

theorem standing_happen (hs : m.loader.Standing) {event : Event} (hjob : event.OnJob m) :
    (m.happen event).loader.Standing := by
  cases event with
  | host host => exact hs
  | step action =>
    rcases m.happen_cases action with hsame | hrule
    · rw [hsame]
      exact hs
    · exact hrule.standing hs hjob

theorem standing_after (hs : m.loader.Standing) {events : List Event} (hjobs : OnJobs m events) :
    (m.after events).loader.Standing := by
  induction events generalizing m with
  | nil => exact hs
  | cons event rest ih => exact ih (standing_happen hs hjobs.1) hjobs.2

end Machine

end ModuleLoader
