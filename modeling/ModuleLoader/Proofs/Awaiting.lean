import ModuleLoader.Proofs.MapSteps
/-!
# Who waits for which request

A request for a job is made for one call or one dependency, which waits for its outcome and takes it
up in a step of its own.

Results:
1. `Rule.awaited`: after a step nobody waits for a request but who did before, or one who waits for
   the request that the step has made.
2. `Rule.taken`: whoever takes up a request waits for it no longer, and has got the job or the
   error.
-/
namespace ModuleLoader

/-! ## Who waits for which request -/

/-- Nobody waits in `l'` for a request for a job who did not wait for it in `l`. -/
def Loader.AwaitsLess (l l' : Loader) : Prop :=
  ∀ asker request, l'.awaited? asker = some request → l.awaited? asker = some request

/--
Nobody waits in `l'` for a request for a job who did not wait for it in `l`, except one who waits
for the newest request.
-/
def Loader.AwaitsNewest (l l' : Loader) : Prop :=
  ∃ newest : Asker, l.resolver.requests.size < l'.resolver.requests.size ∧
    ∀ asker request, l'.awaited? asker = some request →
      l.awaited? asker = some request ∨
        asker = newest ∧ request = ⟨l.resolver.requests.size⟩

namespace Loader

theorem AwaitsLess.trans {a b c : Loader} (h : a.AwaitsLess b) (h' : b.AwaitsLess c) :
    a.AwaitsLess c := fun asker request hr => h asker request (h' asker request hr)

/-- Whatever leaves calls and link phases alone leaves alone who waits. -/
theorem awaitsLess_of_linking {l l' : Loader} (calls : l'.calls = l.calls)
    (linking : ∀ i, (l'.job? i).map Job.linking = (l.job? i).map Job.linking) :
    l.AwaitsLess l' := by
  intro asker request h
  cases asker with
  | call call =>
    show (l.calls[call.index]?).bind _ = _
    rw [← calls]
    exact h
  | dependency id index =>
    show (l.job? id).bind ((Linking.awaited? index) ∘ Job.linking) = _
    rw [← Option.bind_map, ← linking, Option.bind_map]
    exact h

theorem awaitsLess_changeJob (l : Loader) (id : JobId) {f : Job → Job}
    (h : ∀ job, (f job).linking = job.linking) : l.AwaitsLess (l.changeJob id f) :=
  awaitsLess_of_linking rfl fun i => by
    rw [job?_changeJob]
    split
    next => rw [Option.map_map]; congr 1; funext job; exact h job
    next => rfl

end Loader

namespace Machine

variable {m m' : Machine} {action : Action}

/-- Who waits when the link phase of a job is changed. -/
theorem awaited?_setLinking (m : Machine) (id i : JobId) (p : Linking) (index : Nat) :
    (m.setLinking id p).loader.awaited? (.dependency i index) =
      if id = i then (m.loader.job? i).bind fun _ => p.awaited? index
      else m.loader.awaited? (.dependency i index) := by
  show ((Loader.changeJob _ _ _).job? i).bind _ = _
  rw [Loader.job?_changeJob]
  split
  next => rw [Option.bind_map]; rfl
  next => rfl

theorem awaitsLess_setLinking (m : Machine) (id : JobId) {p : Linking}
    (h : ∀ index, p.awaited? index = none) :
    m.loader.AwaitsLess (m.setLinking id p).loader := by
  intro asker request hr
  cases asker with
  | call call => exact hr
  | dependency i index =>
    rw [awaited?_setLinking] at hr
    split at hr
    next =>
      obtain ⟨_, _, hnone⟩ := Option.bind_eq_some_iff.mp hr
      rw [h index] at hnone
      cases hnone
    next => exact hr

theorem awaited?_modify (dependencies : List Dependency) (index k : Nat) (wiring : Wiring) :
    (Linking.wiring (dependencies.modify index fun d => { d with wiring })).awaited? k =
      if index = k then (dependencies[k]?).bind fun _ => match wiring with
        | .resolving request => some request
        | _ => none
      else (Linking.wiring dependencies).awaited? k := by
  show ((dependencies.modify index _)[k]?).bind _ = _
  rw [List.getElem?_modify]
  split
  next => cases dependencies[k]? <;> rfl
  next => cases hk : dependencies[k]? <;> simp only [Linking.awaited?, hk] <;> rfl

/-- Who waits when one dependency of a link phase has got further. -/
theorem awaited_setWiring {id : JobId} {job : Job} {dependencies : List Dependency} {index : Nat}
    {wiring : Wiring} (hjob : m.loader.job? id = some job)
    (hwiring : job.linking = .wiring dependencies) {asker : Asker} {request : RequestId}
    (h : (m.setWiring id dependencies index wiring).loader.awaited? asker = some request) :
    (asker ≠ .dependency id index ∧ m.loader.awaited? asker = some request) ∨
      (asker = .dependency id index ∧ wiring = .resolving request) := by
  cases asker with
  | call call => exact .inl ⟨nofun, h⟩
  | dependency i k =>
    unfold setWiring at h
    rw [awaited?_setLinking] at h
    split at h
    next hid =>
      subst hid
      obtain ⟨_, _, h⟩ := Option.bind_eq_some_iff.mp h
      rw [awaited?_modify] at h
      split at h
      next hk =>
        subst hk
        obtain ⟨_, _, h⟩ := Option.bind_eq_some_iff.mp h
        cases wiring with
        | resolving other => cases h; exact .inr ⟨rfl, rfl⟩
        | unasked => cases h
        | located _ => cases h
        | wired _ => cases h
      next hk =>
        refine .inl ⟨fun hne => hk (by cases hne; rfl), ?_⟩
        show (m.loader.job? id).bind _ = _
        rw [hjob]
        show Linking.awaited? k job.linking = _
        rw [hwiring]
        exact h
    next hid => exact .inl ⟨fun hne => hid (by cases hne; rfl), h⟩

theorem awaitsLess_setWiring {id : JobId} {job : Job} {dependencies : List Dependency}
    {index : Nat} {wiring : Wiring} (hjob : m.loader.job? id = some job)
    (hwiring : job.linking = .wiring dependencies)
    (h : ∀ request, wiring ≠ .resolving request) :
    m.loader.AwaitsLess (m.setWiring id dependencies index wiring).loader := by
  intro asker request hr
  rcases awaited_setWiring hjob hwiring hr with ⟨-, hold⟩ | ⟨-, hnew⟩
  · exact hold
  · exact absurd hnew (h request)

theorem awaited_setCall {call : CallId} {state : Call} {asker : Asker} {request : RequestId}
    (h : (m.setCall call state).loader.awaited? asker = some request) :
    (asker ≠ .call call ∧ m.loader.awaited? asker = some request) ∨
      (asker = .call call ∧ state.awaited? = some request) := by
  cases asker with
  | dependency i k => exact .inl ⟨nofun, h⟩
  | call other =>
    change ((m.loader.calls.setIfInBounds call.index state)[other.index]?).bind _ = _ at h
    rw [Array.getElem?_setIfInBounds] at h
    split at h
    next hi =>
      obtain ⟨i⟩ := call
      obtain ⟨j⟩ := other
      cases hi
      split at h
      next => exact .inr ⟨rfl, h⟩
      next => cases h
    next hi => exact .inl ⟨fun hne => hi (by cases hne; rfl), h⟩

theorem awaitsLess_setCall (m : Machine) (call : CallId) (state : Call)
    (h : state.awaited? = none) : m.loader.AwaitsLess (m.setCall call state).loader := by
  intro asker request hr
  rcases awaited_setCall hr with ⟨-, hold⟩ | ⟨-, hnew⟩
  · exact hold
  · rw [h] at hnew
    cases hnew

theorem awaited_pushCall {state : Call} {asker : Asker} {request : RequestId}
    (h : (m.pushCall state).loader.awaited? asker = some request) :
    m.loader.awaited? asker = some request ∨
      (asker = .call ⟨m.loader.calls.size⟩ ∧ state.awaited? = some request) := by
  cases asker with
  | dependency i k => exact .inl h
  | call other =>
    change ((m.loader.calls.push state)[other.index]?).bind _ = _ at h
    rw [Array.getElem?_push] at h
    split at h
    next hi =>
      obtain ⟨j⟩ := other
      cases hi
      exact .inr ⟨rfl, h⟩
    next => exact .inl h

theorem awaitsLess_pushCall (m : Machine) {state : Call} (h : state.awaited? = none) :
    m.loader.AwaitsLess (m.pushCall state).loader := by
  intro asker request hr
  rcases awaited_pushCall hr with hold | ⟨-, hnew⟩
  · exact hold
  · rw [h] at hnew
    cases hnew

theorem awaitsLess_serve (m : Machine) (request : RequestId) (target : Resolved) :
    m.loader.AwaitsLess (m.serve request target).1.loader := by
  intro asker other h
  cases asker with
  | call call =>
    show (m.loader.calls[call.index]?).bind _ = _
    rw [← calls_serve m request target]
    exact h
  | dependency id index =>
    obtain ⟨job, hjob, hawaited⟩ := Option.bind_eq_some_iff.mp h
    rcases job?_of_serve hjob with hold | ⟨-, -, preparation, rfl⟩
    · exact Option.bind_eq_some_iff.mpr ⟨job, hold, hawaited⟩
    · cases hawaited

theorem awaitsLess_instantiateMembers (m : Machine) (id : JobId) (unit : UnitId)
    (members : List JobId) :
    m.loader.AwaitsLess (m.instantiateMembers id unit members).loader := by
  have hjobs := fun i => job?_instantiateMembers m id unit members i
  obtain ⟨jobs, hloader⟩ := loader_instantiateMembers m id unit members
  rw [hloader] at hjobs ⊢
  refine Loader.awaitsLess_of_linking rfl fun i => ?_
  rw [hjobs, Option.map_map]
  rfl

theorem awaitsLess_failLinking (m : Machine) (id : JobId) (dependencies : List Dependency)
    (e : LoadError) : m.loader.AwaitsLess (m.failLinking id dependencies e).loader := by
  rw [failLinking_eq]
  exact awaitsLess_setLinking (m.withResolver _) id fun _ => rfl

theorem awaitsLess_startEval (m : Machine) (source : String) :
    m.loader.AwaitsLess (m.startEval source).loader := by
  cases hfind : m.loader.find? Url.evalModule with
  | some id =>
    rw [startEval_loaded source hfind]
    exact awaitsLess_pushCall m rfl
  | none =>
    rw [(startEval_fresh source hfind).2]
    have hask : m.loader.AwaitsLess
        ((m.supplied source).ask m.loader.resolver.settings.evalSpecifier none).1.loader :=
      fun _ _ h => h
    exact (hask.trans (awaitsLess_serve _ _ _)).trans (awaitsLess_pushCall _ rfl)

theorem awaitsNewest_pushCall (m : Machine) (specifier : String) (referrer : Option Url)
    {state : Call} (h : ∀ request, state.awaited? = some request →
      request = ⟨m.loader.resolver.requests.size⟩) :
    m.loader.AwaitsNewest ((m.ask specifier referrer).1.pushCall state).loader := by
  refine ⟨.call ⟨m.loader.calls.size⟩, ?_, fun asker request hr => ?_⟩
  · show _ < (m.loader.resolver.requests.push _).size
    rw [Array.size_push]
    exact Nat.lt_succ_self _
  · rcases awaited_pushCall hr with hold | ⟨hcall, hnew⟩
    · exact .inl hold
    · exact .inr ⟨hcall, h request hnew⟩

/-- A step lets nobody wait for a request but one, for the newest one. -/
theorem Rule.awaited (h : Rule m action m') :
    m.loader.AwaitsLess m'.loader ∨
      m.loader.AwaitsNewest m'.loader ∧ m.taken? action = none := by
  cases h with
  | startResolve specifier referrer =>
    exact .inl (awaitsLess_pushCall (m.ask specifier referrer).1 rfl)
  | startFind specifier referrer wish =>
    exact .inr ⟨awaitsNewest_pushCall m specifier referrer fun _ h => by cases h; rfl, rfl⟩
  | startEval source => exact .inl (awaitsLess_startEval m source)
  | startAsk => exact .inl (awaitsLess_pushCall m rfl)
  | supply | acquire | answer => exact .inl fun _ _ h => h
  | prepareHere | prepareFile | read =>
    exact .inl (m.loader.awaitsLess_changeJob _ fun _ => rfl)
  | linkUnprepared | linkRefused | linkEnded =>
    exact .inl (awaitsLess_setLinking m _ fun _ => rfl)
  | linkBegun =>
    refine .inl (awaitsLess_setLinking m _ fun index => ?_)
    show ((List.map _ _)[index]?).bind _ = none
    rw [List.getElem?_map, Option.bind_map, Option.bind_eq_none_iff]
    intro _ _
    rfl
  | @wireAsked id index job dependencies dependency hjob hwiring hdep hunasked =>
    refine .inr ⟨⟨.dependency id index, ?_, fun asker request hr => ?_⟩,
      taken_of_not_resolving hjob hwiring hdep (by simp [hunasked])⟩
    · show _ < (m.loader.resolver.requests.push _).size
      rw [Array.size_push]
      exact Nat.lt_succ_self _
    · rcases awaited_setWiring (m := (m.ask _ _).1) hjob hwiring hr with ⟨-, hold⟩ | ⟨hasker, hnew⟩
      · exact .inl hold
      · cases hnew
        exact .inr ⟨hasker, rfl⟩
  | wireDropped | wireUnresolved | wireUnprepared => exact .inl (awaitsLess_failLinking m _ _ _)
  | wireServed hjob hwiring =>
    exact .inl ((awaitsLess_serve m _ _).trans
      (awaitsLess_setWiring (job?_serve _ _ hjob) hwiring nofun))
  | wireEnded hjob hwiring => exact .inl (awaitsLess_setWiring hjob hwiring nofun)
  | enterJoined | enterUnprepared | enterWalk | enterDropped | walkPass | walkVisit
  | walkStopped | walkJoined | callEnters =>
    exact .inl (m.loader.awaitsLess_changeJob _ fun _ => rfl)
  | walkEnded => exact .inl (awaitsLess_instantiateMembers m _ _ _)
  | callResolved | callUnresolved | callFailed | callAnswered =>
    exact .inl (awaitsLess_setCall m _ _ rfl)
  | callServed => exact .inl ((awaitsLess_serve m _ _).trans (awaitsLess_setCall _ _ _ rfl))
  | @callInstantiated call id wish =>
    have hless := awaitsLess_setCall (m.serveInstantiated id wish).1 call
      (.answered (m.serveInstantiated id wish).2) rfl
    rw [loader_serveInstantiated] at hless
    exact .inl hless

/-- What a step takes up was waited for, or is the request of an eval call. -/
theorem taken_cases {request : RequestId} {outcome : Except LoadError Resolved}
    (h : m.taken? action = some (request, outcome)) :
    (∃ asker, m.asker? action = some asker ∧ m.loader.awaited? asker = some request ∧
      m.loader.resolver.outcome? request = some outcome) ∨
    (∃ source, action = .start (.eval source) ∧ m.loader.find? Url.evalModule = none ∧
      request = ⟨m.loader.resolver.requests.size⟩ ∧ outcome = .ok ⟨Url.evalModule, .js⟩) := by
  unfold taken? at h
  split at h
  next source =>
    split at h
    next => cases h
    next hfind => cases h; exact .inr ⟨source, rfl, hfind, rfl, rfl⟩
  next =>
    obtain ⟨other, hawaited, h⟩ := Option.bind_eq_some_iff.mp h
    obtain ⟨asker, hasker, hawaited⟩ := Option.bind_eq_some_iff.mp hawaited
    obtain ⟨_, houtcome, h⟩ := Option.map_eq_some_iff.mp h
    cases h
    exact .inl ⟨asker, hasker, hawaited, houtcome⟩

/-- What somebody gets whose request has this outcome. -/
def Answers (m : Machine) (asker : Asker) : Except LoadError Resolved → Prop
  | .ok target => ∃ id, m.loader.given? asker = some id ∧ m.loader.find? target.url = some id
  | .error e => m.loader.refused? asker = some e

theorem find?_serve (m : Machine) (request : RequestId) (target : Resolved) :
    (m.serve request target).1.loader.find? target.url = some (m.serve request target).2 := by
  obtain ⟨id, hfind, hserved⟩ := (mapStep_serve m request target).find?
  rw [serve_job] at hserved
  have hid := List.append_cancel_left hserved
  cases hid
  exact hfind

theorem calls_setCall {call : CallId} {old : Call} (state : Call)
    (h : m.loader.calls[call.index]? = some old) :
    (m.setCall call state).loader.calls[call.index]? = some state := by
  show (m.loader.calls.setIfInBounds call.index state)[call.index]? = _
  rw [Array.getElem?_setIfInBounds_self_of_lt (Array.getElem?_eq_some_iff.mp h).1]

theorem awaited?_call {call : CallId} {state : Call}
    (h : m.loader.calls[call.index]? = some state) :
    m.loader.awaited? (.call call) = state.awaited? := by
  show Option.bind _ _ = _
  rw [h]
  rfl

theorem given?_serving {call : CallId} {id : JobId} {wish : Wish}
    (h : m.loader.calls[call.index]? = some (.serving id wish)) :
    m.loader.given? (.call call) = some id := by
  show Option.bind _ _ = _
  rw [h]
  rfl

theorem refused?_answered {call : CallId} {e : LoadError}
    (h : m.loader.calls[call.index]? = some (.answered (.error e))) :
    m.loader.refused? (.call call) = some e := by
  show Option.bind _ _ = _
  rw [h]
  rfl

theorem job?_failLinking {id : JobId} {job : Job} (dependencies : List Dependency) (e : LoadError)
    (h : m.loader.job? id = some job) :
    (m.failLinking id dependencies e).loader.job? id =
      some { job with linking := .done (.error e) } := by
  rw [failLinking_eq]
  exact Loader.job?_changeJob_self (l := (m.withResolver _).loader)
    (fun job => { job with linking := .done (.error e) }) h

theorem job?_setWiring {id : JobId} {job : Job} (dependencies : List Dependency) (index : Nat)
    (wiring : Wiring) (h : m.loader.job? id = some job) :
    (m.setWiring id dependencies index wiring).loader.job? id =
      some { job with linking := .wiring (dependencies.modify index fun d => { d with wiring }) } :=
  Loader.job?_changeJob_self
    (fun job =>
      { job with linking := .wiring (dependencies.modify index fun d => { d with wiring }) }) h

theorem taken_startEval {source : String} {request : RequestId}
    {outcome : Except LoadError Resolved}
    (htaken : m.taken? (.start (.eval source)) = some (request, outcome)) :
    (m.startEval source).loader.awaited? (.call ⟨m.loader.calls.size⟩) = none ∧
      (m.startEval source).Answers (.call ⟨m.loader.calls.size⟩) outcome := by
  obtain ⟨asker, hasker, hawaited, -⟩ | ⟨_, -, hfind, rfl, rfl⟩ := taken_cases htaken
  · -- the call of an eval is only made now, and nobody waits in its name
    cases hasker
    obtain ⟨state, hstate, -⟩ := Option.bind_eq_some_iff.mp hawaited
    exact absurd (Array.getElem?_eq_some_iff.mp hstate).1 (Nat.lt_irrefl _)
  · rw [(startEval_fresh source hfind).2]
    generalize hasked :
      (m.supplied source).ask m.loader.resolver.settings.evalSpecifier none = asked
    have hcalls :
        (asked.1.serve asked.2 ⟨Url.evalModule, .js⟩).1.loader.calls = m.loader.calls := by
      rw [calls_serve, ← hasked]
      rfl
    have hpushed : ((asked.1.serve asked.2 ⟨Url.evalModule, .js⟩).1.pushCall
        (.serving (asked.1.serve asked.2 ⟨Url.evalModule, .js⟩).2 .completion)).loader.calls[
          m.loader.calls.size]? =
        some (.serving (asked.1.serve asked.2 ⟨Url.evalModule, .js⟩).2 .completion) := by
      show (Array.push _ _)[_]? = _
      rw [hcalls, Array.getElem?_push_size]
    exact ⟨awaited?_call hpushed, _, given?_serving hpushed, find?_serve _ _ _⟩

/--
One for whom a step takes up a request gets the job of the URL or the error, and does not wait for
the request any more.
-/
theorem Rule.taken (h : Rule m action m') {request : RequestId}
    {outcome : Except LoadError Resolved} (htaken : m.taken? action = some (request, outcome)) :
    ∃ asker, m.asker? action = some asker ∧ m'.loader.awaited? asker = none ∧
      m'.Answers asker outcome := by
  cases h with
  | startEval source => exact ⟨_, rfl, taken_startEval htaken⟩
  | @wireUnresolved id index job dependencies dependency other e hjob hwiring hdep hresolving
      houtcome =>
    rw [taken_of_resolving hjob hwiring hdep hresolving houtcome] at htaken
    cases htaken
    have hdone := job?_failLinking dependencies e hjob
    refine ⟨.dependency id index, rfl, ?_, ?_⟩
    · exact Option.bind_eq_none_iff.mpr fun _ h => by rw [hdone] at h; cases h; rfl
    · show (Loader.linked? _ id).bind _ = _
      rw [Loader.linked?_eq_some.mpr ⟨_, hdone, rfl⟩]
      rfl
  | @wireServed id index job dependencies dependency other target hjob hwiring hdep hresolving
      houtcome =>
    rw [taken_of_resolving hjob hwiring hdep hresolving houtcome] at htaken
    cases htaken
    have hset := job?_setWiring dependencies index (.located (m.serve request target).2)
      (job?_serve request target hjob)
    refine ⟨.dependency id index, rfl, ?_, (m.serve request target).2, ?_, ?_⟩
    · refine Option.bind_eq_none_iff.mpr fun _ h => ?_
      rw [hset] at h
      cases h
      rw [awaited?_modify, if_pos rfl, hdep]
      rfl
    · refine Option.bind_eq_some_iff.mpr ⟨_, hset, ?_⟩
      simp only [List.getElem?_modify, hdep, if_true]
      rfl
    · exact ((sameMap_setLinking _ _ _).find? _).trans
        (find?_serve m request target)
  | @callUnresolved call other wish e hcall houtcome =>
    rw [taken_of_locating hcall houtcome] at htaken
    cases htaken
    have hset := calls_setCall (.answered (.error e)) hcall
    exact ⟨.call call, rfl, awaited?_call hset, refused?_answered hset⟩
  | @callServed call other wish target hcall houtcome =>
    rw [taken_of_locating hcall houtcome] at htaken
    cases htaken
    have hset := calls_setCall (.serving (m.serve request target).2 wish)
      (m := (m.serve request target).1) (by rw [calls_serve]; exact hcall)
    exact ⟨.call call, rfl, awaited?_call hset, _, given?_serving hset,
      find?_serve m request target⟩
  | callResolved hcall | callEnters hcall | callFailed hcall | callAnswered hcall
  | callInstantiated hcall =>
    rw [taken_of_not_locating hcall rfl] at htaken
    cases htaken
  | wireAsked hjob hwiring hdep hother | wireDropped hjob hwiring hdep hother
  | wireUnprepared hjob hwiring hdep hother | wireEnded hjob hwiring hdep hother =>
    rw [taken_of_not_resolving hjob hwiring hdep (by simp [hother])] at htaken
    cases htaken
  | _ => cases htaken

theorem Rule.taken_outcome (h : Rule m action m') (hr : m.loader.resolver.Sound)
    {request : RequestId} {outcome : Except LoadError Resolved}
    (htaken : m.taken? action = some (request, outcome)) :
    m'.loader.resolver.outcome? request = some outcome := by
  rcases taken_cases htaken with ⟨_, -, -, houtcome⟩ | ⟨source, rfl, hfind, rfl, rfl⟩
  · exact (h.resolver.extends hr).outcome request outcome houtcome
  · cases h
    obtain ⟨houtcome, hm⟩ := startEval_fresh source hfind
    rw [hm]
    show (serve _ _ _).1.loader.resolver.outcome? _ = _
    rw [resolver_serve]
    exact houtcome

end Machine

end ModuleLoader
