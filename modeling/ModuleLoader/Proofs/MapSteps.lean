import ModuleLoader.Proofs.Keeping
/-!
# One step of the map of modules

Calls and link phases request jobs. A request may take many steps, since it asks the file system,
and in between others may request the same URL. The map is looked into, and filled, in one step,
which is the one in which somebody takes up the outcome of a request.

Results:
1. `taken?`, `resolutions`: the request that a step takes up.
2. `MapStep.find?`: what the map says of a URL after one more request.
3. `Indexed`, `MapStep.indexed`: the jobs carry their own places, and the index leads from each URL
   to its job; this is what a step of the map keeps.
4. `Rule.mapStep`: a step takes up one successful request, which the map answers with the job that
   it has for the URL or with a new one behind all others, or it leaves the map as it is.
-/
namespace ModuleLoader

/-! ## Requests for jobs -/

/-- Whoever requests a job: a call that looks for one, or a dependency of a link phase. -/
inductive Asker
  | call (call : CallId)
  | dependency (job : JobId) (index : Nat)
deriving DecidableEq

def Call.awaited? : Call → Option RequestId
  | .locating request _ => some request
  | _ => none

def Linking.awaited? (index : Nat) : Linking → Option RequestId
  | .wiring dependencies => (dependencies[index]?).bind fun d =>
    match d.wiring with
    | .resolving request => some request
    | _ => none
  | _ => none

namespace Loader

/-- The request for a job that somebody waits for. -/
def awaited? (l : Loader) : Asker → Option RequestId
  | .call call => (l.calls[call.index]?).bind Call.awaited?
  | .dependency id index => (l.job? id).bind fun job => job.linking.awaited? index

/-- The job that somebody has got. -/
def given? (l : Loader) : Asker → Option JobId
  | .call call => (l.calls[call.index]?).bind fun
    | .serving job _ => some job
    | _ => none
  | .dependency id index => (l.job? id).bind fun job =>
    match job.linking with
    | .wiring dependencies => (dependencies[index]?).bind fun d =>
      match d.wiring with
      | .located found => some found
      | _ => none
    | _ => none

/-- The error with which the request of somebody has ended. -/
def refused? (l : Loader) : Asker → Option LoadError
  | .call call => (l.calls[call.index]?).bind fun
    | .answered (.error e) => some e
    | _ => none
  | .dependency id _ => (l.linked? id).bind fun
    | .error e => some e
    | .ok _ => none

/-- What the map says of each job, in the order in which the jobs were made. -/
def entries (l : Loader) : Array Resolved := l.jobs.map fun job => ⟨job.url, job.format⟩

/-- The ids that the jobs carry, in the same order. -/
def ids (l : Loader) : Array JobId := l.jobs.map Job.id

end Loader

namespace Machine

/-- The one for whom a step goes on with a request. -/
def asker? (m : Machine) : Action → Option Asker
  | .start (.eval _) => some (.call ⟨m.loader.calls.size⟩)
  | .advance call => some (.call call)
  | .wire id index => some (.dependency id index)
  | _ => none

/--
The request for a job that a step takes up, with its outcome. An eval call requests the eval module
and takes up the outcome at once, unless there is an eval module already.
-/
def taken? (m : Machine) (action : Action) : Option (RequestId × Except LoadError Resolved) :=
  match action with
  | .start (.eval _) =>
    match m.loader.find? Url.evalModule with
    | some _ => none
    | none => some (⟨m.loader.resolver.requests.size⟩, .ok ⟨Url.evalModule, .js⟩)
  | _ =>
    ((m.asker? action).bind m.loader.awaited?).bind fun request =>
      (m.loader.resolver.outcome? request).map (request, ·)

/-- The requests for jobs whose resolution a step finds to have succeeded: one or none. -/
def resolutions (m : Machine) (action : Action) : List (RequestId × Resolved) :=
  match m.taken? action with
  | some (request, .ok target) => [(request, target)]
  | _ => []

end Machine

/-! ## One step of the map -/

/-- Two loaders with the same jobs, filed under the same URLs. -/
structure Loader.SameJobs (l l' : Loader) : Prop where
  entries : l'.entries = l.entries
  ids : l'.ids = l.ids
  byUrl : l'.byUrl = l.byUrl

/-- Two loaders with the same map and the same counters. -/
structure Loader.SameMap (l l' : Loader) : Prop extends l.SameJobs l' where
  hits : l'.hits = l.hits
  misses : l'.misses = l.misses
  served : l'.served = l.served

/-- One job more, behind all others: it carries the next id, and is filed under its URL. -/
structure Loader.Inserts (l : Loader) (target : Resolved) (l' : Loader) : Prop where
  entries : l'.entries = l.entries.push target
  ids : l'.ids = l.ids.push l.nextId
  byUrl : l'.byUrl = (target.url, l.nextId) :: l.byUrl

/-- How the map goes on when some requests are taken up that succeeded. -/
inductive Loader.MapStep (l : Loader) : List (RequestId × Resolved) → Loader → Prop
  | kept {l' : Loader} : l.SameMap l' → l.MapStep [] l'
  | hit {l' : Loader} {request : RequestId} {target : Resolved} {id : JobId} :
      l.find? target.url = some id →
      l.SameJobs l' → l'.hits = l.hits + 1 → l'.misses = l.misses →
      l'.served = l.served ++ [(request, id)] → l.MapStep [(request, target)] l'
  | miss {l' : Loader} {request : RequestId} {target : Resolved} :
      l.find? target.url = none →
      l.Inserts target l' → l'.hits = l.hits → l'.misses = l.misses + 1 →
      l'.served = l.served ++ [(request, l.nextId)] → l.MapStep [(request, target)] l'

namespace Loader

theorem size_entries (l : Loader) : l.entries.size = l.jobs.size := Array.size_map

theorem getElem?_entries (l : Loader) (i : Nat) :
    l.entries[i]? = (l.jobs[i]?).map fun job => ⟨job.url, job.format⟩ := Array.getElem?_map

theorem getElem?_ids (l : Loader) (i : Nat) : l.ids[i]? = (l.jobs[i]?).map Job.id :=
  Array.getElem?_map

/-- What the map says of a URL is a matter of the index alone. -/
theorem find?_of_byUrl {l l' : Loader} (h : l'.byUrl = l.byUrl) (url : Url) :
    l'.find? url = l.find? url := congrArg (List.lookup url) h

theorem SameJobs.trans {a b c : Loader} (h : a.SameJobs b) (h' : b.SameJobs c) : a.SameJobs c :=
  ⟨h'.entries.trans h.entries, h'.ids.trans h.ids, h'.byUrl.trans h.byUrl⟩

theorem SameMap.trans {a b c : Loader} (h : a.SameMap b) (h' : b.SameMap c) : a.SameMap c :=
  ⟨h.toSameJobs.trans h'.toSameJobs, h'.hits.trans h.hits, h'.misses.trans h.misses,
    h'.served.trans h.served⟩

theorem SameJobs.find? {l l' : Loader} (h : l.SameJobs l') (url : Url) :
    l'.find? url = l.find? url := find?_of_byUrl h.byUrl url

theorem SameJobs.nextId {l l' : Loader} (h : l.SameJobs l') : l'.nextId = l.nextId := by
  unfold ModuleMap.nextId
  rw [← size_entries, ← size_entries, h.entries]

theorem Inserts.trans_sameJobs {l l' l'' : Loader} {target : Resolved} (h : l.Inserts target l')
    (h' : l'.SameJobs l'') : l.Inserts target l'' :=
  ⟨h'.entries.trans h.entries, h'.ids.trans h.ids, h'.byUrl.trans h.byUrl⟩

theorem SameJobs.trans_inserts {l l' l'' : Loader} {target : Resolved} (h : l.SameJobs l')
    (h' : l'.Inserts target l'') : l.Inserts target l'' :=
  ⟨by rw [h'.entries, h.entries], by rw [h'.ids, h.ids, h.nextId], by
    rw [h'.byUrl, h.byUrl, h.nextId]⟩

/-- The index after a job was filed. -/
theorem Inserts.find? {l l' : Loader} {target : Resolved} (h : l.Inserts target l') (url : Url) :
    l'.find? url = if url = target.url then some l.nextId else l.find? url := by
  show l'.byUrl.lookup url = _
  rw [h.byUrl, List.lookup_cons]
  by_cases hurl : url = target.url
  · rw [if_pos hurl, beq_iff_eq.mpr hurl]
  · rw [if_neg hurl, beq_eq_false_iff_ne.mpr hurl]
    rfl

/-- Where there was none, the other URLs keep their jobs. -/
theorem Inserts.find?_mono {l l' : Loader} {target : Resolved} (h : l.Inserts target l')
    (hnone : l.find? target.url = none) {url : Url} {id : JobId} (hfind : l.find? url = some id) :
    l'.find? url = some id := by
  have hne : url ≠ target.url := by
    rintro rfl
    cases hnone.symm.trans hfind
  rw [h.find?, if_neg hne, hfind]

theorem sameMap_of_jobs {l l' : Loader} (byUrl : l'.byUrl = l.byUrl) (hits : l'.hits = l.hits)
    (misses : l'.misses = l.misses) (served : l'.served = l.served)
    (job : ∀ i, (l'.job? i).map (fun job => (job.id, Resolved.mk job.url job.format)) =
      (l.job? i).map fun job => (job.id, Resolved.mk job.url job.format)) : l.SameMap l' := by
  refine ⟨⟨Array.ext_getElem? fun i => ?_, Array.ext_getElem? fun i => ?_, byUrl⟩, hits, misses,
    served⟩
  · have hentry := congrArg (Option.map Prod.snd) (job ⟨i⟩)
    rw [Option.map_map, Option.map_map] at hentry
    rw [getElem?_entries, getElem?_entries]
    exact hentry
  · have hid := congrArg (Option.map Prod.fst) (job ⟨i⟩)
    rw [Option.map_map, Option.map_map] at hid
    rw [getElem?_ids, getElem?_ids]
    exact hid

/-- A change of a job that leaves its id, URL and format alone is none to the map. -/
theorem sameMap_changeJob (l : Loader) (id : JobId) {f : Job → Job}
    (h : ∀ job, (f job).id = job.id ∧ (f job).url = job.url ∧ (f job).format = job.format) :
    l.SameMap (l.changeJob id f) :=
  sameMap_of_jobs rfl rfl rfl rfl fun i => by
    rw [job?_changeJob]
    split
    next =>
      rw [Option.map_map]
      congr 1
      funext job
      simp only [Function.comp_apply, (h job).1, (h job).2.1, (h job).2.2]
    next => rfl

theorem MapStep.trans_sameMap {l l' l'' : Loader} {resolved : List (RequestId × Resolved)}
    (h : l.MapStep resolved l') (h' : l'.SameMap l'') : l.MapStep resolved l'' := by
  cases h with
  | kept h => exact .kept (h.trans h')
  | hit hfind hjobs hhits hmisses hserved =>
    exact .hit hfind (hjobs.trans h'.toSameJobs) (h'.hits.trans hhits) (h'.misses.trans hmisses)
      (h'.served.trans hserved)
  | miss hfind hinserts hhits hmisses hserved =>
    exact .miss hfind (hinserts.trans_sameJobs h'.toSameJobs) (h'.hits.trans hhits)
      (h'.misses.trans hmisses) (h'.served.trans hserved)

theorem MapStep.find? {l l' : Loader} {request : RequestId} {target : Resolved}
    (h : l.MapStep [(request, target)] l') :
    ∃ id, l'.find? target.url = some id ∧ l'.served = l.served ++ [(request, id)] := by
  cases h with
  | hit hfind hjobs _ _ hserved => exact ⟨_, (hjobs.find? _).trans hfind, hserved⟩
  | miss _ hinserts _ _ hserved => exact ⟨_, by rw [hinserts.find?, if_pos rfl], hserved⟩

/-- A URL keeps its job. -/
theorem MapStep.find?_mono {l l' : Loader} {resolved : List (RequestId × Resolved)}
    (h : l.MapStep resolved l') {url : Url} {id : JobId} (hfind : l.find? url = some id) :
    l'.find? url = some id := by
  cases h with
  | kept h => exact (h.find? url).trans hfind
  | hit _ hjobs => exact (hjobs.find? url).trans hfind
  | miss hnone hinserts => exact hinserts.find?_mono hnone hfind

theorem SameMap.mapStep_trans {l l' l'' : Loader} {resolved : List (RequestId × Resolved)}
    (h : l.SameMap l') (h' : l'.MapStep resolved l'') : l.MapStep resolved l'' := by
  cases h' with
  | kept h' => exact .kept (h.trans h')
  | hit hfind hjobs hhits hmisses hserved =>
    exact .hit ((h.find? _).symm.trans hfind) (h.toSameJobs.trans hjobs) (by rw [hhits, h.hits])
      (hmisses.trans h.misses) (by rw [hserved, h.served])
  | miss hfind hinserts hhits hmisses hserved =>
    exact .miss ((h.find? _).symm.trans hfind) (h.toSameJobs.trans_inserts hinserts)
      (hhits.trans h.hits) (by rw [hmisses, h.misses]) (by rw [hserved, h.served, h.nextId])

/-! ### The index -/

/-- The jobs and the index of their URLs say the same. -/
structure Indexed (l : Loader) : Prop where
  /-- Every job carries its own place. -/
  ids : ∀ (i : Nat) id, l.ids[i]? = some id → id = ⟨i⟩
  /-- Every job is filed under its URL. -/
  keyed : ∀ (i : Nat) entry, l.entries[i]? = some entry → l.find? entry.url = some ⟨i⟩
  /-- Whatever is filed is the job for that URL. -/
  found : ∀ url id, l.find? url = some id →
    ∃ entry, l.entries[id.index]? = some entry ∧ entry.url = url
  keys : (l.byUrl.map Prod.fst).Nodup
  size : l.byUrl.length = l.entries.size

variable {l l' : Loader} {resolved : List (RequestId × Resolved)} {target : Resolved}

theorem Indexed.job_of_find? (h : l.Indexed) {url : Url} {id : JobId}
    (hfind : l.find? url = some id) : ∃ job, l.job? id = some job ∧ job.url = url := by
  obtain ⟨entry, hentry, hurl⟩ := h.found url id hfind
  rw [getElem?_entries] at hentry
  obtain ⟨job, hjob, rfl⟩ := Option.map_eq_some_iff.mp hentry
  exact ⟨job, hjob, hurl⟩

theorem Indexed.find?_of_job? (h : l.Indexed) {id : JobId} {job : Job}
    (hjob : l.job? id = some job) : l.find? job.url = some id := by
  refine h.keyed id.index ⟨job.url, job.format⟩ ?_
  rw [getElem?_entries]
  exact Option.map_eq_some_iff.mpr ⟨job, hjob, rfl⟩

theorem Indexed.id_of_job? (h : l.Indexed) {id : JobId} {job : Job}
    (hjob : l.job? id = some job) : job.id = id := by
  refine h.ids id.index job.id ?_
  rw [getElem?_ids]
  exact Option.map_eq_some_iff.mpr ⟨job, hjob, rfl⟩

theorem Indexed.sameJobs (h : l.Indexed) (hsame : l.SameJobs l') : l'.Indexed where
  ids i id hid := h.ids i id (hsame.ids ▸ hid)
  keyed i entry hentry := (hsame.find? _).trans (h.keyed i entry (hsame.entries ▸ hentry))
  found url id hfind := by
    rw [hsame.entries]
    exact h.found url id ((hsame.find? url).symm.trans hfind)
  keys := by
    rw [hsame.byUrl]
    exact h.keys
  size := by
    rw [hsame.byUrl, hsame.entries]
    exact h.size

/-- A job may be added for a URL that has none. -/
theorem Indexed.inserts (h : l.Indexed) (hnone : l.find? target.url = none)
    (hinserts : l.Inserts target l') : l'.Indexed where
  ids i id hid := by
    rw [hinserts.ids, Array.getElem?_push] at hid
    split at hid
    next hi =>
      cases hid
      rw [hi]
      exact congrArg JobId.mk Array.size_map.symm
    next => exact h.ids i id hid
  keyed i entry hentry := by
    rw [hinserts.entries, Array.getElem?_push] at hentry
    split at hentry
    next hi =>
      cases hentry
      rw [hinserts.find?, if_pos rfl, hi, size_entries]
      rfl
    next => exact hinserts.find?_mono hnone (h.keyed i entry hentry)
  found url id hfind := by
    rw [hinserts.find?] at hfind
    rw [hinserts.entries, Array.getElem?_push]
    split at hfind
    next hurl =>
      cases hfind
      exact ⟨target, if_pos (size_entries l).symm, hurl.symm⟩
    next =>
      obtain ⟨entry, hentry, hurl⟩ := h.found url id hfind
      have hlt := (Array.getElem?_eq_some_iff.mp hentry).1
      exact ⟨entry, by rw [if_neg (Nat.ne_of_lt hlt), hentry], hurl⟩
  keys := by
    rw [hinserts.byUrl, List.map_cons, List.nodup_cons]
    refine ⟨fun hin => ?_, h.keys⟩
    obtain ⟨filed, hfiled, hurl⟩ := List.mem_map.mp hin
    have hne := List.lookup_eq_none_iff.mp hnone filed hfiled
    exact absurd hurl.symm (by simpa using hne)
  size := by
    rw [hinserts.byUrl, hinserts.entries, List.length_cons, Array.size_push, h.size]

theorem MapStep.indexed (h : l.Indexed) (hstep : l.MapStep resolved l') : l'.Indexed := by
  cases hstep with
  | kept hsame => exact h.sameJobs hsame.toSameJobs
  | hit _ hsame => exact h.sameJobs hsame
  | miss hnone hinserts => exact h.inserts hnone hinserts

end Loader

namespace Machine

variable {m m' : Machine} {action : Action}

theorem indexed_fresh (host : Host) (settings : Settings) :
    (ofSettings host settings).loader.Indexed where
  ids i id h := by
    rw [Loader.getElem?_ids] at h
    cases h
  keyed i entry h := by
    rw [Loader.getElem?_entries] at h
    cases h
  found url id h := by cases h
  keys := List.nodup_nil
  size := (Loader.size_entries (.ofSettings settings)).symm

theorem mapStep_serve (m : Machine) (request : RequestId) (target : Resolved) :
    m.loader.MapStep [(request, target)] (m.serve request target).1.loader := by
  cases hfind : m.loader.find? target.url with
  | some id =>
    rw [serve_hit request hfind]
    exact .hit hfind ⟨rfl, rfl, rfl⟩ rfl rfl rfl
  | none =>
    obtain ⟨host, preparation, hmake⟩ := m.exists_makeJob target
    rw [serve_miss request hfind, hmake]
    exact .miss hfind ⟨Array.map_push .., Array.map_push .., rfl⟩ rfl rfl rfl

/-- Served is the job that the map has for the URL afterwards. -/
theorem serve_job (m : Machine) (request : RequestId) (target : Resolved) :
    (m.serve request target).1.loader.served =
      m.loader.served ++ [(request, (m.serve request target).2)] := by
  cases hfind : m.loader.find? target.url with
  | some id => rw [serve_hit request hfind]
  | none =>
    obtain ⟨host, preparation, hmake⟩ := m.exists_makeJob target
    rw [serve_miss request hfind, hmake]

theorem sameMap_setCall (m : Machine) (id : CallId) (call : Call) :
    m.loader.SameMap (m.setCall id call).loader := ⟨⟨rfl, rfl, rfl⟩, rfl, rfl, rfl⟩

theorem sameMap_pushCall (m : Machine) (call : Call) :
    m.loader.SameMap (m.pushCall call).loader := ⟨⟨rfl, rfl, rfl⟩, rfl, rfl, rfl⟩

theorem sameMap_withResolver (m : Machine) (r : Resolver) :
    m.loader.SameMap (m.withResolver r).loader := ⟨⟨rfl, rfl, rfl⟩, rfl, rfl, rfl⟩

theorem sameMap_setLinking (m : Machine) (id : JobId) (linking : Linking) :
    m.loader.SameMap (m.setLinking id linking).loader :=
  m.loader.sameMap_changeJob id fun _ => ⟨rfl, rfl, rfl⟩

theorem sameMap_setInstantiation (m : Machine) (id : JobId) (p : Instantiation) :
    m.loader.SameMap (m.setInstantiation id p).loader :=
  m.loader.sameMap_changeJob id fun _ => ⟨rfl, rfl, rfl⟩

theorem sameMap_instantiateMembers (m : Machine) (id : JobId) (unit : UnitId)
    (members : List JobId) : m.loader.SameMap (m.instantiateMembers id unit members).loader := by
  have hjobs := fun i => job?_instantiateMembers m id unit members i
  obtain ⟨jobs, hloader⟩ := loader_instantiateMembers m id unit members
  rw [hloader] at hjobs ⊢
  refine Loader.sameMap_of_jobs rfl rfl rfl rfl fun i => ?_
  rw [hjobs, Option.map_map]
  rfl

theorem sameMap_failLinking (m : Machine) (id : JobId) (dependencies : List Dependency)
    (e : LoadError) : m.loader.SameMap (m.failLinking id dependencies e).loader := by
  rw [failLinking_eq]
  exact (sameMap_withResolver m (m.loader.resolver.abandonAll dependencies)).trans
    (sameMap_setLinking _ _ _)

theorem mapStep_startEval (m : Machine) (source : String) :
    m.loader.MapStep (m.resolutions (.start (.eval source))) (m.startEval source).loader := by
  unfold resolutions taken?
  cases hfind : m.loader.find? Url.evalModule with
  | some id =>
    rw [startEval_loaded source hfind]
    exact .kept (sameMap_pushCall m _)
  | none =>
    rw [(startEval_fresh source hfind).2]
    have hask : m.loader.SameMap
        ((m.supplied source).ask m.loader.resolver.settings.evalSpecifier none).1.loader :=
      ⟨⟨rfl, rfl, rfl⟩, rfl, rfl, rfl⟩
    exact (hask.mapStep_trans (mapStep_serve _ _ _)).trans_sameMap (sameMap_pushCall _ _)

/-- What a step takes up for a call that is at some point. -/
theorem taken_advance {call : CallId} {state : Call}
    (h : m.loader.calls[call.index]? = some state) :
    m.taken? (.advance call) =
      state.awaited?.bind fun request => (m.loader.resolver.outcome? request).map (request, ·) := by
  show ((m.loader.calls[call.index]?).bind Call.awaited?).bind _ = _
  rw [h]
  rfl

/-- What a step takes up for a dependency of a link phase that is at some point. -/
theorem taken_wire {id : JobId} {index : Nat} {job : Job} (h : m.loader.job? id = some job) :
    m.taken? (.wire id index) =
      (job.linking.awaited? index).bind fun request =>
        (m.loader.resolver.outcome? request).map (request, ·) := by
  show ((m.loader.job? id).bind fun job => job.linking.awaited? index).bind _ = _
  rw [h]
  rfl

theorem resolutions_of_ok {request : RequestId} {target : Resolved}
    (h : m.taken? action = some (request, .ok target)) :
    m.resolutions action = [(request, target)] := by
  unfold resolutions
  rw [h]

theorem resolutions_of_error {request : RequestId} {e : LoadError}
    (h : m.taken? action = some (request, .error e)) : m.resolutions action = [] := by
  unfold resolutions
  rw [h]

theorem resolutions_of_none (h : m.taken? action = none) : m.resolutions action = [] := by
  unfold resolutions
  rw [h]

theorem taken_of_locating {call : CallId} {request : RequestId} {wish : Wish}
    {outcome : Except LoadError Resolved}
    (hcall : m.loader.calls[call.index]? = some (.locating request wish))
    (h : m.loader.resolver.outcome? request = some outcome) :
    m.taken? (.advance call) = some (request, outcome) := by
  rw [taken_advance hcall]
  show (m.loader.resolver.outcome? request).map _ = _
  rw [h]
  rfl

theorem awaited?_wiring {dependencies : List Dependency} {index : Nat} {dependency : Dependency}
    (h : dependencies[index]? = some dependency) :
    (Linking.wiring dependencies).awaited? index = match dependency.wiring with
      | .resolving request => some request
      | _ => none := by
  show (dependencies[index]?).bind _ = _
  rw [h]
  rfl

theorem taken_of_resolving {id : JobId} {index : Nat} {job : Job} {dependencies : List Dependency}
    {dependency : Dependency} {request : RequestId} {outcome : Except LoadError Resolved}
    (hjob : m.loader.job? id = some job) (hwiring : job.linking = .wiring dependencies)
    (hdep : dependencies[index]? = some dependency)
    (hresolving : dependency.wiring = .resolving request)
    (h : m.loader.resolver.outcome? request = some outcome) :
    m.taken? (.wire id index) = some (request, outcome) := by
  rw [taken_wire hjob, hwiring, awaited?_wiring hdep, hresolving]
  show (m.loader.resolver.outcome? request).map _ = _
  rw [h]
  rfl

/-- A dependency that waits for no request takes none up. -/
theorem taken_of_not_resolving {id : JobId} {index : Nat} {job : Job}
    {dependencies : List Dependency} {dependency : Dependency}
    (hjob : m.loader.job? id = some job) (hwiring : job.linking = .wiring dependencies)
    (hdep : dependencies[index]? = some dependency)
    (h : ∀ request, dependency.wiring ≠ .resolving request) :
    m.taken? (.wire id index) = none := by
  rw [taken_wire hjob, hwiring, awaited?_wiring hdep]
  cases hwire : dependency.wiring with
  | resolving request => exact absurd hwire (h request)
  | unasked => rfl
  | located _ => rfl
  | wired _ => rfl

theorem taken_of_not_locating {call : CallId} {state : Call}
    (hcall : m.loader.calls[call.index]? = some state) (h : state.awaited? = none) :
    m.taken? (.advance call) = none := by
  rw [taken_advance hcall, h]
  rfl

/-- A step takes up a successful request and has it served, or leaves the map as it is. -/
theorem Rule.mapStep (h : Rule m action m') :
    m.loader.MapStep (m.resolutions action) m'.loader := by
  cases h with
  | startEval source => exact mapStep_startEval m source
  | startResolve | startFind | startAsk | supply | acquire | answer =>
    exact .kept ⟨⟨rfl, rfl, rfl⟩, rfl, rfl, rfl⟩
  | prepareHere | prepareFile | read =>
    exact .kept (m.loader.sameMap_changeJob _ fun _ => ⟨rfl, rfl, rfl⟩)
  | linkUnprepared | linkRefused | linkBegun | linkEnded =>
    exact .kept (m.loader.sameMap_changeJob _ fun _ => ⟨rfl, rfl, rfl⟩)
  | @wireAsked _ _ job _ dependency hjob hwiring hdep hunasked =>
    rw [resolutions_of_none (taken_of_not_resolving hjob hwiring hdep (by simp [hunasked]))]
    exact .kept ((sameMap_withResolver m
      (m.loader.resolver.ask dependency.specifier (some job.url)).1).trans
        (sameMap_setLinking _ _ _))
  | wireDropped hjob hwiring hdep hunasked =>
    rw [resolutions_of_none (taken_of_not_resolving hjob hwiring hdep (by simp [hunasked]))]
    exact .kept (sameMap_failLinking m _ _ _)
  | wireUnresolved hjob hwiring hdep hresolving houtcome =>
    rw [resolutions_of_error (taken_of_resolving hjob hwiring hdep hresolving houtcome)]
    exact .kept (sameMap_failLinking m _ _ _)
  | wireServed hjob hwiring hdep hresolving houtcome =>
    rw [resolutions_of_ok (taken_of_resolving hjob hwiring hdep hresolving houtcome)]
    exact (mapStep_serve m _ _).trans_sameMap (sameMap_setLinking _ _ _)
  | wireUnprepared hjob hwiring hdep hlocated =>
    rw [resolutions_of_none (taken_of_not_resolving hjob hwiring hdep (by simp [hlocated]))]
    exact .kept (sameMap_failLinking m _ _ _)
  | wireEnded hjob hwiring hdep hlocated =>
    rw [resolutions_of_none (taken_of_not_resolving hjob hwiring hdep (by simp [hlocated]))]
    exact .kept (m.loader.sameMap_changeJob _ fun _ => ⟨rfl, rfl, rfl⟩)
  | enterJoined | enterUnprepared | enterWalk | enterDropped | walkPass | walkVisit
  | walkStopped | walkJoined => exact .kept (sameMap_setInstantiation m _ _)
  | walkEnded => exact .kept (sameMap_instantiateMembers m _ _ _)
  | callResolved hcall =>
    rw [resolutions_of_none (taken_of_not_locating hcall rfl)]
    exact .kept (sameMap_setCall m _ _)
  | callUnresolved hcall houtcome =>
    rw [resolutions_of_error (taken_of_locating hcall houtcome)]
    exact .kept (sameMap_setCall m _ _)
  | callServed hcall houtcome =>
    rw [resolutions_of_ok (taken_of_locating hcall houtcome)]
    exact (mapStep_serve m _ _).trans_sameMap (sameMap_setCall _ _ _)
  | callEnters hcall =>
    rw [resolutions_of_none (taken_of_not_locating hcall rfl)]
    exact .kept (sameMap_setInstantiation m _ _)
  | callFailed hcall | callAnswered hcall =>
    rw [resolutions_of_none (taken_of_not_locating hcall rfl)]
    exact .kept (sameMap_setCall m _ _)
  | @callInstantiated call id wish job hcall =>
    rw [resolutions_of_none (taken_of_not_locating hcall rfl)]
    have hcalled := sameMap_setCall (m.serveInstantiated id wish).1 call
      (.answered (m.serveInstantiated id wish).2)
    rw [loader_serveInstantiated] at hcalled
    exact .kept hcalled

end Machine

end ModuleLoader
