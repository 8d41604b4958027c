import ModuleLoader.Proofs.Awaiting
/-!
# The map of modules

A run makes requests for jobs, and takes up each of them at most once. The map is what those of them
make that succeeded, in the order in which they are taken up: the jobs, each with its place in that
order, and the index from their URLs to those places.

Results:
1. `MapOf`, `Entries`: jobs, index and counters of a map, by the requests that were taken up.
2. `Rule.waiting`: nobody waits for a request for which somebody else waits, or which was taken up.
3. `mapOf_after`: what the map is after a run, by the requests that the run took up.
4. `module_map`: the map after any run, what the next step does to it, and that it only grows.
-/
namespace ModuleLoader

/-! ## Every request is taken up once -/

/-- How those who wait for requests stand to the requests that were taken up successfully. -/
structure Loader.Waiting (l : Loader) (resolved : List (RequestId × Resolved)) : Prop where
  sound : l.resolver.Sound
  asked : ∀ asker request, l.awaited? asker = some request →
    request.index < l.resolver.requests.size
  alone : ∀ a b request, l.awaited? a = some request → l.awaited? b = some request → a = b
  unserved : ∀ asker request, l.awaited? asker = some request →
    request ∉ resolved.map Prod.fst
  outcome : ∀ entry ∈ resolved, l.resolver.outcome? entry.1 = some (.ok entry.2)
  once : (resolved.map Prod.fst).Nodup

/-- The map that the successful requests of a run make, in the order in which they are taken up. -/
structure Loader.MapOf (l : Loader) (resolved : List (RequestId × Resolved)) : Prop where
  /-- Every job carries its own place in the order in which the jobs were made. -/
  ids : ∀ id job, l.job? id = some job → job.id = id
  /-- The way from a URL to a job and the way from a job to its URL are inverse. -/
  inverse : ∀ url id, l.find? url = some id ↔ ∃ job, l.job? id = some job ∧ job.url = url
  /-- The index has one entry for each job, and none twice. -/
  keys : (l.byUrl.map Prod.fst).Nodup
  size : l.byUrl.length = l.jobs.size
  /-- There are jobs for those URLs to which a request led, and for no others. -/
  complete : ∀ url, (l.find? url).isSome ↔ ∃ entry ∈ resolved, entry.2.url = url
  misses : l.misses = l.jobs.size
  total : l.hits + l.misses = resolved.length
  outcome : ∀ entry ∈ resolved, l.resolver.outcome? entry.1 = some (.ok entry.2)
  once : (resolved.map Prod.fst).Nodup
  /-- Each request got the job that the map has for its URL. -/
  served : (l.served.map fun (request, id) => (request, some id)) =
    resolved.map fun (request, target) => (request, l.find? target.url)
  /-- Requests that led to one URL got one job. -/
  shared : ∀ a ∈ resolved, ∀ b ∈ resolved, a.2.url = b.2.url →
    ∃ id, (a.1, id) ∈ l.served ∧ (b.1, id) ∈ l.served

namespace Loader

/-- Whoever was served has the job of the URL to which its request led. -/
theorem MapOf.target_of_served {l : Loader} {resolved : List (RequestId × Resolved)}
    (h : l.MapOf resolved) {request : RequestId} {id : JobId} (hin : (request, id) ∈ l.served) :
    ∃ target, (request, target) ∈ resolved ∧ l.find? target.url = some id := by
  have hmem : (request, some id) ∈ l.served.map fun (request, id) => (request, some id) :=
    List.mem_map.mpr ⟨(request, id), hin, rfl⟩
  rw [h.served] at hmem
  obtain ⟨⟨other, target⟩, hother, heq⟩ := List.mem_map.mp hmem
  obtain ⟨rfl, hfind⟩ := Prod.mk.inj heq
  exact ⟨target, hother, hfind⟩

/-- The part of `MapOf` that is about entries, as one step of the map keeps it. -/
structure Entries (l : Loader) (resolved : List (RequestId × Resolved)) : Prop extends l.Indexed where
  complete : ∀ url, (l.find? url).isSome ↔ ∃ entry ∈ resolved, entry.2.url = url
  misses : l.misses = l.entries.size
  total : l.hits + l.misses = resolved.length
  served : (l.served.map fun (request, id) => (request, some id)) =
    resolved.map fun (request, target) => (request, l.find? target.url)

variable {l l' : Loader} {resolved log : List (RequestId × Resolved)}

/-- What was served stays right while the map goes on. -/
theorem Entries.served_mono (h : l.Entries log)
    (hmono : ∀ url id, l.find? url = some id → l'.find? url = some id) :
    (l.served.map fun (request, id) => (request, some id)) =
      log.map fun (request, target) => (request, l'.find? target.url) := by
  rw [h.served]
  refine List.map_congr_left fun entry hentry => ?_
  obtain ⟨id, hid⟩ :=
    Option.isSome_iff_exists.mp ((h.complete entry.2.url).mpr ⟨entry, hentry, rfl⟩)
  show (entry.1, l.find? entry.2.url) = (entry.1, l'.find? entry.2.url)
  rw [hid, hmono _ _ hid]

/-- A request that was taken up got the job of its URL. -/
theorem Entries.mem_served (h : l.Entries log) {entry : RequestId × Resolved} (he : entry ∈ log)
    {id : JobId} (hfind : l.find? entry.2.url = some id) : (entry.1, id) ∈ l.served := by
  have hmem : (entry.1, l.find? entry.2.url) ∈
      l.served.map fun (request, id) => (request, some id) := by
    rw [h.served]
    exact List.mem_map.mpr ⟨entry, he, rfl⟩
  obtain ⟨⟨request, other⟩, hother, heq⟩ := List.mem_map.mp hmem
  rw [hfind] at heq
  cases heq
  exact hother

theorem Entries.kept (h : l.Entries log) (hsame : l.SameMap l') : l'.Entries log where
  toIndexed := h.toIndexed.sameJobs hsame.toSameJobs
  complete url := by
    rw [hsame.find?]
    exact h.complete url
  misses := by
    rw [hsame.misses, hsame.entries]
    exact h.misses
  total := by
    rw [hsame.hits, hsame.misses]
    exact h.total
  served := by
    rw [hsame.served]
    exact h.served_mono fun url id hid => (hsame.find? url).trans hid

theorem Entries.hit {request : RequestId} {target : Resolved} {id : JobId} (h : l.Entries log)
    (hfound : l.find? target.url = some id) (hsame : l.SameJobs l')
    (hhits : l'.hits = l.hits + 1) (hmisses : l'.misses = l.misses)
    (hserved : l'.served = l.served ++ [(request, id)]) :
    l'.Entries (log ++ [(request, target)]) where
  toIndexed := h.toIndexed.sameJobs hsame
  complete url := by
    rw [hsame.find?, h.complete]
    constructor
    · rintro ⟨entry, hentry, hurl⟩
      exact ⟨entry, List.mem_append_left _ hentry, hurl⟩
    · rintro ⟨entry, hentry, hurl⟩
      rcases List.mem_append.mp hentry with hold | hnew
      · exact ⟨entry, hold, hurl⟩
      · cases List.mem_singleton.mp hnew
        exact (h.complete url).mp (by rw [← hurl, hfound]; rfl)
  misses := by
    rw [hmisses, hsame.entries]
    exact h.misses
  total := by
    rw [hhits, hmisses, List.length_append, ← h.total]
    simp only [List.length_singleton]
    omega
  served := by
    have hkept : ∀ url id, l.find? url = some id → l'.find? url = some id :=
      fun url id hid => (hsame.find? url).trans hid
    rw [hserved, List.map_append, List.map_append, h.served_mono hkept]
    simp only [List.map_cons, List.map_nil, hsame.find?, hfound]

theorem Entries.miss {request : RequestId} {target : Resolved} (h : l.Entries log)
    (hnone : l.find? target.url = none) (hinserts : l.Inserts target l')
    (hhits : l'.hits = l.hits) (hmisses : l'.misses = l.misses + 1)
    (hserved : l'.served = l.served ++ [(request, l.nextId)]) :
    l'.Entries (log ++ [(request, target)]) where
  toIndexed := h.toIndexed.inserts hnone hinserts
  complete url := by
    rw [hinserts.find?]
    constructor
    · split
      next hurl =>
        intro _
        exact ⟨(request, target), List.mem_append_right _ List.mem_cons_self, hurl.symm⟩
      next =>
        intro hfound
        obtain ⟨entry, hentry, hurl⟩ := (h.complete url).mp hfound
        exact ⟨entry, List.mem_append_left _ hentry, hurl⟩
    · rintro ⟨entry, hentry, hurl⟩
      rcases List.mem_append.mp hentry with hold | hlast
      · split
        next => rfl
        next => exact (h.complete url).mpr ⟨entry, hold, hurl⟩
      · cases List.mem_singleton.mp hlast
        rw [if_pos hurl.symm]
        rfl
  misses := by rw [hmisses, hinserts.entries, Array.size_push, h.misses]
  total := by
    rw [hhits, hmisses, List.length_append, ← h.total]
    rfl
  served := by
    have hnew : l'.find? target.url = some l.nextId := by rw [hinserts.find?, if_pos rfl]
    rw [hserved, List.map_append, List.map_append,
      h.served_mono fun _ _ => hinserts.find?_mono hnone]
    simp only [List.map_cons, List.map_nil, hnew]

theorem Entries.step (h : l.Entries log) (hstep : l.MapStep resolved l') :
    l'.Entries (log ++ resolved) := by
  cases hstep with
  | kept hsame => rw [List.append_nil]; exact h.kept hsame
  | hit hfound hsame hhits hmisses hserved => exact h.hit hfound hsame hhits hmisses hserved
  | miss hnone hinserts hhits hmisses hserved => exact h.miss hnone hinserts hhits hmisses hserved

end Loader

namespace Machine

variable {m m' : Machine} {action : Action} {log : List (RequestId × Resolved)}

theorem resolutions_cases (m : Machine) (action : Action) :
    m.resolutions action = [] ∨
      ∃ request target, m.taken? action = some (request, .ok target) ∧
        m.resolutions action = [(request, target)] := by
  unfold resolutions
  split
  next request target h => exact .inr ⟨request, target, h, rfl⟩
  next => exact .inl rfl

theorem taken_of_mem {entry : RequestId × Resolved} (h : entry ∈ m.resolutions action) :
    m.taken? action = some (entry.1, .ok entry.2) := by
  rcases m.resolutions_cases action with hnil | ⟨request, target, htaken, hone⟩
  · rw [hnil] at h
    cases h
  · rw [hone] at h
    cases List.mem_singleton.mp h
    exact htaken

/-- A request that is taken up was not taken up before. -/
theorem taken_new (hw : m.loader.Waiting log) {request : RequestId}
    {outcome : Except LoadError Resolved} (htaken : m.taken? action = some (request, outcome)) :
    request ∉ log.map Prod.fst := by
  rcases taken_cases htaken with ⟨asker, -, hawaited, -⟩ | ⟨source, -, -, rfl, -⟩
  · exact hw.unserved asker request hawaited
  · -- the request of an eval call is younger than all others
    intro hmem
    obtain ⟨entry, hentry, hid⟩ := List.mem_map.mp hmem
    have hlt := Resolver.outcome?_lt (hw.outcome entry hentry)
    rw [hid] at hlt
    exact Nat.lt_irrefl _ hlt

/-- After a step nobody waits for the request that it took up. -/
theorem Rule.not_awaited (h : Rule m action m') (hw : m.loader.Waiting log)
    {request : RequestId} {outcome : Except LoadError Resolved}
    (htaken : m.taken? action = some (request, outcome)) (asker : Asker) :
    m'.loader.awaited? asker ≠ some request := by
  intro hawaited
  obtain hless | ⟨-, hnone⟩ := h.awaited
  · obtain ⟨own, hown, hfree, -⟩ := h.taken htaken
    have hbefore := hless asker request hawaited
    rcases taken_cases htaken with ⟨other, hother, hwaited, -⟩ | ⟨source, -, -, rfl, -⟩
    · rw [hown] at hother
      cases hother
      rw [hw.alone asker own request hbefore hwaited, hfree] at hawaited
      cases hawaited
    · exact Nat.lt_irrefl _ (hw.asked asker _ hbefore)
  · rw [hnone] at htaken
    cases htaken

/-- Who waits after a step either waited before or waits for a request that is new. -/
theorem Rule.awaited_cases (h : Rule m action m') {asker : Asker} {request : RequestId}
    (hawaited : m'.loader.awaited? asker = some request) :
    m.loader.awaited? asker = some request ∨
      request = ⟨m.loader.resolver.requests.size⟩ ∧
        m.loader.resolver.requests.size < m'.loader.resolver.requests.size ∧
        m.taken? action = none ∧ m.loader.AwaitsNewest m'.loader := by
  obtain hless | ⟨hnewest, hnone⟩ := h.awaited
  · exact .inl (hless asker request hawaited)
  · have hcopy := hnewest
    obtain ⟨newest, hsize, hall⟩ := hnewest
    rcases hall asker request hawaited with hold | ⟨-, rfl⟩
    · exact .inl hold
    · exact .inr ⟨rfl, hsize, hnone, hcopy⟩

/-- No two wait for one request, since only one can wait for a request that is new. -/
theorem Rule.awaited_alone (h : Rule m action m') (hw : m.loader.Waiting log) {a b : Asker}
    {request : RequestId} (ha : m'.loader.awaited? a = some request)
    (hb : m'.loader.awaited? b = some request) : a = b := by
  obtain hless | ⟨⟨newest, -, hall⟩, -⟩ := h.awaited
  · exact hw.alone a b request (hless a request ha) (hless b request hb)
  · rcases hall a request ha with ha' | ⟨rfl, rfl⟩
    · rcases hall b request hb with hb' | ⟨rfl, rfl⟩
      · exact hw.alone a b request ha' hb'
      · exact absurd (hw.asked a _ ha') (Nat.lt_irrefl _)
    · rcases hall b _ hb with hb' | ⟨rfl, -⟩
      · exact absurd (hw.asked b _ hb') (Nat.lt_irrefl _)
      · rfl

theorem Rule.waiting (h : Rule m action m') (hw : m.loader.Waiting log) :
    m'.loader.Waiting (log ++ m.resolutions action) := by
  have hextends := h.resolver.extends hw.sound
  refine ⟨h.resolver.sound hw.sound, ?_, fun _ _ _ => h.awaited_alone hw, ?_, ?_, ?_⟩
  · intro asker request hawaited
    rcases h.awaited_cases hawaited with hold | ⟨rfl, hsize, -⟩
    · exact Nat.lt_of_lt_of_le (hw.asked asker request hold) hextends.size
    · exact hsize
  · intro asker request hawaited hmem
    rw [List.map_append] at hmem
    rcases List.mem_append.mp hmem with hold | hnew
    · rcases h.awaited_cases hawaited with hbefore | ⟨rfl, -⟩
      · exact hw.unserved asker request hbefore hold
      · -- what was taken up is older than a request that is new
        obtain ⟨entry, hentry, hid⟩ := List.mem_map.mp hold
        have hlt := Resolver.outcome?_lt (hw.outcome entry hentry)
        rw [hid] at hlt
        exact Nat.lt_irrefl _ hlt
    · obtain ⟨entry, hentry, rfl⟩ := List.mem_map.mp hnew
      exact h.not_awaited hw (taken_of_mem hentry) asker hawaited
  · intro entry hentry
    rcases List.mem_append.mp hentry with hold | hnew
    · exact hextends.outcome _ _ (hw.outcome entry hold)
    · exact h.taken_outcome hw.sound (taken_of_mem hnew)
  · rcases m.resolutions_cases action with hnil | ⟨taken, target, htaken, hone⟩
    · rw [hnil, List.append_nil]
      exact hw.once
    · rw [hone, List.map_append, List.nodup_append]
      refine ⟨hw.once, List.nodup_cons.mpr ⟨List.not_mem_nil, List.nodup_nil⟩, ?_⟩
      intro a ha b hb hab
      cases List.mem_singleton.mp hb
      subst hab
      exact taken_new hw htaken ha

/-! ## The map after a run -/

theorem waiting_fresh (host : Host) (settings : Settings) :
    (ofSettings host settings).loader.Waiting [] where
  sound := Resolver.sound_ofSettings settings
  asked asker request h := by cases asker <;> cases h
  alone a _ request ha := by cases a <;> cases ha
  unserved _ _ _ := List.not_mem_nil
  outcome _ h := absurd h List.not_mem_nil
  once := List.nodup_nil

theorem entries_fresh (host : Host) (settings : Settings) :
    (ofSettings host settings).loader.Entries [] where
  toIndexed := indexed_fresh host settings
  complete url := by
    refine ⟨fun h => (by cases h), ?_⟩
    rintro ⟨_, hentry, -⟩
    cases hentry
  misses := (Loader.size_entries (.ofSettings settings)).symm
  total := rfl
  served := rfl

theorem waiting_after (host : Host) (settings : Settings) (events : List Event) :
    let m := ofSettings host settings
    (m.after events).loader.Waiting (m.logged resolutions events) ∧
      (m.after events).loader.Entries (m.logged resolutions events) :=
  logged_induction (P := fun m log => m.loader.Waiting log ∧ m.loader.Entries log) resolutions
    events (fun hrule h => ⟨hrule.waiting h.1, h.2.step hrule.mapStep⟩) (fun _ _ h => h)
    [] ⟨waiting_fresh host settings, entries_fresh host settings⟩

/-- After every run the map is that of the requests that the run took up successfully. -/
theorem mapOf_after (host : Host) (settings : Settings) (events : List Event) :
    ((ofSettings host settings).after events).loader.MapOf
      ((ofSettings host settings).logged resolutions events) := by
  -- the resolver's side of the map and its entries are kept apart, and put together only here
  obtain ⟨hwaiting, hentries⟩ := waiting_after host settings events
  generalize ((ofSettings host settings).after events).loader = l at hwaiting hentries ⊢
  refine ⟨fun id job => hentries.id_of_job?, fun url id => ⟨hentries.job_of_find?, ?_⟩,
    hentries.keys, ?_, hentries.complete, ?_, hentries.total,
    hwaiting.outcome, hwaiting.once, hentries.served, fun a ha b hb hurl => ?_⟩
  · rintro ⟨job, hjob, rfl⟩
    exact hentries.find?_of_job? hjob
  · rw [hentries.size, Loader.size_entries]
  · rw [hentries.misses, Loader.size_entries]
  · obtain ⟨id, hid⟩ := Option.isSome_iff_exists.mp ((hentries.complete a.2.url).mpr ⟨a, ha, rfl⟩)
    exact ⟨id, hentries.mem_served ha hid, hentries.mem_served hb (hurl ▸ hid)⟩

/-- How the map and those who requested a job go on with a step. -/
structure MapGoesOn (m : Machine) (action : Action) (m' : Machine) : Prop where
  map : m.loader.MapStep (m.resolutions action) m'.loader
  /-- Whoever requested a job gets the one of the URL, or the error. -/
  answered : ∀ request outcome, m.taken? action = some (request, outcome) →
    ∃ asker, m.asker? action = some asker ∧ m'.Answers asker outcome
  /-- A request that failed changes nothing, and its error is a resolution error. -/
  refused : ∀ request e, m.taken? action = some (request, .error e) →
    m.loader.SameMap m'.loader ∧ e.isResolution = true

theorem Rule.mapGoesOn (h : Rule m action m') (hr : m.loader.resolver.Sound) :
    MapGoesOn m action m' where
  map := h.mapStep
  answered request outcome htaken := by
    obtain ⟨asker, hasker, -, hanswers⟩ := h.taken htaken
    exact ⟨asker, hasker, hanswers⟩
  refused request e htaken := by
    refine ⟨?_, ?_⟩
    · have hstep := h.mapStep
      rw [resolutions_of_error htaken] at hstep
      cases hstep with
      | kept hsame => exact hsame
    · rcases taken_cases htaken with ⟨_, -, -, houtcome⟩ | ⟨_, -, -, -, hok⟩
      · exact hr.error_isResolution houtcome
      · cases hok

/-- What a map keeps of an earlier one. -/
structure MapGrows (l l' : Loader) : Prop where
  find : ∀ url id, l.find? url = some id → l'.find? url = some id
  job : ∀ id job, l.job? id = some job →
    ∃ job', l'.job? id = some job' ∧ job'.id = job.id ∧ job'.url = job.url ∧
      job'.format = job.format

theorem mapGrows_after (h : m.loader.resolver.Sound) (events : List Event) :
    MapGrows m.loader (m.after events).loader where
  find url id hfind :=
    after_induction (P := fun m' => m'.loader.find? url = some id)
      (fun hrule h => hrule.mapStep.find?_mono h) (fun _ h => h) hfind events
  job id job hjob := by
    obtain ⟨job', hjob', hlater⟩ := (later_after h events).job hjob
    exact ⟨job', hjob', hlater.id, hlater.url, hlater.format⟩

/-- The module map after any run of a loader.
* It is that of the requests that succeeded: one job for each URL to which they led, filed under that
  URL, and counters that say how many of them found their job there.
* Any further step takes up at most one more request and answers it by the map. A request that failed
  leaves jobs, index and counters alone.
* What the map has, it keeps. -/
theorem module_map (host : Host) (settings : Settings) (events : List Event) :
    let m := (ofSettings host settings).after events
    m.loader.MapOf ((ofSettings host settings).logged resolutions events) ∧
      (∀ action m', m.step? action = some m' → MapGoesOn m action m') ∧
      ∀ later, MapGrows m.loader (m.after later).loader :=
  have hsound := sound_fresh host settings events
  ⟨mapOf_after host settings events,
    fun _ _ hstep => (Rule.of_step? hstep).mapGoesOn hsound,
    fun later => mapGrows_after hsound later⟩

end Machine

end ModuleLoader
