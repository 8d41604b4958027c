import ModuleLoader.Proofs.Deeds
import ModuleLoader.Proofs.Format
import ModuleLoader.Proofs.Projects
import ModuleLoader.Proofs.Standing
/-!
# Loaders that follow a project

What a loader comes to know is in the project from the start: each job stands for a module, its unit
is made for that module, the jobs that its link phase finds are those of the modules to which the
specifiers lead, and a phase fails only where the project has nothing to go on with. The order of the
steps has no part in any of this, as long as a URL says which module is meant.

Results:
1. `Project.Links`, `Project.Region`: modules that can be linked, and sets of modules to load.
2. `Job.Follows`: what is known of a job in each of its phases.
3. `Machine.Follows`, `Rule.follows`: what is known of a loader, and that every step keeps it.
4. `follows_fresh`, `within_induction`: it holds at the start, and what such steps keep holds after
   every run whose calls stay within the set.
-/
namespace ModuleLoader

/-! ## Modules to load -/

namespace Project

variable {p : Project} {t t' : Resolved}

/-- A loader in which nothing has happened yet. -/
def machine (p : Project) : Machine :=
  Machine.ofSettings (.ofLibraries p.files p.registry p.tables p.functions) p.settings

/-- The module is there, and so are those to which it leads. -/
def Links (p : Project) (t : Resolved) : Prop :=
  ∃ c, p.content? t = some c ∧ ∀ specifier ∈ c.specifiers,
    ∃ t', p.leads t specifier = .ok t' ∧ (p.content? t').isSome = true

/-- Modules that lead to each other only, and of which each is known by its URL. -/
structure Region (p : Project) (G : Resolved → Prop) : Prop where
  closed : ∀ t t', G t → p.Imports t t' → G t'
  sole : ∀ t t', G t → G t' → t.url = t'.url → t = t'

theorem not_links_of_content? (h : p.content? t = none) : ¬ p.Links t := by
  rintro ⟨c, hc, -⟩
  rw [h] at hc
  cases hc

/-- A module that leads nowhere with one of its specifiers. -/
theorem not_links_of_error {c : Content} {specifier : String} {e : LoadError}
    (hc : p.content? t = some c) (hin : specifier ∈ c.specifiers)
    (h : p.leads t specifier = .error e) : ¬ p.Links t := by
  rintro ⟨c', hc', hall⟩
  cases hc.symm.trans hc'
  obtain ⟨t', hleads, -⟩ := hall specifier hin
  rw [h] at hleads
  cases hleads

/-- A module that leads to one that is not there. -/
theorem not_links_of_missing {c : Content} {specifier : String} (hc : p.content? t = some c)
    (hin : specifier ∈ c.specifiers) (h : p.leads t specifier = .ok t')
    (hnone : p.content? t' = none) : ¬ p.Links t := by
  rintro ⟨c', hc', hall⟩
  cases hc.symm.trans hc'
  obtain ⟨other, hleads, hsome⟩ := hall specifier hin
  cases h.symm.trans hleads
  rw [hnone] at hsome
  cases hsome

end Project

/-! ## Jobs -/

/-- The module that a job stands for. -/
def Job.target (job : Job) : Resolved := ⟨job.url, job.format⟩

def Loader.target? (l : Loader) (id : JobId) : Option Resolved := (l.job? id).map Job.target

/-- How far the preparation for a module is, and what comes of it. -/
inductive Preparation.Follows (p : Project) (s : Store) (t : Resolved) : Preparation → Prop
  | idle : t.format = .js → Follows p s t .idle
  | reading {path : FilePath} :
      t.format = .js → t.url.sourcePlace none = .file path → Follows p s t (.reading path)
  | unit {x : UnitId} : s.Holds p x t → Follows p s t (.done (.ok x))
  | failed {e : LoadError} : p.content? t = none → Follows p s t (.done (.error e))

/-- How far the link phase for a module is, and what comes of it. -/
inductive Linking.Follows (p : Project) (l : Loader) (t : Resolved) : Linking → Prop
  | waiting : Follows p l t .waiting
  | wiring {dependencies : List Dependency} {c : Content} :
      p.content? t = some c → dependencies.map Dependency.specifier = c.specifiers →
      (∀ d ∈ dependencies, ∀ k, d.wiring.found? = some k →
        ∃ t', l.target? k = some t' ∧ p.leads t d.specifier = .ok t') →
      Follows p l t (.wiring dependencies)
  | done {jobs : List JobId} : Follows p l t (.done (.ok jobs))
  | failed {e : LoadError} : ¬ p.Links t → Follows p l t (.done (.error e))

/-- What is known of a job. -/
structure Job.Follows (p : Project) (G : Resolved → Prop) (l : Loader) (s : Store) (job : Job) :
    Prop where
  region : G job.target
  bare : job.evalSource = none
  preparation : job.preparation.Follows p s job.target
  linking : job.linking.Follows p l job.target

namespace Loader

variable {p : Project} {G : Resolved → Prop} {l l' l₀ : Loader} {s s' : Store} {id k : JobId}
  {job : Job} {f : Job → Job} {t : Resolved}

theorem target?_of_job? (h : l.job? id = some job) : l.target? id = some job.target :=
  Option.map_eq_some_iff.mpr ⟨job, h, rfl⟩

theorem Later.target? (h : l.Later l') (ht : l.target? k = some t) : l'.target? k = some t := by
  obtain ⟨job, hjob, rfl⟩ := Option.map_eq_some_iff.mp ht
  obtain ⟨job', hjob', hlater⟩ := h.job hjob
  rw [target?_of_job? hjob']
  unfold Job.target
  rw [hlater.url, hlater.format]

theorem target?_changeJob (l : Loader) (id : JobId) (hf : ∀ job, (f job).target = job.target)
    (k : JobId) : (l.changeJob id f).target? k = l.target? k := by
  unfold target?
  rw [job?_changeJob]
  split
  next =>
    rw [Option.map_map]
    exact congrArg (fun g => (l.job? k).map g) (funext hf)
  next => rfl

/-- All jobs follow the project. -/
def AllFollow (p : Project) (G : Resolved → Prop) (l : Loader) (s : Store) : Prop :=
  ∀ id job, l.job? id = some job → job.Follows p G l s

end Loader

namespace Preparation

variable {p : Project} {s s' : Store} {t : Resolved} {preparation : Preparation}

theorem Follows.keeps (h : preparation.Follows p s t) (hkeeps : s.Keeps s') :
    preparation.Follows p s' t := by
  cases h with
  | idle h => exact .idle h
  | reading h h' => exact .reading h h'
  | unit h => exact .unit (h.keeps hkeeps)
  | failed h => exact .failed h

end Preparation

namespace Linking

variable {p : Project} {l l' : Loader} {t : Resolved} {linking : Linking}

theorem Follows.mono (h : linking.Follows p l t)
    (htargets : ∀ k t, l.target? k = some t → l'.target? k = some t) : linking.Follows p l' t := by
  cases h with
  | waiting => exact .waiting
  | wiring hc hsame hfound =>
    refine .wiring hc hsame fun d hd k hk => ?_
    obtain ⟨t', ht', hleads⟩ := hfound d hd k hk
    exact ⟨t', htargets k t' ht', hleads⟩
  | done => exact .done
  | failed h => exact .failed h

/-- A dependency of a module is one of its specifiers. -/
theorem Follows.specifier {dependencies : List Dependency}
    (h : (Linking.wiring dependencies).Follows p l t) {index : Nat} {d : Dependency}
    (hd : dependencies[index]? = some d) :
    ∃ c, p.content? t = some c ∧ c.specifiers[index]? = some d.specifier := by
  cases h with
  | @wiring _ c hc hsame _ =>
    refine ⟨c, hc, ?_⟩
    rw [← hsame, List.getElem?_map, hd]
    rfl

/-- One dependency gets further, to the job to which its specifier leads if to any. -/
theorem Follows.modify {dependencies : List Dependency} {index : Nat} {d : Dependency}
    {wiring : Wiring} (h : (Linking.wiring dependencies).Follows p l t)
    (hd : dependencies[index]? = some d)
    (hnew : ∀ k, wiring.found? = some k →
      ∃ t', l.target? k = some t' ∧ p.leads t d.specifier = .ok t') :
    (Linking.wiring (dependencies.modify index fun d => { d with wiring })).Follows p l t := by
  cases h with
  | @wiring _ c hc hsame hfound =>
    refine .wiring hc ((map_specifier_modify _ _ _).trans hsame) fun d' hd' k hk => ?_
    rcases mem_modify hd' with ⟨i, -, hold⟩ | ⟨old, hold, rfl⟩
    · exact hfound d' (List.mem_of_getElem? hold) k hk
    · cases hd.symm.trans hold
      exact hnew k hk

end Linking

namespace Job.Follows

variable {p : Project} {G : Resolved → Prop} {l l' : Loader} {s s' : Store} {job : Job}

theorem mono (h : job.Follows p G l s)
    (htargets : ∀ k t, l.target? k = some t → l'.target? k = some t) (hkeeps : s.Keeps s') :
    job.Follows p G l' s' :=
  ⟨h.region, h.bare, h.preparation.keeps hkeeps, h.linking.mono htargets⟩

/-! ### What the phases of a job say of its module -/

theorem format_of_idle (h : job.Follows p G l s) (hidle : job.preparation = .idle) :
    job.format = .js := by
  have hpreparation := h.preparation
  rw [hidle] at hpreparation
  cases hpreparation with
  | idle hformat => exact hformat

theorem place_of_reading (h : job.Follows p G l s) {path : FilePath}
    (hreading : job.preparation = .reading path) :
    job.format = .js ∧ job.url.sourcePlace none = .file path := by
  have hpreparation := h.preparation
  rw [hreading] at hpreparation
  cases hpreparation with
  | reading hformat hplace => exact ⟨hformat, hplace⟩

theorem holds (h : job.Follows p G l s) {x : UnitId} (hdone : job.preparation = .done (.ok x)) :
    s.Holds p x job.target := by
  have hpreparation := h.preparation
  rw [hdone] at hpreparation
  cases hpreparation with
  | unit hx => exact hx

theorem missing (h : job.Follows p G l s) {e : LoadError}
    (hdone : job.preparation = .done (.error e)) : p.content? job.target = none := by
  have hpreparation := h.preparation
  rw [hdone] at hpreparation
  cases hpreparation with
  | failed hnone => exact hnone

theorem not_links (h : job.Follows p G l s) {e : LoadError}
    (hdone : job.linking = .done (.error e)) : ¬ p.Links job.target := by
  have hlinking := h.linking
  rw [hdone] at hlinking
  cases hlinking with
  | failed hnot => exact hnot

/-- A dependency that has found its job has found that of the module to which its specifier leads. -/
theorem located (h : job.Follows p G l s) {dependencies : List Dependency} {index : Nat}
    {d : Dependency} {found : JobId} (hwiring : job.linking = .wiring dependencies)
    (hd : dependencies[index]? = some d) (hfound : d.wiring.found? = some found) :
    ∃ c t, p.content? job.target = some c ∧ d.specifier ∈ c.specifiers ∧
      l.target? found = some t ∧ p.leads job.target d.specifier = .ok t := by
  have hlinking := h.linking
  rw [hwiring] at hlinking
  obtain ⟨c, hc, hspecifier⟩ := hlinking.specifier hd
  cases hlinking with
  | wiring _ _ hall =>
    obtain ⟨t, ht, hleads⟩ := hall d (List.mem_of_getElem? hd) found hfound
    exact ⟨c, t, hc, List.mem_of_getElem? hspecifier, ht, hleads⟩

end Job.Follows

namespace Loader.AllFollow

variable {p : Project} {G : Resolved → Prop} {l l' : Loader} {s s' : Store} {id : JobId}
  {job : Job} {f : Job → Job}

theorem of_jobs (h : l.AllFollow p G s) (hjobs : l'.jobs = l.jobs) (hkeeps : s.Keeps s') :
    l'.AllFollow p G s' := by
  have hsame : ∀ id, l'.job? id = l.job? id := fun id => by unfold ModuleMap.job?; rw [hjobs]
  intro id job hjob
  rw [hsame] at hjob
  refine (h id job hjob).mono (fun k t ht => ?_) hkeeps
  unfold target?
  rw [hsame]
  exact ht

/-- One job is changed, and still follows. -/
theorem changeJob (h : l.AllFollow p G s) (l' : Loader) (hjobs : l'.jobs = l.jobs) (hkeeps : s.Keeps s')
    (hjob : l.job? id = some job) (htarget : ∀ job, (f job).target = job.target)
    (hself : (f job).Follows p G l s') : (l'.changeJob id f).AllFollow p G s' := by
  have hsame : ∀ k, (l'.changeJob id f).target? k = l.target? k := fun k => by
    rw [target?_changeJob l' id htarget]
    unfold target? ModuleMap.job?
    rw [hjobs]
  have htargets : ∀ k t, l.target? k = some t → (l'.changeJob id f).target? k = some t :=
    fun k t ht => (hsame k).trans ht
  intro i job' hjob'
  rw [job?_changeJob, show l'.job? i = l.job? i by unfold ModuleMap.job?; rw [hjobs]] at hjob'
  split at hjob'
  next hid =>
    subst hid
    rw [hjob] at hjob'
    cases hjob'
    exact hself.mono htargets (.refl s')
  next => exact (h i job' hjob').mono htargets hkeeps

/-- A job is added that follows. -/
theorem push (h : l.AllFollow p G s) (hjobs : l'.jobs = l.jobs.push job) (hkeeps : s.Keeps s')
    (hself : job.Follows p G l' s') : l'.AllFollow p G s' := by
  intro i job' hjob'
  rw [job?_push l' l.jobs job hjobs] at hjob'
  split at hjob'
  next => cases hjob'; exact hself
  next =>
    refine (h i job' hjob').mono (fun k t ht => ?_) hkeeps
    obtain ⟨other, hother, rfl⟩ := Option.map_eq_some_iff.mp ht
    refine target?_of_job? ?_
    rw [job?_push l' l.jobs job hjobs, if_neg (Nat.ne_of_lt (job?_lt hother))]
    exact hother

/-- The unit of a job is that of its module. -/
theorem holds (h : l.AllFollow p G s) {x : UnitId} {t : Resolved}
    (hprepared : l.prepared? id = some (.ok x)) (ht : l.target? id = some t) : s.Holds p x t := by
  obtain ⟨job, hjob, hdone⟩ := prepared?_eq_some.mp hprepared
  cases (target?_of_job? hjob).symm.trans ht
  exact (h id job hjob).holds hdone

/-- The module of a job that could not be prepared is not there. -/
theorem missing (h : l.AllFollow p G s) {e : LoadError} {t : Resolved}
    (hprepared : l.prepared? id = some (.error e)) (ht : l.target? id = some t) :
    p.content? t = none := by
  obtain ⟨job, hjob, hdone⟩ := prepared?_eq_some.mp hprepared
  cases (target?_of_job? hjob).symm.trans ht
  exact (h id job hjob).missing hdone

end Loader.AllFollow

/-! ## Making units -/

namespace Host

variable {p : Project} {host : Host}

/-- A source is compiled for the module that has it. -/
theorem follows_compile (h : host.store.Follows p) (hcompiler : host.compiler = .script) {url : Url}
    {source : String} (hsource : url.source p.files none = .ok source) :
    (host.compile url source).1.store.Follows p ∧
      host.store.Keeps (host.compile url source).1.store ∧
      (Preparation.done (host.compile url source).2).Follows p (host.compile url source).1.store
        ⟨url, .js⟩ := by
  unfold compile
  rw [hcompiler]
  dsimp only
  cases hu : ScriptUnit.compile url source host.store.cells with
  | error e => exact ⟨h, .refl _, .failed (ModuleUnit.content?_of_compile hsource hu)⟩
  | ok made =>
    obtain ⟨cells, u⟩ := made
    obtain ⟨hmade, htarget⟩ := ModuleUnit.madeFrom_compile hsource hu
    obtain ⟨program, names, -, -, rfl, rfl⟩ := compile_eq_ok hu
    exact ⟨h.add rfl hmade fun u hu => (by cases hu; rfl), host.store.keeps_add _ _,
      .unit ⟨_, Store.unit?_add_new { host.store with cells := _ } _, hmade, htarget⟩⟩

/-- A library is bridged for the module that its URL names. -/
theorem follows_bridge (h : host.store.Follows p) (hregistry : host.registry = p.registry)
    (url : Url) : (host.bridge p.settings.builtinPrefix url).1.store.Follows p ∧
      host.store.Keeps (host.bridge p.settings.builtinPrefix url).1.store ∧
      (Preparation.done (host.bridge p.settings.builtinPrefix url).2).Follows p
        (host.bridge p.settings.builtinPrefix url).1.store ⟨url, .builtin⟩ := by
  unfold bridge
  rw [hregistry, h.tables]
  cases hid : builtinId? p.settings.builtinPrefix url.path.text with
  | none => exact ⟨h, .refl _, .failed (by simp [Project.content?, Project.library?, hid])⟩
  | some id =>
    dsimp only
    cases hlibrary : p.registry.load? p.tables id with
    | none =>
      exact ⟨h, .refl _, .failed (by simp [Project.content?, Project.library?, hid, hlibrary])⟩
    | some library =>
      have hmade : (ModuleUnit.bridge
          (Bridge.make url library.names (some [.fill library.table]) host.store.cells).2).MadeFrom
            p := by
        refine @ModuleUnit.MadeFrom.bridge p _ library.names (p.tables.read library.table) ?_
          (Scope.names_fresh _ _)
        exact Project.content?_of_library (by simp [Project.library?, Bridge.make, hid, hlibrary])
      exact ⟨h.add rfl hmade fun u hu => (by cases hu), host.store.keeps_add _ _,
        .unit ⟨_, Store.unit?_add_new { host.store with cells := _ } _, hmade, rfl⟩⟩

end Host

/-! ## Loaders -/

/-- What somebody asks for who waits for a job: a call one of some queries, and a dependency the one
of its specifier. -/
def Loader.Asks (p : Project) (Q : String × Option Url → Prop) (l : Loader) :
    Asker → String × Option Url → Prop
  | .call _, query => Q query
  | .dependency id index, query => ∃ t c specifier, l.target? id = some t ∧ p.content? t = some c ∧
      c.specifiers[index]? = some specifier ∧ query = (specifier, some t.url)

theorem Loader.Asks.later {p : Project} {Q : String × Option Url → Prop} {l l' : Loader}
    (h : l.Later l') {asker : Asker} {query : String × Option Url}
    (hasks : l.Asks p Q asker query) : l'.Asks p Q asker query := by
  cases asker with
  | call call => exact hasks
  | dependency id index =>
    obtain ⟨t, c, specifier, ht, hc, hspecifier, rfl⟩ := hasks
    exact ⟨t, c, specifier, h.target? ht, hc, hspecifier, rfl⟩

/-- Everybody who waits for a job waits for the outcome of what he asks for. -/
structure Loader.Queries (p : Project) (Q : String × Option Url → Prop) (l : Loader)
    (log : List (String × Option Url)) : Prop where
  asked : l.resolver.Asked p.settings p.files log
  awaited : ∀ asker request, l.awaited? asker = some request →
    ∃ query, log[request.index]? = some query ∧ l.Asks p Q asker query

/-- What is known of a loader that is asked for modules of a set. -/
structure Machine.Follows (p : Project) (G : Resolved → Prop) (Q : String × Option Url → Prop)
    (m : Machine) : Prop where
  files : m.host.files = p.files
  registry : m.host.registry = p.registry
  compiler : m.host.compiler = .script
  bare : m.loader.evalSource = none
  alive : m.loader.alive = true
  sound : m.loader.resolver.Sound
  indexed : m.loader.Indexed
  queries : ∃ log, m.loader.Queries p Q log
  jobs : m.loader.AllFollow p G m.host.store
  store : m.host.store.Follows p

/-- A call that asks for modules by some queries only, and not for the eval module. -/
def Goal.Within (Q : String × Option Url → Prop) : Goal → Prop
  | .find specifier referrer _ => Q (specifier, referrer)
  | .eval _ => False
  | _ => True

/-- An action that starts such a call, or none. -/
def Action.Within (Q : String × Option Url → Prop) : Action → Prop
  | .start goal => goal.Within Q
  | .supply _ => False
  | _ => True

namespace Machine

variable {p : Project} {G : Resolved → Prop} {Q : String × Option Url → Prop} {m m' : Machine}
  {action : Action} {id : JobId} {job : Job} {t : Resolved}

theorem Follows.outcome (h : m.Follows p G Q) {asker : Asker} {request : RequestId}
    {outcome : Except LoadError Resolved} (hawaited : m.loader.awaited? asker = some request)
    (houtcome : m.loader.resolver.outcome? request = some outcome) :
    ∃ specifier referrer, m.loader.Asks p Q asker (specifier, referrer) ∧
      p.settings.resolve p.files specifier referrer = outcome := by
  obtain ⟨log, hlog⟩ := h.queries
  obtain ⟨⟨specifier, referrer⟩, hquery, hasks⟩ := hlog.awaited asker request hawaited
  obtain ⟨specifier', referrer', hquery', hresolve⟩ := hlog.asked.resolve_of_outcome houtcome
  cases hquery.symm.trans hquery'
  exact ⟨specifier, referrer, hasks, hresolve⟩

/-- The outcome for a dependency says where its specifier leads. -/
theorem Follows.leads (h : m.Follows p G Q) (hjob : m.loader.job? id = some job) {index : Nat}
    {dependencies : List Dependency} {d : Dependency} {request : RequestId}
    {outcome : Except LoadError Resolved} (hwiring : job.linking = .wiring dependencies)
    (hd : dependencies[index]? = some d) (hresolving : d.wiring = .resolving request)
    (houtcome : m.loader.resolver.outcome? request = some outcome) :
    ∃ c, p.content? job.target = some c ∧ d.specifier ∈ c.specifiers ∧
      p.leads job.target d.specifier = outcome := by
  have hawaited : m.loader.awaited? (.dependency id index) = some request := by
    show (m.loader.job? id).bind _ = _
    rw [hjob, Option.bind_some, hwiring, awaited?_wiring hd, hresolving]
  obtain ⟨_, _, ⟨t, c, specifier, ht, hc, hspecifier, heq⟩, hresolve⟩ :=
    h.outcome hawaited houtcome
  cases heq
  cases (Loader.target?_of_job? hjob).symm.trans ht
  have hfollows := (h.jobs id job hjob).linking
  rw [hwiring] at hfollows
  obtain ⟨c', hc', hspecifier'⟩ := hfollows.specifier hd
  cases hc.symm.trans hc'
  cases hspecifier.symm.trans hspecifier'
  exact ⟨c, hc, List.mem_of_getElem? hspecifier, hresolve⟩

/-! ### Jobs and units -/

/-- Jobs and units follow the project. -/
structure Loads (p : Project) (G : Resolved → Prop) (m : Machine) : Prop where
  jobs : m.loader.AllFollow p G m.host.store
  store : m.host.store.Follows p

theorem Follows.loads (h : m.Follows p G Q) : m.Loads p G := ⟨h.jobs, h.store⟩

theorem Loads.of_eq (h : m.Loads p G) (hjobs : m'.loader.jobs = m.loader.jobs)
    (hstore : m'.host.store = m.host.store) : m'.Loads p G := by
  refine ⟨?_, hstore ▸ h.store⟩
  rw [hstore]
  exact h.jobs.of_jobs hjobs (.refl _)

/-- One job gets further, with nothing done to units. -/
theorem Loads.changeJob (h : m.Loads p G) {f : Job → Job} (hjob : m.loader.job? id = some job)
    (htarget : ∀ job, (f job).target = job.target)
    (hself : (f job).Follows p G m.loader m.host.store) : (m.changeJob id f).Loads p G :=
  ⟨h.jobs.changeJob m.loader rfl (.refl _) hjob htarget hself, h.store⟩

theorem Loads.setInstantiation (h : m.Loads p G) (hjob : m.loader.job? id = some job)
    (q : Instantiation) : (m.setInstantiation id q).Loads p G :=
  h.changeJob hjob (fun _ => rfl) ⟨(h.jobs id job hjob).region, (h.jobs id job hjob).bare,
    (h.jobs id job hjob).preparation, (h.jobs id job hjob).linking⟩

theorem Loads.setLinking (h : m.Loads p G) (hjob : m.loader.job? id = some job) {q : Linking}
    (hq : q.Follows p m.loader job.target) : (m.setLinking id q).Loads p G :=
  h.changeJob hjob (fun _ => rfl) ⟨(h.jobs id job hjob).region, (h.jobs id job hjob).bare,
    (h.jobs id job hjob).preparation, hq⟩

theorem loads_finishPreparation (h : m.Follows p G Q) (hjob : m.loader.job? id = some job)
    (hformat : job.format = .js) {source : Except LoadError String}
    (hsource : job.url.source p.files none = source) :
    (m.finishPreparation id job.url source).Loads p G := by
  have hfollows := h.jobs id job hjob
  have htarget : job.target = ⟨job.url, .js⟩ := by rw [← hformat]; rfl
  cases source with
  | error e =>
    refine h.loads.changeJob hjob (fun _ => rfl)
      ⟨hfollows.region, hfollows.bare, .failed ?_, hfollows.linking⟩
    show p.content? job.target = none
    rw [htarget]
    simp [Project.content?, hsource, Except.toOption]
  | ok text =>
    obtain ⟨hstore, hkeeps, hpreparation⟩ := Host.follows_compile h.store h.compiler hsource
    refine ⟨?_, hstore⟩
    exact h.jobs.changeJob m.loader rfl hkeeps hjob (fun _ => rfl)
      ⟨hfollows.region, hfollows.bare, htarget.symm ▸ hpreparation, hfollows.linking⟩

/-- A job is made for a module. -/
theorem loads_makeJob (h : m.Follows p G Q) (ht : G t) : (m.makeJob t).Loads p G ∧
    (m.makeJob t).loader.target? ⟨m.loader.jobs.size⟩ = some t := by
  have htarget : ∀ preparation, (m.newJob t preparation).target = t := fun _ => rfl
  have hsize : ∀ {l : Loader} {preparation}, l.jobs = m.loader.jobs.push (m.newJob t preparation) →
      l.target? ⟨m.loader.jobs.size⟩ = some t := by
    intro l preparation hl
    have hjob : l.job? ⟨m.loader.jobs.size⟩ = some (m.newJob t preparation) := by
      rw [Loader.job?_push l _ _ hl, if_pos rfl]
    exact Loader.target?_of_job? hjob
  have hself : ∀ {l : Loader} {s : Store} {preparation}, Preparation.Follows p s t preparation →
      (m.newJob t preparation).Follows p G l s := fun hpreparation =>
    ⟨ht, h.bare, hpreparation, .waiting⟩
  obtain ⟨url, format⟩ := t
  unfold makeJob
  cases format with
  | js =>
    refine ⟨⟨?_, h.store⟩, hsize rfl⟩
    exact h.jobs.push rfl (.refl _) (hself (.idle rfl))
  | remote =>
    refine ⟨⟨?_, h.store⟩, hsize rfl⟩
    exact h.jobs.push rfl (.refl _) (hself (.failed rfl))
  | builtin =>
    obtain ⟨log, hlog⟩ := h.queries
    rw [hlog.asked.configured]
    obtain ⟨hstore, hkeeps, hpreparation⟩ := Host.follows_bridge h.store h.registry url
    refine ⟨⟨?_, hstore⟩, hsize rfl⟩
    exact h.jobs.push rfl hkeeps (hself hpreparation)

/-- A request gets the job of its module. -/
theorem loads_serve (h : m.Follows p G Q) (hG : p.Region G) (request : RequestId) (ht : G t) :
    (m.serve request t).1.Loads p G ∧
      (m.serve request t).1.loader.target? (m.serve request t).2 = some t := by
  cases hfind : m.loader.find? t.url with
  | some id =>
    rw [serve_hit request hfind]
    refine ⟨h.loads.of_eq rfl rfl, ?_⟩
    -- the job that has the URL stands for the same module
    obtain ⟨job, hjob, hurl⟩ := h.indexed.job_of_find? hfind
    have hsame : job.target = t := hG.sole _ _ (h.jobs id job hjob).region ht hurl
    exact hsame ▸ Loader.target?_of_job? hjob
  | none =>
    obtain ⟨hloads, htarget⟩ := loads_makeJob h ht
    rw [serve_miss request hfind]
    exact ⟨hloads.of_eq rfl rfl, htarget⟩

/-- A link phase begins with the specifiers of the module. -/
theorem loads_beginLink (h : m.Follows p G Q) (hjob : m.loader.job? id = some job) {x : UnitId}
    (hprepared : job.preparation = .done (.ok x)) :
    ∃ store specifiers, m.host.store.beginLink x = (store, .ok specifiers) ∧
      ({ m with host := { m.host with store } }.setLinking id
        (.wiring (specifiers.map fun specifier => { specifier }))).Loads p G := by
  have hfollows := h.jobs id job hjob
  obtain ⟨unit, hunit, hmade, htarget⟩ := hfollows.holds hprepared
  obtain ⟨c, hc, hspecifiers⟩ := hmade.specifiers
  obtain ⟨store, hbegun, hkeeps, hstore⟩ : ∃ store,
      m.host.store.beginLink x = (store, .ok c.specifiers) ∧ m.host.store.Keeps store ∧
        store.Follows p := by
    unfold Store.beginLink
    rw [hunit, ← hspecifiers]
    cases hmade with
    | script =>
      have hframes := Store.sameFrames_setStatus m.host.store x .linked
      exact ⟨_, rfl, hframes.keeps, h.store.of_frames hframes rfl rfl⟩
    | bridge => exact ⟨_, rfl, .refl _, h.store⟩
  refine ⟨store, c.specifiers, hbegun, h.jobs.changeJob m.loader rfl hkeeps hjob (fun _ => rfl)
    ⟨hfollows.region, hfollows.bare, hfollows.preparation.keeps hkeeps, ?_⟩, hstore⟩
  refine .wiring (htarget ▸ hc) ?_ fun d hd k hk => ?_
  · rw [List.map_map]
    exact List.map_id _
  · obtain ⟨specifier, -, rfl⟩ := List.mem_map.mp hd
    cases hk

/-- A link phase ends with an error, where its module cannot be linked. -/
theorem loads_failLinking (h : m.Follows p G Q) (hjob : m.loader.job? id = some job)
    (hnot : ¬ p.Links job.target) (dependencies : List Dependency) (e : LoadError) :
    (m.failLinking id dependencies e).Loads p G := by
  rw [failLinking_eq]
  have hgiven : (m.withResolver (m.loader.resolver.abandonAll dependencies)).Loads p G :=
    h.loads.of_eq rfl rfl
  exact hgiven.setLinking hjob (.failed hnot)

/-- The unit of a job records that of a dependency, which is that of the module to which it leads. -/
theorem loads_wire (h : m.Follows p G Q) (hjob : m.loader.job? id = some job)
    {dependencies : List Dependency} {index : Nat} {d : Dependency} {found : JobId}
    {other unit : UnitId} (hwiring : job.linking = .wiring dependencies)
    (hd : dependencies[index]? = some d) (hlocated : d.wiring = .located found)
    (hfound : m.loader.prepared? found = some (.ok other))
    (hown : m.loader.prepared? id = some (.ok unit)) :
    ({ m with host := { m.host with store := m.host.store.wire unit d.specifier other } }.setWiring
      id dependencies index (.wired found)).Loads p G := by
  have hfollows := h.jobs id job hjob
  obtain ⟨c, t, hc, hin, ht, hleads⟩ := hfollows.located hwiring hd (by rw [hlocated]; rfl)
  obtain ⟨own, hunit, hmade, htarget⟩ := h.jobs.holds hown (Loader.target?_of_job? hjob)
  obtain ⟨there, hthere, -, htarget'⟩ := h.jobs.holds hfound ht
  have hkeeps := m.host.store.keeps_wire unit d.specifier other
  have hlinking : (Linking.wiring dependencies).Follows p m.loader job.target :=
    hwiring ▸ hfollows.linking
  refine ⟨h.jobs.changeJob m.loader rfl hkeeps hjob (fun _ => rfl)
    ⟨hfollows.region, hfollows.bare, hfollows.preparation.keeps hkeeps,
      hlinking.modify hd fun k hk => ?_⟩, ?_⟩
  · cases hk
    exact ⟨t, ht, hleads⟩
  · -- only a script has specifiers
    obtain ⟨u, rfl⟩ : ∃ u, own = .script u := by
      cases hmade with
      | @script u => exact ⟨u, rfl⟩
      | @bridge b _ _ hcontent =>
        rw [← htarget] at hc
        cases hcontent.symm.trans hc
        cases hin
    refine h.store.wire hunit (by rw [hthere]; rfl) fun other' hother' => ?_
    cases hthere.symm.trans hother'
    rw [htarget, htarget']
    exact hleads

/-- An instantiation makes a component and binds units. -/
theorem loads_instantiateMembers (h : m.Follows p G Q) (hjob : m.loader.job? id = some job)
    (hopen : ∀ result, job.instantiation ≠ .done result) (unit : UnitId) (members : List JobId) :
    (m.instantiateMembers id unit members).Loads p G := by
  obtain ⟨hstore, hkeeps⟩ := h.store.instantiate unit
  rw [← store_instantiateMembers m id unit members] at hstore hkeeps
  have hlater := later_instantiateMembers unit members hjob hopen
  refine ⟨fun i job' hjob' => ?_, hstore⟩
  rw [job?_instantiateMembers] at hjob'
  obtain ⟨old, hold, rfl⟩ := Option.map_eq_some_iff.mp hjob'
  have hfollows : old.Follows p G (m.instantiateMembers id unit members).loader
      (m.instantiateMembers id unit members).host.store :=
    (h.jobs i old hold).mono (fun k t ht => hlater.target? ht) hkeeps
  exact ⟨hfollows.region, hfollows.bare, hfollows.preparation, hfollows.linking⟩

/-- A module is run. -/
theorem loads_serveInstantiated (h : m.Follows p G Q) (id : JobId) (wish : Wish) :
    (m.serveInstantiated id wish).1.Loads p G := by
  have hjobs := congrArg (·.jobs) (loader_serveInstantiated m id wish)
  obtain ⟨hstore, hkeeps⟩ : (m.serveInstantiated id wish).1.host.store.Follows p ∧
      m.host.store.Keeps (m.serveInstantiated id wish).1.host.store := by
    rcases store_serveInstantiated m id wish with hsame | ⟨unit, -, hevaluated⟩
    · rw [hsame]
      exact ⟨h.store, .refl _⟩
    · rw [hevaluated]
      exact h.store.evaluate unit
  exact ⟨h.jobs.of_jobs hjobs hkeeps, hstore⟩

/-- Every step keeps what jobs and units are. -/
theorem Rule.loads (h : Rule m action m') (hm : m.Follows p G Q) (hG : p.Region G)
    (hQ : ∀ query, Q query → ∀ t, p.settings.resolve p.files query.1 query.2 = .ok t → G t)
    (hwithin : action.Within Q) : m'.Loads p G := by
  have hlinking : ∀ {id : JobId} {job : Job} {dependencies : List Dependency},
      m.loader.job? id = some job → job.linking = .wiring dependencies →
      (Linking.wiring dependencies).Follows p m.loader job.target :=
    fun hjob hwiring => hwiring ▸ (hm.jobs _ _ hjob).linking
  cases h with
  | startEval source => exact hwithin.elim
  | supply source => exact hwithin.elim
  | prepareHere hjob hidle hplace =>
    have hfollows := hm.jobs _ _ hjob
    refine loads_finishPreparation hm hjob (hfollows.format_of_idle hidle) ?_
    unfold Url.source
    rw [← hfollows.bare, hplace]
  | @prepareFile id job path hjob hidle hplace =>
    have hfollows := hm.jobs _ _ hjob
    have hread : Loads p G { m with host := { m.host with reads := m.host.reads ++ [path] } } :=
      hm.loads.of_eq rfl rfl
    refine hread.changeJob hjob (fun _ => rfl) ⟨hfollows.region, hfollows.bare,
      .reading (hfollows.format_of_idle hidle) ?_, hfollows.linking⟩
    rw [← hplace, hfollows.bare]
    rfl
  | @read id job path hjob hreading =>
    obtain ⟨hformat, hplace⟩ := (hm.jobs _ _ hjob).place_of_reading hreading
    refine loads_finishPreparation hm hjob hformat ?_
    unfold Url.source
    rw [hplace, hm.files]
  | linkUnprepared hjob hwaiting hprepared =>
    have hnone := (hm.jobs _ _ hjob).missing hprepared
    exact hm.loads.setLinking hjob (.failed (Project.not_links_of_content? hnone))
  | linkRefused hjob hwaiting hprepared hrefused =>
    obtain ⟨store, specifiers, hbegun, -⟩ := loads_beginLink hm hjob hprepared
    cases hrefused.symm.trans hbegun
  | linkBegun hjob hwaiting hprepared hbegun =>
    obtain ⟨store, specifiers, hbegun', hloads⟩ := loads_beginLink hm hjob hprepared
    cases hbegun.symm.trans hbegun'
    exact hloads
  | linkEnded hjob => exact hm.loads.setLinking hjob .done
  | @wireAsked id index job dependencies d hjob hwiring hdep =>
    have hasked : (m.ask d.specifier (some job.url)).1.Loads p G := hm.loads.of_eq rfl rfl
    exact hasked.setLinking hjob
      (((hlinking hjob hwiring).modify hdep fun k hk => by cases hk).mono fun _ _ ht => ht)
  | wireDropped hjob hwiring hdep hunasked hdead => rw [hm.alive] at hdead; cases hdead
  | wireUnresolved hjob hwiring hdep hresolving houtcome =>
    obtain ⟨c, hc, hin, hleads⟩ := hm.leads hjob hwiring hdep hresolving houtcome
    exact loads_failLinking hm hjob (Project.not_links_of_error hc hin hleads) _ _
  | wireServed hjob hwiring hdep hresolving houtcome =>
    obtain ⟨c, hc, hin, hleads⟩ := hm.leads hjob hwiring hdep hresolving houtcome
    have ht := hG.closed _ _ (hm.jobs _ _ hjob).region ⟨c, hc, _, hin, hleads⟩
    obtain ⟨hloads, htarget⟩ := loads_serve hm hG _ ht
    refine hloads.setLinking (job?_serve _ _ hjob) ?_
    refine ((hlinking hjob hwiring).mono fun k t ht =>
      (later_serve m _ _).target? ht).modify hdep fun k hk => ?_
    cases hk
    exact ⟨_, htarget, hleads⟩
  | wireUnprepared hjob hwiring hdep hlocated hprepared =>
    obtain ⟨c, t', hc, hin, ht', hleads⟩ :=
      (hm.jobs _ _ hjob).located hwiring hdep (by rw [hlocated]; rfl)
    have hnone := hm.jobs.missing hprepared ht'
    exact loads_failLinking hm hjob (Project.not_links_of_missing hc hin hleads hnone) _ _
  | wireEnded hjob hwiring hdep hlocated hfound hown =>
    exact loads_wire hm hjob hwiring hdep hlocated hfound hown
  | enterJoined hjob | enterUnprepared hjob | enterWalk hjob | enterDropped hjob | walkPass hjob
  | walkVisit hjob | walkStopped hjob | walkJoined hjob => exact hm.loads.setInstantiation hjob _
  | callEnters _ _ hjob => exact hm.loads.setInstantiation hjob _
  | walkEnded hjob hwalking =>
    exact loads_instantiateMembers hm hjob (fun result => by rw [hwalking]; simp) _ _
  | @callServed call request wish t hcall houtcome =>
    obtain ⟨specifier, referrer, hquery, hresolve⟩ := hm.outcome (awaited?_call hcall) houtcome
    exact (loads_serve hm hG request (hQ _ hquery t hresolve)).1.of_eq rfl rfl
  | callInstantiated => exact (loads_serveInstantiated hm _ _).of_eq rfl rfl
  | _ => exact hm.loads.of_eq rfl rfl

/-! ### Queries -/

/-- Who waits for a request that is new has asked for it just now. -/
theorem Rule.asks (h : Rule m action m') (hm : m.Follows p G Q) (hwithin : action.Within Q)
    {asker : Asker} {request : RequestId}
    (hawaited : m'.loader.awaited? asker = some request)
    (hnew : m.loader.awaited? asker ≠ some request) :
    ∃ query, m.asks action = [query] ∧ request = ⟨m.loader.resolver.requests.size⟩ ∧
      m.loader.Asks p Q asker query := by
  obtain ⟨rfl, hsize, -, -⟩ := (h.awaited_cases hawaited).resolve_left hnew
  -- a step that makes no request leaves nobody waiting for a new one
  have hnone : m.asks action ≠ [] := fun hnil => by
    rw [h.resolver.size, hnil] at hsize
    exact Nat.lt_irrefl _ hsize
  have hwire : ∀ {id : JobId} {index : Nat} {job : Job} {dependencies : List Dependency}
      {d : Dependency}, m.loader.job? id = some job → job.linking = .wiring dependencies →
      dependencies[index]? = some d → ¬ (d.wiring = .unasked ∧ m.loader.alive = true) →
      m.asks (.wire id index) = [] := by
    intro id index job dependencies d hjob hwiring hd hnot
    rw [asks_wire hjob hwiring hd, if_neg hnot]
  cases h with
  | startResolve specifier referrer =>
    rcases awaited_pushCall hawaited with hold | ⟨-, hstate⟩
    · exact absurd hold hnew
    · cases hstate
  | startFind specifier referrer wish =>
    rcases awaited_pushCall hawaited with hold | ⟨rfl, -⟩
    · exact absurd hold hnew
    · exact ⟨_, rfl, rfl, hwithin⟩
  | startEval source => exact hwithin.elim
  | @wireAsked id index job dependencies d hjob hwiring hd hunasked halive =>
    rcases awaited_setWiring (m := (m.ask d.specifier (some job.url)).1) hjob hwiring hawaited with
      ⟨-, hold⟩ | ⟨rfl, -⟩
    · exact absurd hold hnew
    · have hfollows := (hm.jobs id job hjob).linking
      rw [hwiring] at hfollows
      obtain ⟨c, hc, hspecifier⟩ := hfollows.specifier hd
      refine ⟨(d.specifier, some job.url), ?_, rfl, job.target, c, d.specifier,
        Loader.target?_of_job? hjob, hc, hspecifier, rfl⟩
      rw [asks_wire hjob hwiring hd, if_pos ⟨hunasked, halive⟩]
  | wireDropped hjob hwiring hd hunasked hdead =>
    exact absurd (hwire hjob hwiring hd fun hand => by rw [hdead] at hand; cases hand.2) hnone
  | wireUnresolved hjob hwiring hd hstate | wireServed hjob hwiring hd hstate =>
    exact absurd (hwire hjob hwiring hd fun hand => by rw [hstate] at hand; cases hand.1) hnone
  | wireUnprepared hjob hwiring hd hstate | wireEnded hjob hwiring hd hstate =>
    exact absurd (hwire hjob hwiring hd fun hand => by rw [hstate] at hand; cases hand.1) hnone
  | _ => exact absurd rfl hnone

/-- Only calls for the eval module supply a text for it. -/
theorem Rule.bare (h : Rule m action m') (hwithin : action.Within Q) :
    m'.loader.evalSource = m.loader.evalSource :=
  h.evalSource_eq (fun _ heq => by rw [heq] at hwithin; exact hwithin)
    fun _ heq => by rw [heq] at hwithin; exact hwithin

/-- Every step keeps what is known of a loader. -/
theorem Rule.follows (h : Rule m action m') (hm : m.Follows p G Q) (hG : p.Region G)
    (hQ : ∀ query, Q query → ∀ t, p.settings.resolve p.files query.1 query.2 = .ok t → G t)
    (hwithin : action.Within Q) : m'.Follows p G Q where
  files := h.sameSetup.files.trans hm.files
  registry := h.sameSetup.registry.trans hm.registry
  compiler := h.sameSetup.compiler.trans hm.compiler
  bare := (h.bare hwithin).trans hm.bare
  alive := (h.later hm.sound).alive.trans hm.alive
  sound := h.resolver.sound hm.sound
  indexed := h.mapStep.indexed hm.indexed
  queries := by
    obtain ⟨log, hlog⟩ := hm.queries
    refine ⟨log ++ m.asks action, hlog.asked.step (hm.files ▸ h.resolver), ?_⟩
    intro asker request hawaited
    by_cases hold : m.loader.awaited? asker = some request
    · obtain ⟨query, hquery, hasks⟩ := hlog.awaited asker request hold
      refine ⟨query, ?_, Loader.Asks.later (h.later hm.sound) hasks⟩
      rw [List.getElem?_append_left (List.getElem?_eq_some_iff.mp hquery).1]
      exact hquery
    · obtain ⟨query, hnew, rfl, hasks⟩ := h.asks hm hwithin hawaited hold
      refine ⟨query, ?_, Loader.Asks.later (h.later hm.sound) hasks⟩
      rw [hnew, hlog.asked.size, List.getElem?_append_right (Nat.le_refl _), Nat.sub_self]
      rfl
  jobs := (h.loads hm hG hQ hwithin).jobs
  store := (h.loads hm hG hQ hwithin).store

theorem follows_fresh (p : Project) (G : Resolved → Prop) (Q : String × Option Url → Prop) :
    p.machine.Follows p G Q where
  files := rfl
  registry := rfl
  compiler := rfl
  bare := rfl
  alive := rfl
  sound := Resolver.sound_ofSettings p.settings
  indexed := indexed_fresh _ p.settings
  queries := ⟨[], Resolver.asked_ofSettings, fun asker _ h => by cases asker <;> cases h⟩
  jobs id job hjob := by cases hjob
  store := {
    toOwned := ⟨fun x unit hunit => (by cases hunit), fun x unit hunit => (by cases hunit),
      fun x y unit other _ hunit => by cases hunit⟩
    tables := rfl
    made := fun x unit hunit => by cases hunit
    links := fun x y specifier unit other himports => by
      obtain ⟨_, _, _, hshape, -⟩ := himports
      cases hshape
    known := fun x specifier y himports => by
      obtain ⟨_, _, _, hshape, -⟩ := himports
      cases hshape }

/-- What is kept by every step of some kind holds after a run of such steps. -/
theorem within_induction {A : Action → Prop} {P : Machine → Prop} {actions : List Action}
    (step : ∀ {m action m'}, Rule m action m' → A action → P m → P m') (h : P m)
    (hwithin : ∀ action ∈ actions, A action) : P (m.acts actions) := by
  induction actions generalizing m with
  | nil => exact h
  | cons action rest ih =>
    show P ((m.happen (.step action)).acts rest)
    refine ih ?_ fun a ha => hwithin a (List.mem_cons_of_mem _ ha)
    rcases m.happen_cases action with hsame | hrule
    · rw [hsame]
      exact h
    · exact step hrule (hwithin action List.mem_cons_self) h

end Machine

end ModuleLoader
