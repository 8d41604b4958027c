import Mathlib.Data.Set.Card
import ModuleLoader.Proofs.Discovery
import ModuleLoader.Proofs.Importing

/-!
# Loaders that explore a project

A loader makes jobs for modules that are discovered from the one that it was called for, whatever
text it has for the eval module and whatever order its steps come in. The link phase of such a job
asks for the specifiers of its module, one after the other, and for nothing else.

Results:
1. `Rule.keeps`: no step takes from a unit what it was made with.
2. `Machine.Explores`, `Rule.explores`: all jobs are for modules that are discovered, and every step
   keeps it.
3. `Explores.size_le`, `Explores.wiring`, `Explores.linked`: how many jobs there are, and how many
   dependencies each of them has.
-/

namespace ModuleLoader

/-! ## Specifiers of modules -/

namespace Project

variable {p : Project} {supplied : Option String} {start : Option Resolved} {t t' : Resolved}
  {specifier : String}

/-- The specifiers that a module asks for, when this text is supplied for the eval module. -/
def requires (p : Project) (supplied : Option String) (t : Resolved) : List String :=
  (p.program? supplied t).elim [] Script.Program.specifiers

theorem Discovered.requires (h : p.Discovered supplied start t)
    (hmem : specifier ∈ p.requires supplied t) (hleads : p.leads t specifier = .ok t') :
    p.Discovered supplied start t' := by
  unfold Project.requires at hmem
  cases hprogram : p.program? supplied t with
  | none => rw [hprogram] at hmem; cases hmem
  | some program => rw [hprogram] at hmem; exact .linked h hprogram hmem hleads

/-- A script asks for the specifiers of the module of its source. -/
theorem requires_of_compile {url : Url} {source : String} {cells cells' : Cells} {u : ScriptUnit}
    (hsource : url.source p.files supplied = .ok source)
    (h : ScriptUnit.compile url source cells = .ok (cells', u)) :
    u.program.specifiers = p.requires supplied ⟨url, .js⟩ := by
  obtain ⟨program, names, hprogram, hnames, -, rfl⟩ := compile_eq_ok h
  unfold Project.requires program?
  simp [hsource, hprogram, hnames, Except.toOption]

end Project

/-! ## Units that keep what they were made with -/

namespace Store

variable {s : Store}

theorem keeps_beginLink (s : Store) (x : UnitId) : s.Keeps (s.beginLink x).1 := by
  unfold beginLink
  split
  next => exact .refl s
  next => exact (sameFrames_setStatus s x .linked).keeps
  next => exact .refl s
  next => exact fun y unit hunit => ⟨unit, hunit, rfl⟩

theorem keeps_instantiate (hs : s.NoManifests) (x : UnitId) : s.Keeps (s.instantiate x).1 := by
  obtain ⟨log, hruns⟩ := instantiate_runs hs x
  exact (hruns.forth instantiation_lawful).frames.keeps

theorem keeps_evaluate (hs : s.NoManifests) (x : UnitId) : s.Keeps (s.evaluate x).1 := by
  obtain ⟨log, hruns⟩ := evaluate_runs hs x
  exact (hruns.forth evaluation_lawful).frames.keeps

end Store

namespace Machine

variable {m m' : Machine} {action : Action}

theorem Does.keeps {deed : Store.Deed} (h : m.Does deed) (hs : m.host.store.NoManifests) :
    m.host.store.Keeps (m.host.store.enact deed) := by
  cases h with
  | instantiate => exact Store.keeps_instantiate hs _
  | evaluate => exact Store.keeps_evaluate hs _
  | prepare hprepares =>
    cases hprepares with
    | script url source =>
      unfold Store.enact
      dsimp only
      split
      next => exact m.host.store.keeps_add _ _
      next => exact .refl _
    | bridge => exact m.host.store.keeps_add _ _
    | link =>
      unfold Store.enact
      dsimp only
      split
      next =>
        split
        next => exact Store.keeps_beginLink _ _
        next => exact .refl _
      next => exact .refl _
    | wire =>
      unfold Store.enact
      dsimp only
      split
      next =>
        split
        next => exact Store.keeps_wire _ _ _ _
        next => exact .refl _
      next => exact .refl _

/-- No step takes from a unit what it was made with. -/
theorem Rule.keeps (h : Rule m action m') (hm : m.Regular) : m.host.store.Keeps m'.host.store := by
  rcases h.does hm with hsame | ⟨deed, hdeed, hstore⟩
  · rw [hsame]
    exact .refl _
  · rw [hstore]
    exact hdeed.keeps hm.wired.wired.safe.plain.noManifests

end Machine

/-! ## Jobs -/

/-- A unit that asks for the specifiers of a module. -/
def Store.Requires (s : Store) (p : Project) (supplied : Option String) (x : UnitId) (t : Resolved) :
    Prop :=
  ∃ unit, s.unit? x = some unit ∧ unit.specifiers = p.requires supplied t

/-- How far the preparation for a module is, with a text for the eval module. -/
inductive Preparation.Explores (p : Project) (supplied : Option String) (s : Store) (t : Resolved) :
    Preparation → Prop
  | idle : t.format = .js → Explores p supplied s t .idle
  | reading {path : FilePath} : t.format = .js → t.url.sourcePlace supplied = .file path →
      Explores p supplied s t (.reading path)
  | unit {x : UnitId} : s.Requires p supplied x t → Explores p supplied s t (.done (.ok x))
  | failed {e : LoadError} : Explores p supplied s t (.done (.error e))

/-- What is known of a job. -/
structure Job.Explores (p : Project) (supplied : Option String) (s : Store) (job : Job) : Prop where
  source : job.evalSource = supplied
  preparation : job.preparation.Explores p supplied s job.target

/-- All jobs are prepared for their modules. -/
def Loader.AllExplore (p : Project) (supplied : Option String) (l : Loader) (s : Store) : Prop :=
  ∀ id job, l.job? id = some job → job.Explores p supplied s

/-- What a job has for its preparation. -/
def Job.origin (job : Job) : Resolved × Option String × Preparation :=
  (job.target, job.evalSource, job.preparation)

section

variable {p : Project} {supplied : Option String} {s s' : Store} {x : UnitId} {t : Resolved}

theorem ModuleUnit.specifiers_of_core {unit other : ModuleUnit} (h : unit.core = other.core) :
    unit.specifiers = other.specifiers := by
  have hcore : ∀ unit : ModuleUnit, unit.core.specifiers = unit.specifiers := fun unit => by
    cases unit <;> rfl
  rw [← hcore, h, hcore]

theorem Store.Requires.keeps (h : s.Requires p supplied x t) (hkeeps : s.Keeps s') :
    s'.Requires p supplied x t := by
  obtain ⟨unit, hunit, hspecifiers⟩ := h
  obtain ⟨unit', hunit', hcore⟩ := hkeeps x unit hunit
  exact ⟨unit', hunit', (ModuleUnit.specifiers_of_core hcore).trans hspecifiers⟩

theorem Preparation.Explores.keeps {preparation : Preparation}
    (h : preparation.Explores p supplied s t) (hkeeps : s.Keeps s') :
    preparation.Explores p supplied s' t := by
  cases h with
  | idle h => exact .idle h
  | reading h h' => exact .reading h h'
  | unit h => exact .unit (h.keeps hkeeps)
  | failed => exact .failed

theorem Job.Explores.of_origin {job job' : Job} (h : job.Explores p supplied s)
    (hsame : job'.origin = job.origin) (hkeeps : s.Keeps s') : job'.Explores p supplied s' := by
  obtain ⟨htarget, hrest⟩ := Prod.mk.inj hsame
  obtain ⟨hsupplied, hpreparation⟩ := Prod.mk.inj hrest
  refine ⟨hsupplied.trans h.source, ?_⟩
  rw [htarget, hpreparation]
  exact h.preparation.keeps hkeeps

end

namespace Loader

variable {p : Project} {supplied : Option String} {l l' : Loader} {s s' : Store} {id : JobId}
  {job : Job} {f : Job → Job}

/-- Two loaders whose jobs have the same for their preparations. -/
def SameOrigins (l l' : Loader) : Prop :=
  ∀ id, (l'.job? id).map Job.origin = (l.job? id).map Job.origin

theorem sameOrigins_of_jobs (h : l'.jobs = l.jobs) : l.SameOrigins l' := fun id => by
  unfold ModuleMap.job?
  rw [h]

theorem sameOrigins_changeJob (l : Loader) (id : JobId)
    (hf : ∀ job, (f job).origin = job.origin) : l.SameOrigins (l.changeJob id f) := fun k => by
  rw [job?_changeJob]
  split
  next =>
    rw [Option.map_map]
    exact congrArg (fun g => (l.job? k).map g) (funext hf)
  next => rfl

theorem AllExplore.of_origins (h : l.AllExplore p supplied s) (hsame : l.SameOrigins l')
    (hkeeps : s.Keeps s') : l'.AllExplore p supplied s' := by
  intro id job' hjob'
  have horigin := hsame id
  rw [hjob'] at horigin
  obtain ⟨job, hjob, heq⟩ := Option.map_eq_some_iff.mp horigin.symm
  exact (h id job hjob).of_origin heq.symm hkeeps

/-- One job is prepared further. -/
theorem AllExplore.changeJob (h : l.AllExplore p supplied s) (hkeeps : s.Keeps s')
    (hjob : l.job? id = some job) (hself : (f job).Explores p supplied s') :
    (l.changeJob id f).AllExplore p supplied s' := by
  intro i job' hjob'
  rw [job?_changeJob] at hjob'
  split at hjob'
  next hid =>
    subst hid
    rw [hjob] at hjob'
    cases hjob'
    exact hself
  next => exact (h i job' hjob').of_origin rfl hkeeps

/-- A job is added. -/
theorem AllExplore.push (h : l.AllExplore p supplied s) (hjobs : l'.jobs = l.jobs.push job)
    (hkeeps : s.Keeps s') (hself : job.Explores p supplied s') : l'.AllExplore p supplied s' := by
  intro i job' hjob'
  rw [job?_push l' l.jobs job hjobs] at hjob'
  split at hjob'
  next => cases hjob'; exact hself
  next => exact (h i job' hjob').of_origin rfl hkeeps

end Loader

/-! ### Making units -/

namespace Host

variable {p : Project} {supplied : Option String}

theorem explores_compile {host : Host} (hcompiler : host.compiler = .script) {url : Url}
    {source : String} (hsource : url.source p.files supplied = .ok source) :
    (Preparation.done (host.compile url source).2).Explores p supplied
      (host.compile url source).1.store ⟨url, .js⟩ := by
  unfold compile
  rw [hcompiler]
  dsimp only
  cases hu : ScriptUnit.compile url source host.store.cells with
  | error e => exact .failed
  | ok made =>
    obtain ⟨cells, u⟩ := made
    exact .unit ⟨.script u, Store.unit?_add_new { host.store with cells } _,
      Project.requires_of_compile hsource hu⟩

theorem explores_bridge (host : Host) (front : String) (url : Url) :
    (Preparation.done (host.bridge front url).2).Explores p supplied (host.bridge front url).1.store
      ⟨url, .builtin⟩ := by
  unfold bridge
  split
  next => exact .failed
  next =>
    split
    next => exact .failed
    next library _ =>
      exact .unit ⟨.bridge (Bridge.make url library.names (some [.fill library.table])
        host.store.cells).2, Store.unit?_add_new { host.store with cells := _ } _, rfl⟩

end Host

/-! ## Loaders -/

/-- What is known of a loader that was called for one module. -/
structure Machine.Explores (p : Project) (supplied : Option String) (start : Option Resolved)
    (m : Machine) : Prop where
  regular : m.Regular
  files : m.host.files = p.files
  source : m.loader.evalSource = supplied
  /-- All requests that succeed lead to modules that are discovered. -/
  asked : ∃ log, m.loader.resolver.Asked p.settings p.files log ∧
    ∀ query ∈ log, ∀ t, p.settings.resolve p.files query.1 query.2 = .ok t →
      p.Discovered supplied start t
  entries : ∃ log, m.loader.Entries log
  targets : ∀ t ∈ m.loader.entries, p.Discovered supplied start t
  jobs : m.loader.AllExplore p supplied m.host.store

/-- A call that asks for modules which are discovered, and for the eval module with this text only. -/
def Goal.From (p : Project) (supplied : Option String) (start : Option Resolved) : Goal → Prop
  | .resolve specifier referrer | .find specifier referrer _ =>
    ∀ t, p.settings.resolve p.files specifier referrer = .ok t → p.Discovered supplied start t
  | .eval source => supplied = some source ∧ p.Discovered supplied start ⟨Url.evalModule, .js⟩
  | .ask .. => True

/-- An action that starts such a call, or none. -/
def Action.From (p : Project) (supplied : Option String) (start : Option Resolved) : Action → Prop
  | .start goal => goal.From p supplied start
  | .supply _ => False
  | _ => True

theorem Action.Internal.from {p : Project} {supplied : Option String} {start : Option Resolved}
    {action : Action} (h : action.Internal) : action.From p supplied start := by
  cases action with
  | start goal => exact h.elim
  | supply source => exact h.elim
  | _ => trivial

namespace Machine

variable {p : Project} {supplied : Option String} {start : Option Resolved} {m m' : Machine}
  {action : Action} {id : JobId} {job : Job} {t : Resolved}

theorem Explores.target (h : m.Explores p supplied start) (hjob : m.loader.job? id = some job) :
    p.Discovered supplied start job.target := by
  refine h.targets _ (Array.mem_of_getElem? (i := id.index) ?_)
  rw [Loader.getElem?_entries]
  exact Option.map_eq_some_iff.mpr ⟨job, hjob, rfl⟩

theorem Explores.settings (h : m.Explores p supplied start) :
    m.loader.resolver.settings = p.settings := by
  obtain ⟨log, hlog, -⟩ := h.asked
  exact hlog.configured

/-! ### What link phases ask for -/

/-- A unit that is prepared asks for the specifiers of the module of its job. -/
theorem Explores.requires (h : m.Explores p supplied start) {x : UnitId}
    (hjob : m.loader.job? id = some job) (hprep : job.preparation = .done (.ok x))
    {specifiers : List String} (hspecifies : m.host.store.Specifies x specifiers) :
    specifiers = p.requires supplied job.target := by
  have hexplores := (h.jobs id job hjob).preparation
  rw [hprep] at hexplores
  cases hexplores with
  | unit hx =>
    obtain ⟨unit, hunit, hsame⟩ := hx
    exact (Store.specifiers_of_unit? hunit hspecifies).trans hsame

/-- A link phase that goes on asks for the specifiers of its module. -/
theorem Explores.wiring (h : m.Explores p supplied start) (hjob : m.loader.job? id = some job)
    {dependencies : List Dependency} (hwiring : job.linking = .wiring dependencies) :
    dependencies.map Dependency.specifier = p.requires supplied job.target := by
  obtain ⟨x, hprep⟩ := h.regular.units id job hjob (.inl ⟨_, hwiring⟩)
  have hunit := h.regular.wired.wired.unit (Loader.built?_of_job? hjob hprep)
  exact h.requires hjob hprep (hunit.begun dependencies hwiring).2.1

/-- A link phase that ended well has found a job for each specifier of its module. -/
theorem Explores.linked (h : m.Explores p supplied start) (hjob : m.loader.job? id = some job)
    {jobs : List JobId} (hdone : job.linking = .done (.ok jobs)) :
    jobs.length = (p.requires supplied job.target).length := by
  obtain ⟨x, hprep⟩ := h.regular.units id job hjob (.inr ⟨_, hdone⟩)
  have hunit := h.regular.wired.wired.unit (Loader.built?_of_job? hjob hprep)
  obtain ⟨specifiers, hspecifies, hall, -⟩ := hunit.mirrors jobs hdone
  rw [← h.requires hjob hprep hspecifies]
  exact hall.length_eq.symm

/-- Every request leads to modules that are discovered. -/
theorem Explores.asks (h : m.Explores p supplied start) (hfrom : action.From p supplied start)
    {query : String × Option Url} (hquery : query ∈ m.asks action)
    (hresolve : p.settings.resolve p.files query.1 query.2 = .ok t) :
    p.Discovered supplied start t := by
  cases action with
  | start goal =>
    cases goal with
    | resolve specifier referrer | find specifier referrer wish =>
      cases List.mem_singleton.mp hquery
      exact hfrom t hresolve
    | eval source =>
      unfold asks at hquery
      dsimp only at hquery
      split at hquery
      next => cases hquery
      next =>
        cases List.mem_singleton.mp hquery
        dsimp only at hresolve
        unfold Settings.resolve at hresolve
        rw [h.settings, target_evalSpecifier] at hresolve
        cases hresolve
        exact hfrom.2
    | ask => cases hquery
  | wire id index =>
    unfold asks at hquery
    dsimp only at hquery
    split at hquery
    next => cases hquery
    next job hjob =>
      split at hquery
      next dependencies hwiring =>
        split at hquery
        next => cases hquery
        next dependency hdep =>
          split at hquery
          next =>
            cases List.mem_singleton.mp hquery
            refine (h.target hjob).requires ?_ hresolve
            rw [← h.wiring hjob hwiring]
            exact List.mem_map_of_mem (List.mem_of_getElem? hdep)
          next => cases hquery
      next => cases hquery
  | _ => cases hquery

/-! ### Every step -/

theorem explores_finishPreparation (h : m.Explores p supplied start)
    {source : Except LoadError String}
    (hkeeps : m.host.store.Keeps (m.finishPreparation id job.url source).host.store)
    (hjob : m.loader.job? id = some job) (hformat : job.format = .js)
    (hsource : job.url.source p.files supplied = source) :
    (m.finishPreparation id job.url source).loader.AllExplore p supplied
      (m.finishPreparation id job.url source).host.store := by
  have htarget : job.target = ⟨job.url, .js⟩ := by
    rw [← hformat]
    rfl
  cases source with
  | error e =>
    exact h.jobs.changeJob (.refl _) hjob ⟨(h.jobs id job hjob).source, .failed⟩
  | ok text =>
    refine h.jobs.changeJob hkeeps hjob ⟨(h.jobs id job hjob).source, ?_⟩
    have hcompiled := Host.explores_compile h.regular.wired.compiler hsource
    rw [← htarget] at hcompiled
    exact hcompiled

theorem explores_makeJob {n : Machine} (h : n.loader.AllExplore p supplied n.host.store)
    (hsupplied : n.loader.evalSource = supplied)
    (hkeeps : n.host.store.Keeps (n.makeJob t).host.store) :
    (n.makeJob t).loader.AllExplore p supplied (n.makeJob t).host.store := by
  obtain ⟨url, format⟩ := t
  unfold makeJob at hkeeps ⊢
  cases format with
  | js => exact h.push rfl (.refl _) ⟨hsupplied, .idle rfl⟩
  | remote => exact h.push rfl (.refl _) ⟨hsupplied, .failed⟩
  | builtin => exact h.push rfl hkeeps ⟨hsupplied, Host.explores_bridge _ _ _⟩

theorem explores_serve {n : Machine} (h : n.loader.AllExplore p supplied n.host.store)
    (hsupplied : n.loader.evalSource = supplied) (request : RequestId)
    (hkeeps : n.host.store.Keeps (n.serve request t).1.host.store) :
    (n.serve request t).1.loader.AllExplore p supplied (n.serve request t).1.host.store := by
  cases hfind : n.loader.find? t.url with
  | some id =>
    rw [serve_hit request hfind]
    exact h.of_origins (Loader.sameOrigins_of_jobs rfl) (.refl _)
  | none =>
    rw [serve_miss request hfind] at hkeeps ⊢
    exact (explores_makeJob h hsupplied hkeeps).of_origins (Loader.sameOrigins_of_jobs rfl) (.refl _)

theorem sameOrigins_instantiateMembers (m : Machine) (id : JobId) (unit : UnitId)
    (members : List JobId) : m.loader.SameOrigins (m.instantiateMembers id unit members).loader := by
  intro i
  rw [job?_instantiateMembers, Option.map_map]
  rfl

/-- Jobs stay prepared for their modules. -/
theorem Rule.allExplore (h : Rule m action m') (hm : m.Explores p supplied start)
    (hfrom : action.From p supplied start) : m'.loader.AllExplore p supplied m'.host.store := by
  have hkeeps := h.keeps hm.regular
  have hsame : ∀ {id : JobId} {f : Job → Job}, (∀ job, (f job).origin = job.origin) →
      m.loader.SameOrigins (m.loader.changeJob id f) := fun hf => Loader.sameOrigins_changeJob _ _ hf
  cases h with
  | startEval source =>
    cases hfind : m.loader.find? Url.evalModule with
    | some id =>
      rw [startEval_loaded source hfind]
      exact hm.jobs.of_origins (Loader.sameOrigins_of_jobs rfl) (.refl _)
    | none =>
      rw [(startEval_fresh source hfind).2] at hkeeps ⊢
      exact explores_serve (n := ((m.supplied source).ask _ none).1) hm.jobs hfrom.1.symm _ hkeeps
  | supply source => exact hfrom.elim
  | prepareHere hjob hidle hplace =>
    have hexplores := hm.jobs _ _ hjob
    have hpreparation := hexplores.preparation
    rw [hidle] at hpreparation
    cases hpreparation with
    | idle hformat =>
      refine explores_finishPreparation hm hkeeps hjob hformat ?_
      unfold Url.source
      rw [← hexplores.source, hplace]
  | prepareFile hjob hidle hplace =>
    have hexplores := hm.jobs _ _ hjob
    have hpreparation := hexplores.preparation
    rw [hidle] at hpreparation
    cases hpreparation with
    | idle hformat =>
      refine hm.jobs.changeJob (.refl _) hjob ⟨hexplores.source, .reading hformat ?_⟩
      rw [← hexplores.source]
      exact hplace
  | @read id job path hjob hreading =>
    have hexplores := hm.jobs _ _ hjob
    have hpreparation := hexplores.preparation
    rw [hreading] at hpreparation
    cases hpreparation with
    | reading hformat hplace =>
      refine explores_finishPreparation hm hkeeps hjob hformat ?_
      unfold Url.source
      rw [show job.url.sourcePlace supplied = .file path from hplace, hm.files]
  | wireServed =>
    have hserved := explores_serve hm.jobs hm.source _ hkeeps
    exact hserved.of_origins (Loader.sameOrigins_changeJob _ _ fun _ => rfl) (.refl _)
  | callServed =>
    have hserved := explores_serve hm.jobs hm.source _ hkeeps
    exact hserved.of_origins (Loader.sameOrigins_of_jobs rfl) (.refl _)
  | linkUnprepared | linkRefused | linkBegun | linkEnded | wireAsked | wireEnded | enterJoined
  | enterUnprepared | enterWalk | enterDropped | walkPass | walkVisit | walkStopped | walkJoined
  | callEnters => exact hm.jobs.of_origins (hsame fun _ => rfl) hkeeps
  | wireDropped | wireUnresolved | wireUnprepared =>
    rw [failLinking_eq] at hkeeps ⊢
    exact hm.jobs.of_origins (hsame fun _ => rfl) hkeeps
  | walkEnded => exact hm.jobs.of_origins (sameOrigins_instantiateMembers _ _ _ _) hkeeps
  | @callInstantiated call id wish =>
    have hjobs := congrArg (·.jobs) (loader_serveInstantiated m id wish)
    exact hm.jobs.of_origins (Loader.sameOrigins_of_jobs hjobs) hkeeps
  | _ => exact hm.jobs.of_origins (Loader.sameOrigins_of_jobs rfl) hkeeps

/-- Only calls for the eval module supply a text for it, and then it is the one that is known. -/
theorem Rule.evalSource (h : Rule m action m') (hm : m.Explores p supplied start)
    (hfrom : action.From p supplied start) : m'.loader.evalSource = supplied := by
  by_cases heval : ∃ source, action = .start (.eval source)
  · obtain ⟨source, rfl⟩ := heval
    cases h
    cases hfind : m.loader.find? Url.evalModule with
    | some id =>
      rw [startEval_loaded source hfind]
      exact hm.source
    | none =>
      rw [(startEval_fresh source hfind).2]
      obtain ⟨map, served, hloader⟩ := loader_serve
        ((m.supplied source).ask m.loader.resolver.settings.evalSpecifier none).1 _ _
      exact (congrArg Loader.evalSource hloader).trans hfrom.1.symm
  · refine (h.evalSource_eq (fun source heq => heval ⟨source, heq⟩) ?_).trans hm.source
    rintro source rfl
    exact hfrom

/-- Every step keeps a loader exploring. -/
theorem Rule.explores (h : Rule m action m') (hm : m.Explores p supplied start)
    (hfrom : action.From p supplied start) : m'.Explores p supplied start := by
  obtain ⟨log, hlog, hleads⟩ := hm.asked
  have hasked := hlog.step (hm.files ▸ h.resolver)
  have hleads' : ∀ query ∈ log ++ m.asks action, ∀ t,
      p.settings.resolve p.files query.1 query.2 = .ok t → p.Discovered supplied start t := by
    intro query hquery t hresolve
    rcases List.mem_append.mp hquery with hold | hnew
    · exact hleads query hold t hresolve
    · exact hm.asks hfrom hnew hresolve
  refine ⟨h.regular hm.regular, h.sameSetup.files.trans hm.files, h.evalSource hm hfrom,
    ⟨_, hasked, hleads'⟩, ?_, fun t ht => ?_, h.allExplore hm hfrom⟩
  · obtain ⟨resolved, hentries⟩ := hm.entries
    exact ⟨_, hentries.step h.mapStep⟩
  · -- an entry that is new is one to which a request led
    have htaken : ∀ {request target}, (request, target) ∈ m.resolutions action →
        p.Discovered supplied start target := by
      intro request target hmem
      have houtcome := h.taken_outcome hm.regular.sound (taken_of_mem hmem)
      obtain ⟨specifier, referrer, hquery, hresolve⟩ := hasked.resolve_of_outcome houtcome
      exact hleads' _ (List.mem_of_getElem? hquery) target hresolve
    have hstep := h.mapStep
    generalize m.resolutions action = resolved at hstep htaken
    cases hstep with
    | kept hsame => exact hm.targets t (hsame.entries ▸ ht)
    | hit _ hsame => exact hm.targets t (hsame.entries ▸ ht)
    | miss _ hinserts =>
      rw [hinserts.entries] at ht
      rcases Array.mem_push.mp ht with hold | rfl
      · exact hm.targets t hold
      · exact htaken (List.mem_singleton_self _)

/-! ### How many jobs there are -/

theorem nodup_entries {l : Loader} {log : List (RequestId × Resolved)} (h : l.Entries log) :
    l.entries.toList.Nodup := by
  rw [List.nodup_iff_getElem?_ne_getElem?]
  intro i j hij hj hsame
  rw [Array.getElem?_toList, Array.getElem?_toList] at hsame
  rw [Array.length_toList] at hj
  have hlater := h.keyed j _ (Array.getElem?_eq_getElem hj)
  have hearlier := h.keyed i _ (hsame.trans (Array.getElem?_eq_getElem hj))
  cases hearlier.symm.trans hlater
  exact Nat.lt_irrefl _ hij

/-- There are not more jobs than modules that are discovered. -/
theorem Explores.size_le (h : m.Explores p supplied start)
    (hfinite : {t | p.Discovered supplied start t}.Finite) :
    m.loader.jobs.size ≤ {t | p.Discovered supplied start t}.ncard := by
  obtain ⟨log, hlog⟩ := h.entries
  have hsubset : m.loader.entries.toList.toFinset ⊆ hfinite.toFinset := by
    intro t ht
    rw [Set.Finite.mem_toFinset]
    exact h.targets t (Array.mem_toList_iff.mp (List.mem_toFinset.mp ht))
  have hcard := Finset.card_le_card hsubset
  rw [List.toFinset_card_of_nodup (nodup_entries hlog), Array.length_toList,
    Loader.size_entries] at hcard
  rwa [Set.ncard_eq_toFinset_card _ hfinite]

end Machine

/-! ## Loaders that are called once -/

/-- The text that a loader has for the eval module once it is called, when it had this one before. -/
def Goal.supplied (supplied : Option String) : Goal → Option String
  | .eval source => some source
  | _ => supplied

namespace Project

variable {p : Project} {supplied : Option String} {goal : Goal} {schedule : List Action}

/-- The module that a call asks for. -/
def entrance? (p : Project) : Goal → Option Resolved
  | .resolve specifier referrer | .find specifier referrer _ =>
    (p.settings.resolve p.files specifier referrer).toOption
  | .eval _ => some ⟨Url.evalModule, .js⟩
  | .ask .. => none

/-- A loader that is called once, with a text for the eval module or without one. -/
def loading (p : Project) (supplied : Option String) (goal : Goal) : Machine :=
  (supplied.elim p.machine p.machine.supplied).start goal

theorem explores_fresh (p : Project) (supplied : Option String) (start : Option Resolved) :
    (supplied.elim p.machine p.machine.supplied).Explores p supplied start := by
  have hregular : p.machine.Regular :=
    Machine.regular_acts p.files p.registry p.tables p.functions p.settings []
  have hasked : ∃ log, p.machine.loader.resolver.Asked p.settings p.files log ∧
      ∀ query ∈ log, ∀ t, p.settings.resolve p.files query.1 query.2 = .ok t →
        p.Discovered supplied start t :=
    ⟨[], Resolver.asked_ofSettings, fun _ hquery => absurd hquery List.not_mem_nil⟩
  have hentries : ∃ log, p.machine.loader.Entries log := ⟨[], Machine.entries_fresh _ _⟩
  have htargets : ∀ t ∈ p.machine.loader.entries, p.Discovered supplied start t := by
    intro t ht
    rw [show p.machine.loader.entries = #[] from Array.map_empty] at ht
    cases Array.not_mem_empty t ht
  cases supplied with
  | none =>
    exact ⟨hregular, rfl, rfl, hasked, hentries, htargets, fun _ _ hjob => by cases hjob⟩
  | some text =>
    have hrule : Machine.Rule p.machine (.supply text) (p.machine.supplied text) := .supply text
    refine ⟨hrule.regular hregular, rfl, rfl, hasked, ?_, htargets, fun _ _ hjob => by cases hjob⟩
    obtain ⟨log, hlog⟩ := hentries
    exact ⟨_, hlog.step hrule.mapStep⟩

/-- A call for the eval module brings its own text. -/
theorem loading_supplied (p : Project) (supplied : Option String) (goal : Goal) :
    p.loading supplied goal = p.loading (goal.supplied supplied) goal := by
  cases goal with
  | eval source =>
    have hfresh : ∀ m : Machine, m.loader.byUrl = [] → m.loader.find? Url.evalModule = none :=
      fun m hnone => congrArg (List.lookup Url.evalModule) hnone
    have hsource := (Machine.startEval_fresh (m := p.machine.supplied source) source (hfresh _ rfl)).2
    cases supplied with
    | none =>
      have hnone := (Machine.startEval_fresh (m := p.machine) source (hfresh _ rfl)).2
      exact hnone.trans hsource.symm
    | some text =>
      have htext := (Machine.startEval_fresh (m := p.machine.supplied text) source (hfresh _ rfl)).2
      exact htext.trans hsource.symm
  | _ => rfl

theorem explores_loading (p : Project) (supplied : Option String) (goal : Goal) :
    (p.loading supplied goal).Explores p (goal.supplied supplied) (p.entrance? goal) := by
  rw [loading_supplied]
  have hrule : Machine.Rule _ (.start goal) (p.loading (goal.supplied supplied) goal) := .of_step? rfl
  refine hrule.explores (explores_fresh p _ _) ?_
  have hstart : ∀ t, p.entrance? goal = some t →
      p.Discovered (goal.supplied supplied) (p.entrance? goal) t := fun t ht => .start ht
  cases goal with
  | resolve specifier referrer | find specifier referrer wish =>
    exact fun t ht => hstart t (congrArg Except.toOption ht)
  | eval source => exact ⟨rfl, hstart _ rfl⟩
  | ask => trivial

/-- All jobs are for modules that are discovered, after every run. -/
theorem explores_acts (hschedule : ∀ action ∈ schedule, Action.Internal action) :
    ((p.loading supplied goal).acts schedule).Explores p (goal.supplied supplied)
      (p.entrance? goal) :=
  Machine.within_induction
    (P := fun m => m.Explores p (goal.supplied supplied) (p.entrance? goal))
    (fun hrule hinternal hm => hrule.explores hm hinternal.from) (explores_loading p supplied goal)
    hschedule

end Project

end ModuleLoader
