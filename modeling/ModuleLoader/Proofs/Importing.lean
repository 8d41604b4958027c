import ModuleLoader.Proofs.Histories
import ModuleLoader.Proofs.Primed
/-!
# A loader with one import

A loader that is called for one import, and for nothing else, makes jobs for the modules to which it
leads, and instantiates one of them only. Whatever the order of its steps, when it does so the
units of all these modules are linked to each other, and nobody has entered them.

Results:
1. `Project.Sought`, `Project.Sole`: the modules to which an import leads, each known by its URL.
2. `Lone`, `Rule.lone`: what is known of a loader with one import, and that every step keeps it.
3. `Follows.dependencies`: a job that is linked has the jobs of the modules to which its own leads.
4. `Lone.primed`: the root of an instantiation is primed.
-/
namespace ModuleLoader

open Relation (ReflTransGen)

/-! ## Modules that are sought -/

namespace Project

variable {p : Project} {query : String × Option Url} {t t' t₀ : Resolved}

/-- Where a query leads. -/
def sought (p : Project) (query : String × Option Url) : Except LoadError Resolved :=
  p.settings.resolve p.files query.1 query.2

/-- The modules to which an import leads. -/
def Sought (p : Project) (query : String × Option Url) (t : Resolved) : Prop :=
  ∃ t₀, p.sought query = .ok t₀ ∧ p.Reaches t₀ t

/-- No two modules to which an import leads have one URL. -/
def Sole (p : Project) (query : String × Option Url) : Prop :=
  ∀ t t', p.Sought query t → p.Sought query t' → t.url = t'.url → t = t'

theorem Sole.region (h : p.Sole query) : p.Region (p.Sought query) where
  closed := by
    rintro t t' ⟨t₀, hsought, hreach⟩ himports
    exact ⟨t₀, hsought, hreach.tail himports⟩
  sole := h

/-- All modules to which an import leads are there and can be linked. -/
def Loads (p : Project) (query : String × Option Url) : Prop :=
  ∃ t₀, p.sought query = .ok t₀ ∧ ∀ t, p.Reaches t₀ t → p.Links t

theorem Loads.links (h : p.Loads query) (ht : p.Sought query t) : p.Links t := by
  obtain ⟨t₀, hsought, hlinks⟩ := h
  obtain ⟨t₁, hsought', hreach⟩ := ht
  cases hsought.symm.trans hsought'
  exact hlinks t hreach

end Project

/-- An action of the loader itself, with which nobody calls for anything. -/
def Action.Internal : Action → Prop
  | .start _ | .supply _ => False
  | _ => True

instance : DecidablePred Action.Internal
  | .start _ | .supply _ => .isFalse id
  | .acquire _ | .answer _ | .prepare _ | .read _ | .link _ | .wire .. | .instantiate _
  | .advance _ => .isTrue trivial

theorem Action.Internal.within {action : Action} (h : action.Internal)
    (Q : String × Option Url → Prop) : action.Within Q := by
  cases action with
  | start | supply => cases h
  | _ => trivial

namespace Store

variable {p : Project} {s s' : Store}

/-- Nobody has entered any unit, and no function of the host was called. -/
structure Untouched (p : Project) (s : Store) : Prop where
  functions : s.cells.functions = p.functions
  unentered : ∀ x, (s.status x).isEntered = false
  fresh : s.AllFresh p
  unbound : s.Unbound

theorem Untouched.calm (h : s.Untouched p) (hs : s.Owned) (hcalm : s.Calm p s') :
    s'.Untouched p where
  functions := hcalm.functions.trans h.functions
  unentered x := by
    rcases hcalm.spares x with hsame | ⟨-, unit, hunit, hopen, -⟩
    · unfold status
      rw [hsame]
      exact h.unentered x
    · rw [status_of_unit? hunit]
      exact hopen
  fresh := hcalm.allFresh hs h.fresh
  unbound := hcalm.unbound h.unbound

end Store

/-! ## Jobs that are to be instantiated -/

namespace Loader

variable {p : Project} {l l' : Loader} {id j k : JobId} {f : Job → Job} {t : Resolved}
  {query : String × Option Url} {log : List (RequestId × Resolved)}

/-- There is one job for a module. -/
theorem Entries.sole (h : l.Entries log) (hj : l.target? j = some t) (hk : l.target? k = some t) :
    j = k := by
  have hfind : ∀ i, l.target? i = some t → l.find? t.url = some i := fun i hi => by
    obtain ⟨job, hjob, rfl⟩ := Option.map_eq_some_iff.mp hi
    exact h.find?_of_job? hjob
  exact Option.some.inj ((hfind j hj).symm.trans (hfind k hk))

/-- Somebody has asked for the instantiation of the job. -/
def Wanted (l : Loader) (j : JobId) : Prop :=
  ∃ job, l.job? j = some job ∧ job.instantiation ≠ .unasked

theorem Wanted.of_changeJob (h : (l.changeJob id f).Wanted j)
    (hf : ∀ job, l.job? id = some job → job.instantiation = .unasked →
      (f job).instantiation = .unasked) : l.Wanted j := by
  obtain ⟨job', hjob', hwanted⟩ := h
  rw [job?_changeJob] at hjob'
  split at hjob'
  next heq =>
    subst heq
    obtain ⟨job, hjob, rfl⟩ := Option.map_eq_some_iff.mp hjob'
    exact ⟨job, hjob, fun hunasked => hwanted (hf job hjob hunasked)⟩
  next => exact ⟨job', hjob', hwanted⟩

end Loader

namespace Machine

variable {p : Project} {query : String × Option Url} {m m' : Machine} {action : Action}
  {j id : JobId} {x : UnitId} {t t₀ : Resolved} {state state' : Call} {call : CallId}

theorem wanted_of_serve {request : RequestId} {target : Resolved}
    (h : (m.serve request target).1.loader.Wanted j) : m.loader.Wanted j := by
  obtain ⟨job, hjob, hwanted⟩ := h
  rcases job?_of_serve hjob with hold | ⟨-, -, preparation, rfl⟩
  · exact ⟨job, hold, hwanted⟩
  · exact absurd rfl hwanted

theorem wanted_of_setInstantiation {job : Job} {p : Instantiation}
    (h : (m.setInstantiation id p).loader.Wanted j) (hjob : m.loader.job? id = some job)
    (hasked : job.instantiation ≠ .unasked) : m.loader.Wanted j :=
  Loader.Wanted.of_changeJob h fun job' hjob' hunasked => by
    cases hjob.symm.trans hjob'
    exact absurd hunasked hasked

theorem wanted_of_instantiateMembers {job : Job} {unit : UnitId} {members : List JobId}
    (h : (m.instantiateMembers id unit members).loader.Wanted j)
    (hjob : m.loader.job? id = some job) (hasked : job.instantiation ≠ .unasked) :
    m.loader.Wanted j := by
  obtain ⟨job', hjob', hasked'⟩ := h
  rw [job?_instantiateMembers] at hjob'
  obtain ⟨other, hother, rfl⟩ := Option.map_eq_some_iff.mp hjob'
  refine ⟨other, hother, fun hunasked => hasked' ?_⟩
  dsimp only
  split
  next heq =>
    subst heq
    cases hjob.symm.trans hother
    exact absurd hunasked hasked
  next => exact hunasked

/-- An instantiation is begun by a call that is served by the job. -/
theorem Rule.wanted (h : Rule m action m') (hinternal : action.Internal)
    (hwanted : m'.loader.Wanted j) : m.loader.Wanted j ∨
      ∃ call wish, m.loader.calls[CallId.index call]? = some (.serving j wish) := by
  have hkept : ∀ {l : Loader} {id : JobId} {f : Job → Job}, l.jobs = m.loader.jobs →
      (l.changeJob id f).Wanted j → (∀ job, (f job).instantiation = job.instantiation) →
      m.loader.Wanted j := by
    intro l id f hjobs hwanted hf
    obtain ⟨job, hjob, hasked⟩ := hwanted.of_changeJob fun job _ h => (hf job).trans h
    refine ⟨job, ?_, hasked⟩
    unfold ModuleMap.job? at hjob ⊢
    rwa [hjobs] at hjob
  cases h with
  | startResolve | startFind | startEval | startAsk | supply => cases hinternal
  | acquire | answer => exact .inl hwanted
  | prepareFile => exact .inl (hkept rfl hwanted fun _ => rfl)
  | prepareHere | read => exact .inl (hkept rfl hwanted fun _ => rfl)
  | linkUnprepared | linkRefused | linkBegun | linkEnded | wireAsked | wireEnded =>
    exact .inl (hkept rfl hwanted fun _ => rfl)
  | wireDropped | wireUnresolved | wireUnprepared =>
    rw [failLinking_eq] at hwanted
    exact .inl (hkept rfl hwanted fun _ => rfl)
  | wireServed =>
    exact .inl (wanted_of_serve (hwanted.of_changeJob fun _ _ hunasked => hunasked))
  | enterJoined hjob hstate | enterUnprepared hjob hstate | enterWalk hjob hstate
  | enterDropped hjob hstate | walkPass hjob hstate | walkVisit hjob hstate
  | walkStopped hjob hstate | walkJoined hjob hstate =>
    exact .inl (wanted_of_setInstantiation hwanted hjob (by rw [hstate]; exact nofun))
  | walkEnded hjob hstate =>
    exact .inl (wanted_of_instantiateMembers hwanted hjob (by rw [hstate]; exact nofun))
  | callEnters hcall =>
    obtain ⟨job', hjob', hasked⟩ := hwanted
    change (Loader.changeJob _ _ _).job? j = _ at hjob'
    rw [Loader.job?_changeJob] at hjob'
    split at hjob'
    next heq =>
      subst heq
      exact .inr ⟨_, _, hcall⟩
    next => exact .inl ⟨job', hjob', hasked⟩
  | callServed => exact .inl (wanted_of_serve hwanted)
  | callInstantiated =>
    refine .inl ?_
    change Loader.Wanted { (serveInstantiated m _ _).1.loader with calls := _ } j at hwanted
    rw [loader_serveInstantiated] at hwanted
    exact hwanted
  | callResolved | callUnresolved | callFailed | callAnswered => exact .inl hwanted

end Machine

/-! ## The call -/

/-- How far the call for an import is. -/
def Call.Seeks (p : Project) (query : String × Option Url) (l : Loader) : Call → Prop
  | .resolving _ => False
  | .locating _ wish => wish = .imported
  | .serving j wish => wish = .imported ∧ ∃ t, p.sought query = .ok t ∧ l.target? j = some t
  | .answered _ => True

theorem Call.Seeks.later {p : Project} {query : String × Option Url} {l l' : Loader} {state : Call}
    (h : state.Seeks p query l) (hlater : l.Later l') : state.Seeks p query l' := by
  cases state with
  | serving j wish =>
    obtain ⟨hwish, t, hsought, ht⟩ := h
    exact ⟨hwish, t, hsought, hlater.target? ht⟩
  | _ => exact h

namespace Machine

variable {p : Project} {query : String × Option Url} {m m' : Machine} {action : Action}
  {j id : JobId} {x : UnitId} {t t₀ : Resolved} {state state' : Call} {call : CallId}

/-- The loader has one call, which is for an import. -/
def Seeks (p : Project) (query : String × Option Url) (m : Machine) : Prop :=
  ∃ state, m.loader.calls = #[state] ∧ state.Seeks p query m.loader

theorem call_of_single (hcalls : m.loader.calls = #[state])
    (hcall : m.loader.calls[call.index]? = some state') : call = ⟨0⟩ ∧ state' = state := by
  obtain ⟨i⟩ := call
  rw [hcalls] at hcall
  cases i with
  | zero => exact ⟨rfl, (Option.some.inj hcall).symm⟩
  | succ i => cases hcall

theorem single_setCall (hcalls : m.loader.calls = #[state]) (state' : Call) :
    (m.setCall ⟨0⟩ state').loader.calls = #[state'] := by
  show m.loader.calls.setIfInBounds 0 state' = #[state']
  rw [hcalls]
  rfl

/-- The outcome for which the call waits says where the import leads. -/
theorem Follows.sought {request : RequestId} {wish : Wish} {outcome : Except LoadError Resolved}
    (hf : m.Follows p (p.Sought query) (· = query))
    (hcalls : m.loader.calls = #[.locating request wish])
    (houtcome : m.loader.resolver.outcome? request = some outcome) : p.sought query = outcome := by
  have hawaited : m.loader.awaited? (.call ⟨0⟩) = some request := by
    show (m.loader.calls[0]?).bind _ = _
    rw [hcalls]
    rfl
  obtain ⟨_, _, rfl, hresolve⟩ := hf.outcome hawaited houtcome
  exact hresolve

theorem Rule.seeks (h : Rule m action m') (hinternal : action.Internal) (hm : m.Seeks p query)
    (hsole : p.Sole query) (hf : m.Follows p (p.Sought query) (· = query)) :
    m'.Seeks p query := by
  obtain ⟨state, hcalls, hstate⟩ := hm
  have hlater := h.later hf.sound
  cases h with
  | startResolve | startFind | startEval | startAsk | supply => cases hinternal
  | wireDropped | wireUnresolved | wireUnprepared =>
    rw [failLinking_eq] at hlater ⊢
    exact ⟨state, hcalls, hstate.later hlater⟩
  | wireServed =>
    refine ⟨state, ?_, hstate.later hlater⟩
    show (serve _ _ _).1.loader.calls = _
    rw [calls_serve, hcalls]
  | walkEnded =>
    refine ⟨state, ?_, hstate.later hlater⟩
    obtain ⟨jobs, hloader⟩ := loader_instantiateMembers m _ _ _
    rw [hloader]
    exact hcalls
  | callResolved hcall =>
    obtain ⟨rfl, rfl⟩ := call_of_single hcalls hcall
    cases hstate
  | callUnresolved hcall | callFailed hcall | callAnswered hcall =>
    obtain ⟨rfl, rfl⟩ := call_of_single hcalls hcall
    exact ⟨_, single_setCall hcalls _, trivial⟩
  | @callInstantiated call id wish job hcall =>
    obtain ⟨rfl, rfl⟩ := call_of_single hcalls hcall
    have hsame := congrArg Loader.calls (loader_serveInstantiated m id wish)
    exact ⟨_, single_setCall (hsame.trans hcalls) _, trivial⟩
  | @callServed call request wish target hcall houtcome =>
    obtain ⟨rfl, rfl⟩ := call_of_single hcalls hcall
    have hsought := hf.sought hcalls houtcome
    obtain ⟨-, htarget⟩ := loads_serve hf hsole.region request ⟨target, hsought, .refl⟩
    exact ⟨_, single_setCall ((calls_serve m request target).trans hcalls) _, hstate, target, hsought,
      htarget⟩
  | _ => exact ⟨state, hcalls, hstate.later hlater⟩

/-! ## Loaders with one import -/

/-- What is known of a loader with one import. -/
structure Lone (p : Project) (query : String × Option Url) (m : Machine) : Prop where
  regular : m.Regular
  follows : m.Follows p (p.Sought query) (· = query)
  entries : ∃ log, m.loader.Entries log
  seeks : m.Seeks p query
  /-- Nothing is instantiated but the module that is imported. -/
  wanted : ∀ j, m.loader.Wanted j → ∃ t, p.sought query = .ok t ∧ m.loader.target? j = some t

theorem Rule.lone (h : Rule m action m') (hinternal : action.Internal) (hsole : p.Sole query)
    (hm : m.Lone p query) : m'.Lone p query where
  regular := h.regular hm.regular
  follows := h.follows hm.follows hsole.region (fun _ hquery t ht => ⟨t, hquery ▸ ht, .refl⟩)
    (hinternal.within _)
  entries := by
    obtain ⟨log, hlog⟩ := hm.entries
    exact ⟨_, hlog.step h.mapStep⟩
  seeks := h.seeks hinternal hm.seeks hsole hm.follows
  wanted j hj := by
    have hlater := h.later hm.follows.sound
    rcases h.wanted hinternal hj with hold | ⟨call, wish, hcall⟩
    · obtain ⟨t, hsought, ht⟩ := hm.wanted j hold
      exact ⟨t, hsought, hlater.target? ht⟩
    · obtain ⟨state, hcalls, hstate⟩ := hm.seeks
      obtain ⟨-, rfl⟩ := call_of_single hcalls hcall
      obtain ⟨-, t, hsought, ht⟩ := hstate
      exact ⟨t, hsought, hlater.target? ht⟩

/-- A loader when the import is called for. -/
def importing (p : Project) (query : String × Option Url) : Machine :=
  p.machine.start (.find query.1 query.2 .imported)

theorem lone_importing (hsole : p.Sole query) : (importing p query).Lone p query := by
  have hrule : Rule p.machine (.start (.find query.1 query.2 .imported)) (importing p query) :=
    .startFind query.1 query.2 .imported
  exact {
    regular := hrule.regular (regular_acts p.files p.registry p.tables p.functions p.settings [])
    follows := hrule.follows (follows_fresh p _ _) hsole.region
      (fun _ hquery t ht => ⟨t, hquery ▸ ht, .refl⟩) rfl
    entries := ⟨_, (entries_fresh _ _).step hrule.mapStep⟩
    seeks := ⟨_, rfl, rfl⟩
    wanted := fun j ⟨job, hjob, _⟩ => by cases hjob }

/-! ## Jobs that are linked -/

variable {G : Resolved → Prop} {Q : String × Option Url → Prop} {members jobs : List JobId}

/-- A job that is linked has found the jobs of the modules to which its own leads. -/
theorem Follows.dependencies (hf : m.Follows p G Q) (hm : m.Regular)
    (ht : m.loader.target? j = some t) (hlinked : m.loader.linked? j = some (.ok jobs)) :
    ∃ c x, p.content? t = some c ∧ m.loader.UnitOf j x ∧
      List.Forall₂ (fun specifier k => ∃ t' y, p.leads t specifier = .ok t' ∧
        m.loader.target? k = some t' ∧ m.loader.UnitOf k y ∧
        m.host.store.Imports x specifier y) c.specifiers jobs := by
  obtain ⟨x, hx⟩ := hm.exists_unit hlinked
  obtain ⟨_, ht', -, unit, hunit, hmade, rfl⟩ := hf.holds hx
  cases ht.symm.trans ht'
  obtain ⟨c, hc, hspecifiers⟩ := hmade.specifiers
  obtain ⟨specifiers, hspecifies, hall, -⟩ := hm.mirrors hlinked hx
  have hsame := (Store.specifiers_of_unit? hunit hspecifies).trans hspecifiers
  refine ⟨c, x, hc, hx, hsame ▸ hall.imp ?_⟩
  rintro specifier k ⟨y, hy, himports⟩
  obtain ⟨_, hk, -, other, hother, -, rfl⟩ := hf.holds hy
  exact ⟨other.target, y, hf.store.links x y specifier unit other himports hunit hother, hk, hy,
    himports⟩

/-- The module of a unit is there. -/
theorem Follows.isSome_content? (hf : m.Follows p G Q) (hx : m.loader.UnitOf j x)
    (ht : m.loader.target? j = some t) : (p.content? t).isSome = true := by
  obtain ⟨_, ht', -, unit, -, hmade, rfl⟩ := hf.holds hx
  cases ht.symm.trans ht'
  obtain ⟨c, hc, -⟩ := hmade.specifiers
  exact Option.isSome_iff_exists.mpr ⟨c, hc⟩

/-- The module of a job that is linked can be linked. -/
theorem Follows.links (hf : m.Follows p G Q) (hm : m.Regular) (ht : m.loader.target? j = some t)
    (hlinked : m.loader.linked? j = some (.ok jobs)) : p.Links t := by
  obtain ⟨c, x, hc, -, hall⟩ := hf.dependencies hm ht hlinked
  refine ⟨c, hc, fun specifier hin => ?_⟩
  obtain ⟨k, -, t', y, hleads, hk, hy, -⟩ := exists_of_forall₂ hall hin
  exact ⟨t', hleads, hf.isSome_content? hy hk⟩

/-- All modules to which one leads have jobs that are linked. -/
def AllLinked (p : Project) (t₀ : Resolved) (m : Machine) : Prop :=
  ∀ t, p.Reaches t₀ t → ∃ k jobs, m.loader.target? k = some t ∧ m.loader.linked? k = some (.ok jobs)

theorem AllLinked.later (h : m.AllLinked p t₀) (hlater : m.loader.Later m'.loader) :
    m'.AllLinked p t₀ := fun t ht => by
  obtain ⟨k, jobs, hk, hlinked⟩ := h t ht
  exact ⟨k, jobs, hlater.target? hk, hlater.linked hlinked⟩

/-- Jobs that are linked to each other are those of all modules to which one of them leads. -/
theorem Follows.allLinked (hf : m.Follows p G Q) (hm : m.Regular) (hclosed : m.loader.Closed members)
    (hin : j ∈ members) (ht₀ : m.loader.target? j = some t₀) : m.AllLinked p t₀ := by
  have hmembers : ∀ t, p.Reaches t₀ t → ∃ k ∈ members, m.loader.target? k = some t := by
    intro t hreach
    induction hreach with
    | refl => exact ⟨j, hin, ht₀⟩
    | tail _ himports ih =>
      obtain ⟨k, hk, ht⟩ := ih
      obtain ⟨c, hc, specifier, hspecifier, hleads⟩ := himports
      obtain ⟨jobs, hlinked, hdependencies⟩ := hclosed k hk
      obtain ⟨c', x, hc', -, hall⟩ := hf.dependencies hm ht hlinked
      cases hc.symm.trans hc'
      obtain ⟨i, hi, t', y, hleads', ht', -⟩ := exists_of_forall₂ hall hspecifier
      cases hleads.symm.trans hleads'
      exact ⟨i, hdependencies i hi, ht'⟩
  intro t ht
  obtain ⟨k, hk, ht⟩ := hmembers t ht
  obtain ⟨jobs, hlinked, -⟩ := hclosed k hk
  exact ⟨k, jobs, ht, hlinked⟩

theorem AllLinked.loads (h : m.AllLinked p t₀) (hm : m.Lone p query)
    (hsought : p.sought query = .ok t₀) : p.Loads query := by
  refine ⟨t₀, hsought, fun t ht => ?_⟩
  obtain ⟨k, jobs, hk, hlinked⟩ := h t ht
  exact hm.follows.links hm.regular hk hlinked

/-- The root of an instantiation is primed, if nobody has entered any unit before. -/
theorem Lone.primed (hm : m.Lone p query) (hall : m.AllLinked p t₀)
    (huntouched : m.host.store.Untouched p) : ∃ f, m.host.store.Primed p t₀ f ∧
      ∀ k x t, p.Reaches t₀ t → m.loader.target? k = some t → m.loader.UnitOf k x → f t = x := by
  obtain ⟨log, hlog⟩ := hm.entries
  have hunit : ∀ t, p.Reaches t₀ t →
      ∃ x k, m.loader.target? k = some t ∧ m.loader.UnitOf k x := by
    intro t ht
    obtain ⟨k, jobs, hk, hlinked⟩ := hall t ht
    obtain ⟨x, hx⟩ := hm.regular.exists_unit hlinked
    exact ⟨x, k, hk, hx⟩
  have : Nonempty UnitId := ⟨⟨0⟩⟩
  choose! f hf using hunit
  -- there is one job for a module, so it does not matter which one was chosen
  have hchosen : ∀ k x t, p.Reaches t₀ t → m.loader.target? k = some t → m.loader.UnitOf k x →
      f t = x := by
    intro k x t ht hk hx
    obtain ⟨i, hi, hfi⟩ := hf t ht
    obtain rfl := hlog.sole hk hi
    exact hfi.unique hx
  refine ⟨f, ⟨hm.follows.store, hm.regular.wired.wired.safe.plain, huntouched.functions,
    huntouched.fresh, huntouched.unbound, fun t ht => ?_, fun t ht => ?_,
    fun t c specifier ht hc hin => ?_⟩, hchosen⟩
  · obtain ⟨k, hk, hx⟩ := hf t ht
    obtain ⟨_, hk', -, hholds⟩ := hm.follows.holds hx
    cases hk.symm.trans hk'
    exact hholds
  · obtain ⟨k, jobs, hk, hlinked⟩ := hall t ht
    obtain ⟨x, hx⟩ := hm.regular.exists_unit hlinked
    rw [hchosen k x t ht hk hx]
    exact hm.regular.wired.wired.linked hlinked hx (huntouched.unentered x)
  · obtain ⟨k, jobs, hk, hlinked⟩ := hall t ht
    obtain ⟨c', x, hc', hx, hdependencies⟩ := hm.follows.dependencies hm.regular hk hlinked
    cases hc.symm.trans hc'
    obtain ⟨i, -, t', y, hleads, hi, hy, himports⟩ := exists_of_forall₂ hdependencies hin
    refine ⟨t', hleads, ?_⟩
    rw [hchosen k x t ht hk hx,
      hchosen i y t' (Store.Primed.reaches_of_leads ht hc hin hleads) hi hy]
    exact himports

/-! ## What the map says -/

end Machine

/-- What a loader has for a URL: the format of the job, and the URLs of those that it depends on once
it is linked. -/
def Loader.entry? (l : Loader) (url : Url) : Option (Format × Option (List Url)) := do
  let job ← l.job? (← l.find? url)
  let jobs := job.linking.result?.bind Except.toOption
  return (job.format, jobs.map fun jobs => jobs.filterMap fun k => (l.job? k).map Job.url)

/-- What a loader has for a module when it has linked it. -/
def Project.entry? (p : Project) (t : Resolved) : Option (Format × Option (List Url)) :=
  (p.content? t).map fun c => (t.format, some (c.specifiers.filterMap fun specifier =>
    (p.leads t specifier).toOption.map Resolved.url))

namespace Machine

variable {p p' : Project} {query : String × Option Url} {m m' : Machine} {t t₀ : Resolved}

theorem Lone.entry?_of_reaches (hm : m.Lone p query) (hall : m.AllLinked p t₀)
    (ht : p.Reaches t₀ t) : m.loader.entry? t.url = p.entry? t := by
  obtain ⟨log, hlog⟩ := hm.entries
  obtain ⟨k, jobs, hk, hlinked⟩ := hall t ht
  obtain ⟨c, x, hc, -, hdependencies⟩ := hm.follows.dependencies hm.regular hk hlinked
  obtain ⟨job, hjob, hdone⟩ := Loader.linked?_eq_some.mp hlinked
  cases (Loader.target?_of_job? hjob).symm.trans hk
  have hurls : jobs.filterMap (fun k => (m.loader.job? k).map Job.url) =
      c.specifiers.filterMap fun specifier =>
        (p.leads job.target specifier).toOption.map Resolved.url := by
    clear hc hdone hlinked
    generalize c.specifiers = specifiers at hdependencies ⊢
    induction hdependencies with
    | nil => rfl
    | cons hhead _ ih =>
      obtain ⟨t', y, hleads, hk', -⟩ := hhead
      obtain ⟨other, hother, rfl⟩ := Option.map_eq_some_iff.mp hk'
      rw [List.filterMap_cons, List.filterMap_cons, hother, hleads, ih]
      rfl
  show (m.loader.find? job.url).bind _ = _
  unfold Project.entry?
  rw [hlog.find?_of_job? hjob, hc, Option.bind_some, hjob, Option.map_some, ← hurls]
  show some (_, (job.linking.result?.bind _).map _) = _
  rw [hdone]
  rfl

/-- A loader has nothing for URLs to which its import does not lead. -/
theorem Lone.entry?_of_not (hm : m.Lone p query) (hsought : p.sought query = .ok t₀) {url : Url}
    (hnot : ¬ ∃ t, p.Reaches t₀ t ∧ t.url = url) : m.loader.entry? url = none := by
  unfold Loader.entry?
  cases hfind : m.loader.find? url with
  | none => rfl
  | some id =>
    obtain ⟨job, hjob, hurl⟩ := hm.follows.indexed.job_of_find? hfind
    obtain ⟨t, hsought', hreach⟩ := (hm.follows.jobs id job hjob).region
    cases hsought.symm.trans hsought'
    exact absurd ⟨_, hreach, hurl⟩ hnot

/-- What a loader has when all modules are linked has its dependencies. -/
theorem Lone.linked_of_entry? (hm : m.Lone p query) (hsought : p.sought query = .ok t₀)
    (hall : m.AllLinked p t₀) (url : Url) (entry : Format × Option (List Url))
    (hentry : m.loader.entry? url = some entry) : entry.2.isSome = true := by
  by_cases hin : ∃ t, p.Reaches t₀ t ∧ t.url = url
  · obtain ⟨t, ht, rfl⟩ := hin
    rw [hm.entry?_of_reaches hall ht] at hentry
    obtain ⟨c, -, rfl⟩ := Option.map_eq_some_iff.mp hentry
    rfl
  · rw [hm.entry?_of_not hsought hin] at hentry
    cases hentry

/-- When all modules are linked, loaders with one import have the same. -/
theorem Lone.same_entries (hm : m.Lone p query) (hm' : m'.Lone p' query) (hsame : p.Same p')
    (hsought : p.sought query = .ok t₀) (hall : m.AllLinked p t₀)
    (hsought' : p'.sought query = .ok t₀) (hall' : m'.AllLinked p' t₀) (url : Url) :
    m.loader.entry? url = m'.loader.entry? url := by
  by_cases hin : ∃ t, p.Reaches t₀ t ∧ t.url = url
  · obtain ⟨t, ht, rfl⟩ := hin
    rw [hm.entry?_of_reaches hall ht, hm'.entry?_of_reaches hall' (hsame.reaches ht)]
    unfold Project.entry?
    rw [hsame.content t, funext (hsame.leads t)]
  · rw [hm.entry?_of_not hsought hin, hm'.entry?_of_not hsought' fun ⟨t, ht, hurl⟩ =>
      hin ⟨t, hsame.symm.reaches ht, hurl⟩]

end Machine

end ModuleLoader
