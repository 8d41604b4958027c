import ModuleLoader.Proofs.Calm
/-!
# Running a module after any history

Where modules import each other over no cycle, and all of them can be linked, it makes no difference
to a module what else was loaded, instantiated or run before it, or at the same time: each unit comes
to what its module comes to, and a failure in one module reaches those that import it and nobody else.

Results:
1. `Project.Acyclic`: modules that can all be linked and import each other over no cycle.
2. `Machine.Settled`, `Rule.settled`: what is known of units and components between steps.
3. `Settled.final`: a job that has ended its instantiation has a unit that runs or has failed.
4. `same_after_any_history`: running a module comes to the same after every history.
-/
namespace ModuleLoader

open Relation (TransGen ReflTransGen)

/-! ## Modules without cycles -/

namespace Project

variable {p : Project} {G : Resolved → Prop} {t : Resolved}

/-- Modules that are all there and can be linked, and that import each other over no cycle. -/
structure Acyclic (p : Project) (G : Resolved → Prop) : Prop where
  closed : ∀ t t', G t → p.Imports t t' → G t'
  links : ∀ t, G t → p.Links t
  acyclic : ∀ t, G t → ¬ TransGen p.Imports t t

/-- Some specifier leads to the module. -/
def Found (p : Project) (t : Resolved) : Prop :=
  ∃ specifier referrer, p.settings.resolve p.files specifier referrer = .ok t

/-- The queries that lead to modules of a set, if to any. -/
def LeadsInto (p : Project) (G : Resolved → Prop) (query : String × Option Url) : Prop :=
  ∀ t, p.settings.resolve p.files query.1 query.2 = .ok t → G t

theorem Links.isSome (h : p.Links t) : (p.content? t).isSome = true := by
  obtain ⟨c, hc, -⟩ := h
  rw [hc]
  rfl

/-- The eval module has no source by itself. -/
theorem content?_evalModule : p.content? ⟨Url.evalModule, .js⟩ = none := by
  cases hc : p.content? ⟨Url.evalModule, .js⟩ with
  | none => rfl
  | some c =>
    obtain ⟨source, -, -, hsource, -⟩ := source_of_content? hc
    cases hsource

/-- The URL of a module that is there says what its format is. -/
theorem format_of_found (h : p.Found t) (hthere : (p.content? t).isSome = true) :
    t.format = if t.url.scheme = "builtin" then .builtin else .js := by
  obtain ⟨specifier, referrer, hresolve⟩ := h
  cases hfixed : p.settings.isFixed specifier with
  | true =>
    rcases Settings.format_of_fixed hresolve hfixed with rfl | ⟨hscheme, hformat⟩
    · rw [content?_evalModule] at hthere
      cases hthere
    · rw [if_pos hscheme, hformat]
  | false =>
    have hformat := Settings.format_of_joined hresolve hfixed
    unfold Url.schemeFormat at hformat
    split at hformat
    next hscheme =>
      rw [hformat, if_neg]
      rintro hbuiltin
      rw [hbuiltin] at hscheme
      exact absurd hscheme (by decide)
    next =>
      unfold content? at hthere
      rw [hformat] at hthere
      cases hthere

/-- What is found among modules that can be linked is known by its URL. -/
theorem Acyclic.region (h : p.Acyclic G) : p.Region fun t => G t ∧ p.Found t where
  closed t t' ht himports := by
    obtain ⟨c, hc, specifier, hin, hleads⟩ := id himports
    exact ⟨h.closed t t' ht.1 himports, specifier, _, hleads⟩
  sole t t' ht ht' hurl := by
    have hformat := format_of_found ht.2 (h.links t ht.1).isSome
    have hformat' := format_of_found ht'.2 (h.links t' ht'.1).isSome
    obtain ⟨url, format⟩ := t
    obtain ⟨url', format'⟩ := t'
    obtain rfl : url = url' := hurl
    exact congrArg (Resolved.mk url) (hformat.trans hformat'.symm)

/-! ### An order that rules out cycles -/

/-- Whether each module of a list is there and leads only to those behind it. -/
def layered (p : Project) : List Resolved → Bool
  | [] => true
  | t :: rest => ((p.content? t).any fun c => c.specifiers.all fun specifier =>
      (p.leads t specifier).toOption.any (rest.elem ·)) && p.layered rest

theorem layered_cons {rest : List Resolved} (h : p.layered (t :: rest) = true) :
    p.layered rest = true ∧ ∃ c, p.content? t = some c ∧
      ∀ specifier ∈ c.specifiers, ∃ t' ∈ rest, p.leads t specifier = .ok t' := by
  obtain ⟨hfirst, hrest⟩ := Bool.and_eq_true_iff.mp h
  obtain ⟨c, hc, hall⟩ := (Option.any_eq_true _ _).mp hfirst
  refine ⟨hrest, c, hc, fun specifier hin => ?_⟩
  obtain ⟨t', ht', hbehind⟩ := (Option.any_eq_true _ _).mp (List.all_eq_true.mp hall specifier hin)
  refine ⟨t', List.elem_iff.mp hbehind, ?_⟩
  cases hleads : p.leads t specifier with
  | error e => rw [hleads] at ht'; cases ht'
  | ok => rw [hleads] at ht'; cases ht'; rfl

theorem imports_of_layered {rest : List Resolved} (h : p.layered (t :: rest) = true)
    {t' : Resolved} (himports : p.Imports t t') : t' ∈ rest := by
  obtain ⟨-, c, hc, hall⟩ := layered_cons h
  obtain ⟨c', hc', specifier, hin, hleads⟩ := himports
  cases hc.symm.trans hc'
  obtain ⟨t'', hbehind, hleads'⟩ := hall specifier hin
  cases hleads.symm.trans hleads'
  exact hbehind

theorem isSome_of_layered {modules : List Resolved} (h : p.layered modules = true)
    (ht : t ∈ modules) : (p.content? t).isSome = true := by
  induction modules with
  | nil => cases ht
  | cons first rest ih =>
    obtain ⟨hrest, c, hc, -⟩ := layered_cons h
    rcases List.mem_cons.mp ht with rfl | ht
    · rw [hc]
      rfl
    · exact ih hrest ht

/-- Modules that can be put into such an order are linked to each other, over no cycle. -/
theorem acyclic_of_layered {modules : List Resolved} (h : p.layered modules = true) :
    p.Acyclic (· ∈ modules) := by
  induction modules with
  | nil => exact ⟨fun _ _ ht => (by cases ht), fun _ ht => (by cases ht), fun _ ht => by cases ht⟩
  | cons first rest ih =>
    obtain ⟨hrest, c, hc, hall⟩ := layered_cons h
    obtain ⟨hclosed, hlinks, hacyclic⟩ := ih hrest
    refine ⟨fun t t' ht himports => ?_, fun t ht => ?_, fun t ht hpath => ?_⟩
    · rcases List.mem_cons.mp ht with rfl | ht
      · exact List.mem_cons_of_mem _ (imports_of_layered h himports)
      · exact List.mem_cons_of_mem _ (hclosed t t' ht himports)
    · rcases List.mem_cons.mp ht with rfl | ht
      · refine ⟨c, hc, fun specifier hin => ?_⟩
        obtain ⟨t', hbehind, hleads⟩ := hall specifier hin
        exact ⟨t', hleads, isSome_of_layered hrest hbehind⟩
      · exact hlinks t ht
    · -- all that is behind the first one leads to what is behind it
      have hbehind : ∀ t t', t ∈ rest → TransGen p.Imports t t' → t' ∈ rest := by
        intro t t' ht hpath
        induction hpath with
        | single himports => exact hclosed _ _ ht himports
        | tail _ himports ih => exact hclosed _ _ ih himports
      refine hacyclic t ?_ hpath
      rcases List.mem_cons.mp ht with rfl | ht
      · obtain ⟨t', himports, hpath⟩ := TransGen.head'_iff.mp hpath
        have ht' := imports_of_layered h himports
        rcases ReflTransGen.cases_head hpath with rfl | ⟨t'', himports', hpath⟩
        · exact ht'
        · exact hbehind _ _ ht' (TransGen.head'_iff.mpr ⟨t'', himports', hpath⟩)
      · exact ht

end Project

namespace ModuleUnit

variable {p : Project} {cells : Cells} {unit : ModuleUnit}

/-- Nothing more is known of a unit that nobody has entered. -/
theorem lives_of_fresh (hopen : unit.status.isEntered = false) (h : unit.Fresh p cells) :
    unit.Lives p cells where
  evaluated v hv := by rw [hv] at hopen; cases hopen
  errored e he := by rw [he] at hopen; cases hopen
  fresh _ := h
  named u hu hb := by
    subst hu
    exact absurd ((Status.isEntered_of_isBound hb).symm.trans hopen) (by decide)

end ModuleUnit

namespace Store

variable {p : Project} {s s' : Store} {x y : UnitId} {unit : ModuleUnit}

/-! ## Units without cycles -/

/-- Units depend on each other as their modules import each other. -/
theorem Follows.imports_of_dependsOn (h : s.Follows p) (hd : s.DependsOn x y)
    (hx : s.unit? x = some unit) :
    ∃ other, s.unit? y = some other ∧ p.Imports unit.target other.target := by
  obtain ⟨u, hu⟩ := hd.exists_script
  cases hx.symm.trans hu
  obtain ⟨specifier, hin, hlookup⟩ := (dependsOn_of_script hu).mp hd
  have himports := (imports_of_script hu).mpr hlookup
  obtain ⟨other, hother⟩ := Option.isSome_iff_exists.mp (h.known x specifier y himports)
  obtain ⟨c, hc, hspecifiers⟩ := (h.made x _ hu).specifiers
  exact ⟨other, hother, c, hc, specifier, hspecifiers ▸ hin,
    h.links x y specifier _ other himports hu hother⟩

theorem Follows.imports_of_transGen (h : s.Follows p) (hd : TransGen s.DependsOn x y)
    (hx : s.unit? x = some unit) :
    ∃ other, s.unit? y = some other ∧ TransGen p.Imports unit.target other.target := by
  induction hd with
  | single hd =>
    obtain ⟨other, hother, himports⟩ := h.imports_of_dependsOn hd hx
    exact ⟨other, hother, .single himports⟩
  | tail _ hd ih =>
    obtain ⟨other, hother, hpath⟩ := ih
    obtain ⟨last, hlast, himports⟩ := h.imports_of_dependsOn hd hother
    exact ⟨last, hlast, hpath.tail himports⟩

/-- A unit whose module is on no cycle is on none itself. -/
theorem Follows.not_transGen (h : s.Follows p) (hx : s.unit? x = some unit)
    (hacyclic : ¬ TransGen p.Imports unit.target unit.target) : ¬ TransGen s.DependsOn x x := by
  intro hd
  obtain ⟨other, hother, hpath⟩ := h.imports_of_transGen hd hx
  cases hx.symm.trans hother
  exact hacyclic hpath

/-! ## Calm changes -/

theorem Lives.allFresh (h : s.Lives p) : s.AllFresh p := fun x unit hunit hopen =>
  (h.lives x unit hunit).fresh (by
    cases hstatus : unit.status <;> rw [hstatus] at hopen <;> first | rfl | cases hopen)

theorem Lives.calm (h : s.Lives p) (hfollows : s'.Follows p) (hcalm : s.Calm p s') : s'.Lives p where
  toFollows := hfollows
  functions := hcalm.functions.trans h.functions
  steady := h.steady
  lives x unit hunit := by
    rcases hcalm.spares x with hsame | ⟨-, other, hother, hopen, hfresh⟩
    · rw [hsame] at hunit
      exact (h.lives x unit hunit).of_cells (h.made x unit hunit)
        fun _ hcell => hcalm.kept h.toOwned hunit hcell
    · cases hunit.symm.trans hother
      exact ModuleUnit.lives_of_fresh hopen (hfresh h.allFresh)

theorem Deep.onward (h : s.Deep x) (honward : s.Onward s') : s'.Deep x :=
  h.mono honward.entered honward.depends

theorem Grounded.calm (h : s.Grounded) (hcalm : s.Calm p s') : s'.Grounded :=
  h.mono hcalm.onward.entered hcalm.onward.depends fun _ hy => .inl (hcalm.bound hy)

/-- A unit is as the outcome of its instantiation says. -/
def Reflects (s : Store) (x : UnitId) : Except LoadError Unit → Prop
  | .ok () => s.Deep x
  | .error _ => ∃ e, s.status x = .errored e

theorem Reflects.onward {outcome : Except LoadError Unit} (h : s.Reflects x outcome)
    (honward : s.Onward s') : s'.Reflects x outcome := by
  cases outcome with
  | ok => exact Deep.onward h honward
  | error e =>
    obtain ⟨e', he'⟩ := h
    exact ⟨e', honward.errored x e' he'⟩

end Store

/-! ## Namespaces -/

theorem Namespace.read_ofScope (scope : Scope) (cells : Cells) :
    (Namespace.ofScope scope).read cells = Table.sorted (scope.read cells) := by
  unfold Namespace.ofScope Namespace.read Table.sorted Scope.read
  exact List.map_mergeSort fun _ _ _ _ => rfl

namespace Machine

variable {p : Project} {G : Resolved → Prop} {Q : String × Option Url → Prop} {m m' : Machine}
  {action : Action} {j : JobId} {x : UnitId} {t : Resolved}

/-! ## Loaders between steps -/

/-- The unit of a job stands for the module of the job. -/
theorem Follows.holds (h : m.Follows p G Q) (hx : m.loader.UnitOf j x) :
    ∃ t, m.loader.target? j = some t ∧ G t ∧ m.host.store.Holds p x t := by
  obtain ⟨job, hjob, hdone⟩ := Loader.prepared?_eq_some.mp (Loader.unitOf_iff.mp hx)
  have hfollows := h.jobs j job hjob
  exact ⟨_, Loader.target?_of_job? hjob, hfollows.region, hfollows.holds hdone⟩

/-- An instantiation fails with its component, or because some module cannot be linked. -/
theorem Follows.ended (h : m.Follows p G Q) (hm : m.Regular) {e : LoadError}
    (hfailed : m.loader.instantiated? j = some (.error e)) :
    (∃ i c, m.loader.Joined j i c ∧ c.outcome = .error e) ∨ ∃ t, G t ∧ ¬ p.Links t := by
  obtain ⟨job, hjob, hdone⟩ := Loader.instantiated?_eq_some.mp hfailed
  rcases hm.grouped.ended j job _ hjob hdone with ⟨i, c, hjoined, hc⟩ | ⟨e', -, hstops | hprepared⟩
  · exact .inl ⟨i, c, hjoined, hc.symm⟩
  · obtain ⟨k, hk⟩ := hstops.exists_failed
    obtain ⟨other, hother, hlinking⟩ := Loader.linked?_eq_some.mp hk
    have hfollows := h.jobs k other hother
    exact .inr ⟨_, hfollows.region, hfollows.not_links hlinking⟩
  · obtain ⟨other, hother, hpreparation⟩ := Loader.prepared?_eq_some.mp hprepared
    have hfollows := h.jobs j other hother
    have hnone := hfollows.missing hpreparation
    exact .inr ⟨_, hfollows.region, Project.not_links_of_content? hnone⟩

/-- What is known of a loader of modules without cycles. -/
structure Settled (p : Project) (G : Resolved → Prop) (Q : String × Option Url → Prop)
    (m : Machine) : Prop where
  regular : m.Regular
  follows : m.Follows p G Q
  consistent : m.host.store.Consistent
  lives : m.host.store.Lives p
  grounded : m.host.store.Grounded
  roots : ∀ c ∈ m.loader.components,
    ∃ x, m.loader.UnitOf c.root x ∧ m.host.store.Reflects x c.outcome

namespace Settled

variable (h : m.Settled p G Q)

include h

/-- What a job reaches that is instantiated was entered. -/
theorem deep (hx : m.loader.UnitOf j x) (hj : m.loader.instantiated? j = some (.ok ())) :
    m.host.store.Deep x := by
  obtain ⟨c, hc, hok, hin⟩ := h.regular.exists_component hj
  obtain ⟨root, hroot, hreflects⟩ := h.roots c hc
  rw [hok] at hreflects
  obtain ⟨_, -, hmade⟩ := h.regular.grouped.made_of_mem hc
  have hpath : ∀ {k}, m.loader.Reaches c.root k → ∀ y, m.loader.UnitOf k y →
      ReflTransGen m.host.store.DependsOn root y := by
    clear hx
    intro k hreach
    induction hreach with
    | refl => exact fun y hy => hroot.unique hy ▸ .refl
    | tail _ hedge ih =>
      intro z hz
      obtain ⟨_, hlinked, -⟩ := id hedge
      obtain ⟨y, hy⟩ := h.regular.exists_unit hlinked
      obtain ⟨z', hz', hd⟩ := h.regular.wired.wired.edge hedge hy
      cases hz'.unique hz
      exact (ih y hy).tail hd
  exact fun z hz => hreflects z ((hpath (hmade.reached j hin) x hx).trans hz)

/-- The instantiation of a job fails only with its unit. -/
theorem errored (hlinks : ∀ t, G t → p.Links t) {job : Job} {e : LoadError}
    (hjob : m.loader.job? j = some job) (hfailed : job.instantiation = .done (.error e)) :
    ∃ x e', m.loader.UnitOf j x ∧ m.host.store.status x = .errored e' := by
  rcases h.follows.ended h.regular (Loader.instantiated?_eq_some.mpr ⟨job, hjob, hfailed⟩) with
    ⟨i, c, hjoined, hc⟩ | ⟨t, ht, hnot⟩
  · obtain ⟨x, hx, hreflects⟩ := h.roots c hjoined.mem
    rw [(h.regular.grouped.of_joined hjoined).2 e hc] at hx
    rw [hc] at hreflects
    obtain ⟨e', he'⟩ := hreflects
    exact ⟨x, e', hx, he'⟩
  · exact absurd (hlinks t ht) hnot

variable (hacyclic : ∀ t, G t → ¬ TransGen p.Imports t t)

include hacyclic

theorem not_transGen (hx : m.loader.UnitOf j x) : ¬ TransGen m.host.store.DependsOn x x := by
  obtain ⟨t, -, ht, unit, hunit, -, rfl⟩ := h.follows.holds hx
  exact h.follows.store.not_transGen hunit (hacyclic _ ht)

/-- The unit of a root is instantiated. -/
theorem instantiate {members : List JobId} (hclosed : m.loader.Closed members) (hin : j ∈ members)
    (hx : m.loader.UnitOf j x) : (m.host.store.instantiate x).1.Lives p ∧
      (m.host.store.instantiate x).1.Grounded ∧
      (m.host.store.instantiate x).1.Reflects x (m.host.store.instantiate x).2 := by
  have hm := h.regular
  let region (y : UnitId) : Prop := ∃ k ∈ members, m.loader.UnitOf k y
  have hthere : ∀ y, region y → (m.host.store.unit? y).isSome = true := by
    rintro y ⟨k, -, _, hy⟩
    exact (hm.wired.wired.unit hy).there
  have hcomplete : ∀ y, region y → m.host.store.Complete y := by
    rintro y ⟨k, hk, hy⟩
    obtain ⟨jobs, hlinked, -⟩ := hclosed k hk
    exact hm.complete hlinked hy
  have hlinked : ∀ y, region y → m.host.store.status y ≠ .unlinked := by
    rintro y ⟨k, hk, hy⟩
    obtain ⟨jobs, hlinked, -⟩ := hclosed k hk
    exact hm.not_unlinked hlinked hy
  obtain ⟨hlives, hgrounded, hok, hfailed⟩ := h.lives.instantiate h.grounded h.consistent hthere
    hcomplete hlinked (fun y z ⟨k, hk, hy⟩ hd => hm.wired.wired.member hclosed hk hy hd)
    (fun y ⟨k, _, hy⟩ => h.not_transGen hacyclic hy) ⟨j, hin, hx⟩
  refine ⟨hlives, hgrounded, ?_⟩
  cases hresult : (m.host.store.instantiate x).2 with
  | ok => exact hok hresult
  | error e => exact ⟨e, hfailed e hresult⟩

/-- A unit below which all is entered is evaluated. -/
theorem evaluate (hx : m.loader.UnitOf j x) (hdeep : m.host.store.Deep x) :
    (m.host.store.evaluate x).1.Lives p ∧ (m.host.store.evaluate x).1.Grounded ∧
      ((∃ v, (m.host.store.evaluate x).1.status x = .evaluated v ∧
          (m.host.store.evaluate x).2 = .ok v) ∨
        ∃ e, (m.host.store.evaluate x).1.status x = .errored e ∧
          (m.host.store.evaluate x).2 = .error e) := by
  refine h.lives.evaluate h.grounded h.consistent (fun y hy => ?_) hdeep
  obtain ⟨k, hk⟩ : ∃ k, m.loader.UnitOf k y := by
    clear hacyclic
    induction hy with
    | refl => exact ⟨j, hx⟩
    | @tail y z hpath hd ih =>
      obtain ⟨k, hk⟩ := ih
      obtain ⟨jobs, hlinked⟩ := h.regular.linked_of_entered hk (hdeep y hpath)
      obtain ⟨i, -, hi⟩ := h.regular.exists_job hlinked hk hd
      exact ⟨i, hi⟩
  exact h.not_transGen hacyclic hk

/-- What a loader does to units keeps what is known of them. -/
theorem enact {deed : Store.Deed} (hdeed : m.Does deed)
    (hfollows : (m.host.store.enact deed).Follows p) :
    (m.host.store.enact deed).Lives p ∧ (m.host.store.enact deed).Grounded ∧
      m.host.store.Onward (m.host.store.enact deed) := by
  have hs := h.lives.noManifests
  cases hdeed with
  | @instantiate j members x hx hin hclosed =>
    obtain ⟨hlives, hgrounded, -⟩ := h.instantiate hacyclic hclosed hin hx
    exact ⟨hlives, hgrounded, Store.onward_instantiate hs x⟩
  | @evaluate j x hx hj =>
    obtain ⟨hlives, hgrounded, -⟩ := h.evaluate hacyclic hx (h.deep hx hj)
    exact ⟨hlives, hgrounded, Store.onward_evaluate hs x⟩
  | prepare hdeed =>
    have hcalm := hdeed.calm h.regular h.follows
    exact ⟨h.lives.calm hfollows hcalm, h.grounded.calm hcalm, hcalm.onward⟩

end Settled

/-- Every step keeps what is known of a loader of modules without cycles. -/
theorem Rule.settled (h : Rule m action m') (hm : m.Settled p G Q) (hG : p.Region G)
    (hacyclic : ∀ t, G t → ¬ TransGen p.Imports t t)
    (hQ : ∀ query, Q query → ∀ t, p.settings.resolve p.files query.1 query.2 = .ok t → G t)
    (hwithin : action.Within Q) : m'.Settled p G Q := by
  have hfollows := h.follows hm.follows hG hQ hwithin
  have hlater := h.later hm.follows.sound
  obtain ⟨hconsistent, hlives, hgrounded, honward⟩ : m'.host.store.Consistent ∧
      m'.host.store.Lives p ∧ m'.host.store.Grounded ∧ m.host.store.Onward m'.host.store := by
    rcases h.does hm.regular with hsame | ⟨deed, hdeed, hstore⟩
    · rw [hsame]
      exact ⟨hm.consistent, hm.lives, hm.grounded, (Store.Calm.refl p _).onward⟩
    · have hfollows' := hfollows.store
      rw [hstore] at hfollows' ⊢
      exact ⟨hm.consistent.enact deed, hm.enact hacyclic hdeed hfollows'⟩
  have hold : ∀ c ∈ m.loader.components,
      ∃ x, m'.loader.UnitOf c.root x ∧ m'.host.store.Reflects x c.outcome := by
    intro c hc
    obtain ⟨x, hx, hreflects⟩ := hm.roots c hc
    exact ⟨x, Loader.unitOf_iff.mpr (hlater.prepared (Loader.unitOf_iff.mp hx)),
      hreflects.onward honward⟩
  refine ⟨h.regular hm.regular, hfollows, hconsistent, hlives, hgrounded, ?_⟩
  rcases Regular.components_cases h with hsame | ⟨new, hpush⟩
  · rw [hsame]
    exact hold
  · rw [hpush]
    intro c hc
    rcases Array.mem_push.mp hc with hc | rfl
    · exact hold c hc
    · -- the new component is that of a root whose unit is instantiated by this step
      obtain ⟨job, walk, x, hjob, hwalking, hstack, -, hprep, hm', hc⟩ :=
        Regular.component_of_step h hpush
      obtain ⟨hroot, hclosed⟩ :=
        (hm.regular.grouped.walking _ _ _ hjob hwalking).members_closed hstack
      have hx : m.loader.UnitOf c.root x := ⟨_, Loader.built?_of_job? hjob hprep⟩
      refine ⟨x, Loader.unitOf_iff.mpr (hlater.prepared (Loader.unitOf_iff.mp hx)), ?_⟩
      rw [hm', store_instantiateMembers, hc]
      exact (hm.instantiate hacyclic hclosed hroot hx).2.2

theorem settled_acts (hsteady : p.functions.Steady) (hG : p.Region G)
    (hacyclic : ∀ t, G t → ¬ TransGen p.Imports t t)
    (hQ : ∀ query, Q query → ∀ t, p.settings.resolve p.files query.1 query.2 = .ok t → G t)
    {actions : List Action} (hwithin : ∀ action ∈ actions, action.Within Q) :
    (p.machine.acts actions).Settled p G Q := by
  refine within_induction (P := fun m => m.Settled p G Q)
    (fun hrule hin hm => hrule.settled hm hG hacyclic hQ hin) ?_ hwithin
  have hfollows := follows_fresh p G Q
  exact ⟨regular_acts p.files p.registry p.tables p.functions p.settings [], hfollows,
    consistent_acts p.files p.registry p.tables p.functions p.settings [],
    ⟨hfollows.store, rfl, hsteady, fun x unit hunit => by cases hunit⟩, fun x hx => (by cases hx),
    fun c hc => by simp [Project.machine, ofSettings, Loader.ofSettings] at hc⟩

/-! ## Running modules -/

/-- The names that the unit of a job exports with their values, as its namespace lists them. -/
def exported? (m : Machine) (j : JobId) : Option (List (String × Value)) := do
  let unit ← (← m.loader.prepared? j).toOption
  let ns ← (m.namespaceOf unit).toOption
  return ns.read m.host.store.cells

/-- What somebody is told who runs a module, or imports it, that comes to an outcome. Which error it
is that the module fails with is left open. -/
inductive Tells (values : List (String × Value)) (cells : Cells) :
    Except Unit (Option Value) → Wish → Except LoadError Answer → Prop
  | failed {wish : Wish} {e : LoadError} : Tells values cells (.error ()) wish (.error e)
  | completion {v : Option Value} : Tells values cells (.ok v) .completion (.ok (.completion v))
  | imported {v : Option Value} {ns : Namespace} :
      ns.read cells = values → Tells values cells (.ok v) .imported (.ok (.namespace ns))

theorem answerOf?_setCall {call : CallId} {old : Call}
    (h : m.loader.calls[call.index]? = some old) (state : Call) :
    (m.setCall call state).answerOf? call = state.answer? := by
  have hlt := (Array.getElem?_eq_some_iff.mp h).1
  unfold answerOf? setCall
  dsimp only
  rw [Array.getElem?_setIfInBounds, if_pos rfl, if_pos hlt]
  rfl

theorem evaluateJob_eq (hx : m.loader.UnitOf j x) :
    m.evaluateJob j = ({ m with host := { m.host with store := (m.host.store.evaluate x).1 } },
      (m.host.store.evaluate x).2) := by
  unfold evaluateJob
  rw [Loader.unitOf_iff.mp hx]

/-- The namespace of the unit of a job. -/
theorem namespaceOf_eq (h : m.host.store.Follows p) {unit : ModuleUnit}
    (hunit : m.host.store.unit? x = some unit) :
    m.namespaceOf x = .ok (.ofScope unit.exports) := by
  unfold namespaceOf
  rw [hunit]
  cases h.made x unit hunit <;> rfl

theorem exported?_eq (h : m.host.store.Follows p) (hx : m.loader.UnitOf j x) {unit : ModuleUnit}
    (hunit : m.host.store.unit? x = some unit) :
    m.exported? j = some (Table.sorted (unit.exports.read m.host.store.cells)) := by
  unfold exported?
  rw [Loader.unitOf_iff.mp hx]
  simp only [Option.bind_eq_bind, Option.bind_some, Except.toOption, namespaceOf_eq h hunit]
  rw [Namespace.read_ofScope]
  rfl

theorem importedNamespace_eq (h : m.host.store.Follows p) (hx : m.loader.UnitOf j x)
    {unit : ModuleUnit} (hunit : m.host.store.unit? x = some unit) :
    m.importedNamespace j = .ok (.namespace (.ofScope unit.exports)) := by
  unfold importedNamespace answer?
  rw [Loader.unitOf_iff.mp hx]
  simp only [Option.map_some, Option.getD_some, namespaceOf_eq h hunit]
  rfl

/-- What running the module of a job, or importing it, does and tells. -/
theorem serveInstantiated_eq (h : m.host.store.Follows p) (hx : m.loader.UnitOf j x) {wish : Wish}
    (hwish : wish = .completion ∨ wish = .imported) {unit : ModuleUnit}
    (hunit : (m.host.store.evaluate x).1.unit? x = some unit) : m.serveInstantiated j wish =
      ({ m with host := { m.host with store := (m.host.store.evaluate x).1 } },
        (m.host.store.evaluate x).2.map fun v =>
          if wish = .imported then .namespace (.ofScope unit.exports) else .completion v) := by
  let after : Machine := { m with host := { m.host with store := (m.host.store.evaluate x).1 } }
  have himported : after.importedNamespace j = .ok (.namespace (.ofScope unit.exports)) :=
    importedNamespace_eq (m := after) (h.evaluate x).1 hx hunit
  unfold serveInstantiated
  rw [evaluateJob_eq hx]
  rcases hwish with rfl | rfl
  · cases (m.host.store.evaluate x).2 <;> rfl
  · cases (m.host.store.evaluate x).2 with
    | error e => rfl
    | ok v => exact congrArg (Prod.mk after) himported

/-- By its next step a call is answered that runs the module of a job, or imports it. -/
structure Finishes (m : Machine) (call : CallId) (j : JobId) (wish : Wish) (m' : Machine)
    (answer : Except LoadError Answer) : Prop where
  runs : wish = .completion ∨ wish = .imported
  serving : m.loader.calls[call.index]? = some (.serving j wish)
  step : m.step? (.advance call) = some m'
  answer : m'.answerOf? call = some answer

/-- A module that could not be instantiated has failed for everybody, and shows what it is left with. -/
theorem Settled.comes_to_error (h : m.Settled p G Q) (hlinks : ∀ t, G t → p.Links t) {job : Job}
    {e : LoadError} (hjob : m.loader.job? j = some job) (hfailed : job.instantiation = .done (.error e)) :
    ∃ t values, m.loader.target? j = some t ∧ p.Yields t (.error ()) values ∧
      m.exported? j = some (Table.sorted values) := by
  obtain ⟨x, e', hx, hstatus⟩ := h.errored hlinks hjob hfailed
  obtain ⟨t, ht, -, unit, hunit, -, rfl⟩ := h.follows.holds hx
  rw [Store.status_of_unit? hunit] at hstatus
  exact ⟨_, _, ht, (h.lives.lives x unit hunit).errored e' hstatus,
    exported?_eq (m := m) h.follows.store hx hunit⟩

/-- A module that is instantiated comes to what it is evaluated to, and shows that. -/
theorem Settled.comes_to_run (h : m.Settled p G Q)
    (hacyclic : ∀ t, G t → ¬ TransGen p.Imports t t)
    (hinstantiated : m.loader.instantiated? j = some (.ok ())) :
    ∃ t x unit, m.loader.target? j = some t ∧ m.loader.UnitOf j x ∧
      (m.host.store.evaluate x).1.unit? x = some unit ∧
      p.Yields t ((m.host.store.evaluate x).2.mapError fun _ => ())
        (unit.exports.read (m.host.store.evaluate x).1.cells) ∧
      ({ m with host := { m.host with store := (m.host.store.evaluate x).1 } } : Machine).exported? j =
        some (Table.sorted (unit.exports.read (m.host.store.evaluate x).1.cells)) := by
  obtain ⟨c, hc, -, hin⟩ := h.regular.exists_component hinstantiated
  obtain ⟨_, -, hmade⟩ := h.regular.grouped.made_of_mem hc
  obtain ⟨jobs, hlinked, -⟩ := hmade.closed j hin
  obtain ⟨x, hx⟩ := h.regular.exists_unit hlinked
  obtain ⟨t, ht, -, hholds⟩ := h.follows.holds hx
  obtain ⟨hlives, -, hend⟩ := h.evaluate hacyclic hx (h.deep hx hinstantiated)
  obtain ⟨unit, hunit, -, rfl⟩ := hholds.keeps (h.follows.store.evaluate x).2
  refine ⟨_, x, unit, ht, hx, hunit, ?_,
    exported?_eq (m := { m with host := { m.host with store := (m.host.store.evaluate x).1 } })
      hlives.toFollows hx hunit⟩
  have hstatus := Store.status_of_unit? hunit
  rcases hend with ⟨v, hv, hresult⟩ | ⟨e, he, hresult⟩
  · rw [hresult]
    exact (hlives.lives x unit hunit).evaluated v (hstatus.symm.trans hv)
  · rw [hresult]
    exact (hlives.lives x unit hunit).errored e (hstatus.symm.trans he)

/-- A call that runs the module of a job, or imports it, is told what comes of the module. -/
theorem Settled.tells (h : m.Settled p G Q) (hacyclic : ∀ t, G t → ¬ TransGen p.Imports t t)
    (hlinks : ∀ t, G t → p.Links t) {call : CallId} {wish : Wish} {answer : Except LoadError Answer}
    (hfinishes : m.Finishes call j wish m' answer) :
    ∃ t r values, m.loader.target? j = some t ∧ p.Yields t r values ∧
      Tells (Table.sorted values) m'.host.store.cells r wish answer ∧
      m'.exported? j = some (Table.sorted values) := by
  obtain ⟨hwish, hserving, hstep, hanswer⟩ := hfinishes
  have hneeds : needsInstantiation wish = true := by rcases hwish with rfl | rfl <;> rfl
  cases Rule.of_step? hstep with
  | callEnters hcall =>
    -- the call goes on waiting
    unfold answerOf? at hanswer
    rw [show (m.setInstantiation _ _).loader.calls = m.loader.calls from rfl, hserving] at hanswer
    cases hanswer
  | @callFailed _ id _ job e hcall _ hjob hfailed =>
    cases hserving.symm.trans hcall
    obtain ⟨t, values, ht, hyields, hshown⟩ := h.comes_to_error hlinks hjob hfailed
    rw [answerOf?_setCall (m := m) hserving] at hanswer
    cases hanswer
    exact ⟨t, .error (), values, ht, hyields, .failed, hshown⟩
  | @callInstantiated _ id _ job hcall _ hjob hdone =>
    cases hserving.symm.trans hcall
    have hinstantiated := Loader.instantiated?_eq_some.mpr ⟨job, hjob, hdone⟩
    obtain ⟨t, x, unit, ht, hx, hunit, hyields, hshown⟩ := h.comes_to_run hacyclic hinstantiated
    let after : Machine := { m with host := { m.host with store := (m.host.store.evaluate x).1 } }
    rw [serveInstantiated_eq h.follows.store hx hwish hunit] at hanswer ⊢
    rw [answerOf?_setCall (m := after) hserving] at hanswer
    cases hanswer
    refine ⟨t, _, _, ht, hyields, ?_, hshown⟩
    cases (m.host.store.evaluate x).2 with
    | error e => exact .failed
    | ok v =>
      rcases hwish with rfl | rfl
      · exact .completion
      · exact .imported (Namespace.read_ofScope _ _)
  | callAnswered hcall hno =>
    cases hserving.symm.trans hcall
    rw [hneeds] at hno
    cases hno
  | callResolved hcall | callUnresolved hcall | callServed hcall =>
    cases hserving.symm.trans hcall

/--
Among modules that can all be linked and import each other over no cycle, on a host whose functions
answer by their arguments only, each comes to one thing: it fails, or it runs with one completion, and
its namespace shows certain values. Whatever was called for before within these modules, and whatever
is under way at the same time, this is what somebody is told who runs the module or imports it, and
what the namespace shows right afterwards. A fresh loader in which nothing else is called for is one
case of this.
-/
theorem same_after_any_history (hG : p.Acyclic G) (hsteady : p.functions.Steady) (t : Resolved) :
    ∃ r values, ∀ actions, (∀ action ∈ actions, action.Within (p.LeadsInto G)) →
      ∀ call j wish m' answer, (p.machine.acts actions).loader.target? j = some t →
        (p.machine.acts actions).Finishes call j wish m' answer →
        Tells values m'.host.store.cells r wish answer ∧ m'.exported? j = some values := by
  have htells : ∀ actions, (∀ action ∈ actions, action.Within (p.LeadsInto G)) →
      ∀ call j wish m' answer, (p.machine.acts actions).loader.target? j = some t →
        (p.machine.acts actions).Finishes call j wish m' answer →
        ∃ r values, p.Yields t r values ∧ Tells (Table.sorted values) m'.host.store.cells r wish answer ∧
          m'.exported? j = some (Table.sorted values) := by
    intro actions hwithin call j wish m' answer ht hfinishes
    have hm : (p.machine.acts actions).Settled p (fun t => G t ∧ p.Found t) (p.LeadsInto G) :=
      settled_acts hsteady hG.region (fun t ht => hG.acyclic t ht.1)
        (fun query hquery t hresolve => ⟨hquery t hresolve, query.1, query.2, hresolve⟩) hwithin
    obtain ⟨t', r, values, ht', hyields, htells⟩ :=
      hm.tells (fun t ht => hG.acyclic t ht.1) (fun t ht => hG.links t ht.1) hfinishes
    cases ht.symm.trans ht'
    exact ⟨r, values, hyields, htells⟩
  by_cases hsome : ∃ r values, p.Yields t r values
  · obtain ⟨r, values, hyields⟩ := hsome
    refine ⟨r, Table.sorted values, fun actions hwithin call j wish m' answer ht hfinishes => ?_⟩
    obtain ⟨r', values', hyields', htold⟩ :=
      htells actions hwithin call j wish m' answer ht hfinishes
    obtain ⟨rfl, rfl⟩ := hyields.unique hyields'
    exact htold
  · refine ⟨.error (), [], fun actions hwithin call j wish m' answer ht hfinishes => ?_⟩
    obtain ⟨r, values, hyields, -⟩ := htells actions hwithin call j wish m' answer ht hfinishes
    exact absurd ⟨r, values, hyields⟩ hsome

/-! ### A library that is imported after a script has failed -/

/-- A call that is served by the job of a module, and goes well by its next step. -/
def finishes? (m : Machine) (call : CallId) (t : Resolved) (wish : Wish) : Bool :=
  (m.loader.calls[call.index]?).any fun
    | .serving j w => w = wish && m.loader.target? j = some t &&
        (m.step? (.advance call)).any fun m' => (m'.answerOf? call).any (·.isOk)
    | _ => false

theorem exists_finishes {call : CallId} {wish : Wish} (hwish : wish = .completion ∨ wish = .imported)
    (h : m.finishes? call t wish = true) : ∃ j m' answer, m.loader.target? j = some t ∧
      m.Finishes call j wish m' answer ∧ answer.isOk = true := by
  obtain ⟨state, hstate, hcheck⟩ := (Option.any_eq_true _ _).mp h
  split at hcheck
  next j w =>
    obtain ⟨hjob, hstep⟩ := Bool.and_eq_true_iff.mp hcheck
    obtain ⟨hw, ht⟩ := Bool.and_eq_true_iff.mp hjob
    obtain ⟨m', hm', hsome⟩ := (Option.any_eq_true _ _).mp hstep
    obtain ⟨answer, hanswer, hok⟩ := (Option.any_eq_true _ _).mp hsome
    cases of_decide_eq_true hw
    exact ⟨j, m', answer, of_decide_eq_true ht, ⟨hwish, hstate, hm', hanswer⟩, hok⟩
  next => cases hcheck

/-- Whether an action calls for modules of a list only. -/
def isWithin (p : Project) (modules : List Resolved) : Action → Bool
  | .start (.find specifier referrer _) =>
    (p.settings.resolve p.files specifier referrer).toOption.all (modules.elem ·)
  | .start (.eval _) | .supply _ => false
  | _ => true

theorem within_of_isWithin {modules : List Resolved} (h : isWithin p modules action = true) :
    action.Within (p.LeadsInto (· ∈ modules)) := by
  unfold isWithin at h
  split at h
  next specifier referrer wish =>
    intro t ht
    rw [show p.settings.resolve p.files specifier referrer = .ok t from ht] at h
    exact List.elem_iff.mp h
  next => cases h
  next => cases h
  next hfind heval hsupply =>
    cases action with
    | start goal =>
      cases goal with
      | find specifier referrer wish => exact absurd rfl (hfind _ _ _)
      | eval source => exact absurd rfl (heval _)
      | _ => trivial
    | supply source => exact absurd rfl (hsupply _)
    | _ => trivial

/-- Two scripts that import from a library; the second one asks for a name that it does not have. -/
def sharing : Project where
  files := (Host.ofScripts [("/a", "import { x } from '@rt/m';"),
    ("/c", "import { nope } from '@rt/m';")]).files
  registry := [("m", ⟨0⟩)]
  tables := ⟨#[[("x", .boolean true)]]⟩
  settings := .atRoot
  functions := .stock

def sharingModules : List Resolved :=
  ["./a", "./c", "@rt/m"].filterMap fun specifier =>
    (sharing.settings.resolve sharing.files specifier none).toOption

def sharedLibrary : Resolved := ⟨{ scheme := "builtin", path := .rootless "@rt/m" }, .builtin⟩

/-- The library is imported alone, or after the script that fails and together with the other one. -/
def sharingGoals : List (List Goal) :=
  [[.find "@rt/m" none .imported],
    [.find "./c" none .imported, .find "./a" none .completion, .find "@rt/m" none .imported]]

/-- It shows the same in both cases. -/
theorem same_after_failed_import :
    sharing.Acyclic (· ∈ sharingModules) ∧ sharing.functions.Steady ∧
      ∃ r values, ∀ goals ∈ sharingGoals,
        let m := sharing.machine.acts (sharing.machine.answering 60 goals).dropLast
        ∃ call j m' answer, m.loader.target? j = some sharedLibrary ∧
          m.Finishes call j .imported m' answer ∧ answer.isOk = true ∧
          Tells values m'.host.store.cells r .imported answer ∧ m'.exported? j = some values := by
  have hacyclic : sharing.Acyclic (· ∈ sharingModules) :=
    Project.acyclic_of_layered (by decide +kernel)
  have hwithin : ∀ goals ∈ sharingGoals,
      ∀ action ∈ (sharing.machine.answering 60 goals).dropLast,
        isWithin sharing sharingModules action = true := by
    have hall : (sharingGoals.all fun goals =>
        (sharing.machine.answering 60 goals).dropLast.all (isWithin sharing sharingModules)) =
          true := by decide +kernel
    exact fun goals hgoals action haction =>
      List.all_eq_true.mp (List.all_eq_true.mp hall goals hgoals) action haction
  have hfinishes : ∀ goals ∈ sharingGoals,
      (sharing.machine.acts (sharing.machine.answering 60 goals).dropLast).finishes?
        ⟨goals.length - 1⟩ sharedLibrary .imported = true := by
    have hall : (sharingGoals.all fun goals =>
        (sharing.machine.acts (sharing.machine.answering 60 goals).dropLast).finishes?
          ⟨goals.length - 1⟩ sharedLibrary .imported) = true := by decide +kernel
    exact List.all_eq_true.mp hall
  have hsteady : sharing.functions.Steady := fun _ _ _ => rfl
  obtain ⟨r, values, hsame⟩ := same_after_any_history hacyclic hsteady sharedLibrary
  refine ⟨hacyclic, hsteady, r, values, fun goals hgoals => ?_⟩
  obtain ⟨j, m', answer, ht, hlast, hok⟩ := exists_finishes (.inr rfl) (hfinishes goals hgoals)
  exact ⟨_, j, m', answer, ht, hlast, hok,
    hsame _ (fun action haction => within_of_isWithin (hwithin goals hgoals action haction))
      _ j _ m' answer ht hlast⟩

end Machine

end ModuleLoader
