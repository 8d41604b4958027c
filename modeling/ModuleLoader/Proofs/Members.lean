import ModuleLoader.Proofs.Wiring
/-!
# Members that are instantiated

A component that went well stands for all of its members: each of them answers that it is
instantiated. The one call on the unit of the root does not see to it. It takes a unit that failed
before to be done with, and what lies behind it is left as it is.

Results:
1. `wired_acts`: whatever a loader of scripts does, units are wired like their jobs.
2. `entered_members_iff`: when all members of a component are entered.
3. `entered_after_call_iff`: which members are entered after the call that makes a component.
4. `entered_members`: all of this after any run, with what running a member answers.
-/
namespace ModuleLoader

open Relation (ReflTransGen)

/-- A host of scripts in which nothing was loaded yet. -/
def Host.ofLibraries (files : Files) (registry : Registry) (tables : Tables)
    (functions : HostFunctions) : Host :=
  { store := { tables, cells := { functions } }, files, registry }

namespace Loader

variable {l : Loader} {s : Store} {a b j k : JobId} {x y unit : UnitId}

theorem unitOf_iff : l.UnitOf j unit ↔ l.prepared? j = some (.ok unit) := by
  rw [prepared?_eq_some]
  unfold UnitOf built?
  constructor
  · rintro ⟨linking, h⟩
    obtain ⟨job, hjob, hprep, -⟩ := exists_job_of_built? h
    exact ⟨job, hjob, hprep⟩
  · rintro ⟨job, hjob, hprep⟩
    exact ⟨_, built?_of_job? hjob hprep⟩

/-- Jobs that are linked have units that are. -/
theorem Wired.edge (hw : l.Wired s) (h : l.Edge a b) (ha : l.UnitOf a x) :
    ∃ y, l.UnitOf b y ∧ s.DependsOn x y := by
  obtain ⟨dependencies, hlinked, hin⟩ := h
  exact ((hw.unit (ha.linked hlinked)).done dependencies rfl).2.1 b hin

/-- A unit that is linked has been asked for its specifiers. -/
theorem Wired.linked (hw : l.Wired s) {dependencies : List JobId}
    (hlinked : l.linked? a = some (.ok dependencies)) (ha : l.UnitOf a x)
    (hfresh : (s.status x).isEntered = false) : s.status x = .linked := by
  have hunlinked := ((hw.unit (ha.linked hlinked)).done dependencies rfl).1
  cases hstatus : s.status x with
  | unlinked => exact absurd hstatus hunlinked
  | linked => rfl
  | _ => rw [hstatus] at hfresh; cases hfresh

end Loader

namespace Machine

variable {m m' : Machine} {action : Action} {a b j k : JobId}

/-- The unit of a job is past being linked: somebody has begun to instantiate it. -/
def Entered (m : Machine) (id : JobId) : Prop :=
  ∃ unit, m.loader.prepared? id = some (.ok unit) ∧ (m.host.store.status unit).isEntered = true

/-- The unit of a job has failed. -/
def Errored (m : Machine) (id : JobId) : Prop :=
  ∃ unit e, m.loader.prepared? id = some (.ok unit) ∧ m.host.store.status unit = .errored e

/-- A job reaches another one over jobs that are not entered. -/
def Leads (m : Machine) (a b : JobId) : Prop :=
  ¬ m.Entered a ∧ ReflTransGen (fun x y => m.loader.Edge x y ∧ ¬ m.Entered y) a b

/-! ## After any run -/

/-- What holds of a loader of scripts after whatever it did. -/
structure Regular (m : Machine) : Prop where
  sound : m.loader.resolver.Sound
  grouped : m.loader.Grouped
  units : ∀ id job, m.loader.job? id = some job → job.HasUnit
  wired : m.Wired

theorem wired_fresh (files : Files) (registry : Registry) (tables : Tables)
    (functions : HostFunctions) (settings : Settings) :
    (ofSettings (.ofLibraries files registry tables functions) settings).Wired := by
  refine ⟨rfl, ⟨fun x unit h => ?_, fun x e h => ?_, fun x y h => ?_, fun x h => ?_⟩,
    fun h => ?_, fun h => ?_, fun c h => ?_⟩
  · cases h
  · cases h
  · cases h
  · cases h
  · cases h
  · obtain ⟨_, h⟩ := h
    cases h
  · exact absurd h (Array.not_mem_empty c)

theorem Rule.regular (h : Rule m action m') (hm : m.Regular) : m'.Regular where
  sound := h.resolver.sound hm.sound
  grouped := h.grouped hm.sound hm.grouped
  units := h.forall_jobs (fun _ h => h.hasUnit) (fun _ _ h => h.hasUnit) hm.units
  wired := h.wired hm.grouped hm.units hm.wired

/-- What is so at first, and kept by every step of a loader of scripts, holds after any run. -/
theorem regular_induction {P : Machine → Prop} (files : Files) (registry : Registry)
    (tables : Tables) (functions : HostFunctions) (settings : Settings)
    (hfresh : P (ofSettings (.ofLibraries files registry tables functions) settings))
    (step : ∀ {m action m'}, m.Regular → Rule m action m' → P m → P m') (actions : List Action) :
    ((ofSettings (.ofLibraries files registry tables functions) settings).acts actions).Regular ∧
      P ((ofSettings (.ofLibraries files registry tables functions) settings).acts actions) := by
  refine acts_induction (P := fun m => m.Regular ∧ P m)
    (fun hrule ⟨hm, h⟩ => ⟨hrule.regular hm, step hm hrule h⟩) ⟨⟨?_, ?_, ?_, ?_⟩, hfresh⟩ actions
  · exact Resolver.sound_ofSettings settings
  · exact grouped_after (.ofLibraries files registry tables functions) settings []
  · exact hasUnit_after (.ofLibraries files registry tables functions) settings []
  · exact wired_fresh files registry tables functions settings

theorem regular_acts (files : Files) (registry : Registry) (tables : Tables)
    (functions : HostFunctions) (settings : Settings) (actions : List Action) :
    ((ofSettings (.ofLibraries files registry tables functions) settings).acts actions).Regular :=
  (regular_induction (P := fun _ => True) files registry tables functions settings trivial
    (fun _ _ _ => trivial) actions).1

namespace Regular

theorem exists_unit (hm : m.Regular) {dependencies : List JobId}
    (hlinked : m.loader.linked? j = some (.ok dependencies)) : ∃ unit, m.loader.UnitOf j unit := by
  obtain ⟨job, hjob, hdone⟩ := Loader.linked?_eq_some.mp hlinked
  obtain ⟨unit, hprep⟩ := hm.units j job hjob (.inr ⟨_, hdone⟩)
  exact ⟨unit, _, Loader.built?_of_job? hjob hprep⟩

theorem entered_iff {unit : UnitId} (hj : m.loader.UnitOf j unit) :
    m.Entered j ↔ (m.host.store.status unit).isEntered = true := by
  constructor
  · rintro ⟨other, hother, hentered⟩
    cases hj.unique (Loader.unitOf_iff.mpr hother)
    exact hentered
  · exact fun hentered => ⟨unit, Loader.unitOf_iff.mp hj, hentered⟩

/-- A job that is entered and has not failed depends on entered ones. -/
theorem entered_of_edge (hm : m.Regular) (h : m.loader.Edge j k) (hj : m.Entered j)
    (hfine : ¬ m.Errored j) : m.Entered k := by
  obtain ⟨unit, hprepared, hentered⟩ := hj
  obtain ⟨y, hk, hdepends⟩ := hm.wired.wired.edge h (Loader.unitOf_iff.mpr hprepared)
  refine (entered_iff hk).mpr (hm.wired.wired.safe.closed unit y ?_ hdepends)
  cases hstatus : m.host.store.status unit with
  | unlinked => rw [hstatus] at hentered; cases hentered
  | linked => rw [hstatus] at hentered; cases hentered
  | instantiating => exact absurd hstatus (hm.wired.wired.safe.settled unit)
  | errored e => exact absurd ⟨unit, e, hprepared, hstatus⟩ hfine
  | _ => rfl

/-- All members of a component that went well are entered exactly if those that have failed depend
on entered ones only. -/
theorem entered_members_iff (hm : m.Regular) {c : Component} (hc : c ∈ m.loader.components)
    (hok : c.outcome = .ok ()) :
    (∀ j ∈ c.members, m.Entered j) ↔
      ∀ j ∈ c.members, m.Errored j → ∀ k, m.loader.Edge j k → m.Entered k := by
  obtain ⟨_, -, hmade⟩ := hm.grouped.made_of_mem hc
  constructor
  · intro h j hj _ k hedge
    obtain ⟨dependencies, hlinked, hall⟩ := hmade.closed j hj
    obtain ⟨others, hothers, hin⟩ := hedge
    cases hlinked.symm.trans hothers
    exact h k (hall k hin)
  · intro h j hj
    have hroot : m.Entered c.root := by
      obtain ⟨unit, hunit, hentered⟩ := hm.wired.wired.roots c hc hok
      exact (entered_iff hunit).mpr hentered
    -- along the way from the root, one that has failed passes it on by `h`, and any other one has
    -- its imports bound
    have hpath := hmade.reached j hj
    induction hpath with
    | refl => exact hroot
    | @tail a b hpath hedge ih =>
      have ha := hmade.closed.reaches hpath hmade.root
      by_cases herror : m.Errored a
      · exact h a ha herror b hedge
      · exact hm.entered_of_edge hedge (ih ha) herror

/-! ## After one call -/

theorem not_entered_iff {unit : UnitId} (hj : m.loader.UnitOf j unit) :
    ¬ m.Entered j ↔ (m.host.store.status unit).isEntered = false := by
  rw [entered_iff hj, Bool.not_eq_true]

/-- Units lead to each other as their jobs do. -/
theorem leads_iff (hm : m.Regular) {members : List JobId} (hclosed : m.loader.Closed members)
    (ha : a ∈ members) {x y : UnitId} (hx : m.loader.UnitOf a x) (hy : m.loader.UnitOf b y) :
    m.host.store.Leads x y ↔ m.Leads a b := by
  have hw := hm.wired.wired
  constructor
  · rintro ⟨hlinked, hpath⟩
    -- each unit on the way is that of a member, which is the next job on the way of jobs
    have hends : ∃ k ∈ members, m.loader.UnitOf k y ∧
        ReflTransGen (fun x y => m.loader.Edge x y ∧ ¬ m.Entered y) a k := by
      clear hy
      induction hpath with
      | refl => exact ⟨a, ha, hx, .refl⟩
      | tail _ hedge ih =>
        obtain ⟨k, hk, hunit, hjobs⟩ := ih
        obtain ⟨dependencies, hdone, hall⟩ := hclosed k hk
        obtain ⟨i, hi, hnext⟩ :=
          ((hw.unit (hunit.linked hdone)).done dependencies rfl).2.2 _ hedge.1
        refine ⟨i, hall i hi, hnext, hjobs.tail ⟨⟨dependencies, hdone, hi⟩, ?_⟩⟩
        rw [not_entered_iff hnext, hedge.2]
        rfl
    obtain ⟨k, -, hunit, hjobs⟩ := hends
    cases hw.apart hunit hy
    exact ⟨by rw [not_entered_iff hx, hlinked]; rfl, hjobs⟩
  · rintro ⟨hfresh, hpath⟩
    obtain ⟨dependencies, hdone, -⟩ := hclosed a ha
    refine ⟨hw.linked hdone hx ((not_entered_iff hx).mp hfresh), ?_⟩
    induction hpath generalizing y with
    | refl => cases hx.unique hy; exact .refl
    | @tail k i hpath hedge ih =>
      have hk : k ∈ members := hclosed.reaches (ReflTransGen.mono (fun _ _ h => h.1) _ _ hpath) ha
      have hi : i ∈ members := hclosed.reaches (.single hedge.1) hk
      obtain ⟨deps, hkdone, -⟩ := hclosed k hk
      obtain ⟨others, hidone, -⟩ := hclosed i hi
      obtain ⟨z, hz⟩ := hm.exists_unit hkdone
      obtain ⟨y', hy', hdepends⟩ := hw.edge hedge.1 hz
      cases hy'.unique hy
      exact (ih hz).tail ⟨hdepends, hw.linked hidone hy ((not_entered_iff hy).mp hedge.2)⟩

/-- The rule by which a step makes a component. -/
theorem component_of_step (h : Rule m action m') {c : Component}
    (hmade : m'.loader.components = m.loader.components.push c) :
    ∃ job walk unit, m.loader.job? c.root = some job ∧ job.instantiation = .walking walk ∧
      walk.stack = [] ∧ m.loader.component? c.root = none ∧
      job.preparation = .done (.ok unit) ∧ m' = m.instantiateMembers c.root unit walk.members ∧
      c = ⟨c.root, walk.members, (m.host.store.instantiate unit).2⟩ := by
  have hsame : m'.loader.components ≠ m.loader.components := by
    intro hsame
    have hsize := congrArg Array.size (hmade.symm.trans hsame)
    rw [Array.size_push] at hsize
    omega
  by_cases hinstantiate : ∃ id, action = .instantiate id
  · obtain ⟨id, rfl⟩ := hinstantiate
    cases h with
    | @walkEnded _ job walk unit hjob hwalking hstack hc hprep =>
      have hpush := (components_instantiateMembers m id unit walk.members).symm.trans hmade
      obtain ⟨rfl, -⟩ := Array.push_eq_push.mp hpush
      exact ⟨job, walk, unit, hjob, hwalking, hstack, hc, hprep, rfl, rfl⟩
    | _ => exact absurd rfl hsame
  · exact absurd (h.components fun id hid => hinstantiate ⟨id, hid⟩) hsame

/-- A step makes one component at most. -/
theorem components_cases (h : Rule m action m') :
    m'.loader.components = m.loader.components ∨
      ∃ c, m'.loader.components = m.loader.components.push c := by
  by_cases hinstantiate : ∃ id, action = .instantiate id
  · obtain ⟨id, rfl⟩ := hinstantiate
    cases h with
    | walkEnded => exact .inr ⟨_, components_instantiateMembers m _ _ _⟩
    | _ => exact .inl rfl
  · exact .inl (h.components fun id hid => hinstantiate ⟨id, hid⟩)

theorem exists_push (h : Rule m action m')
    (hmore : m.loader.components.size < m'.loader.components.size) :
    ∃ c, m'.loader.components = m.loader.components.push c := by
  refine (components_cases h).resolve_left fun hsame => ?_
  rw [hsame] at hmore
  exact Nat.lt_irrefl _ hmore

/-- The call that makes a component and goes well enters the members that the root leads to. -/
theorem entered_after_call_iff (hm : m.Regular) (h : Rule m action m') {c : Component}
    (hmade : m'.loader.components = m.loader.components.push c) (hok : c.outcome = .ok ())
    (hj : j ∈ c.members) : m'.Entered j ↔ m.Entered j ∨ m.Leads c.root j := by
  obtain ⟨job, walk, unit, hjob, hwalking, hstack, -, hprep, rfl, hc⟩ := component_of_step h hmade
  rw [hc] at hok hj
  obtain ⟨hroot, hclosed⟩ := (hm.grouped.walking _ _ _ hjob hwalking).members_closed hstack
  have hunit : m.loader.UnitOf c.root unit := ⟨_, Loader.built?_of_job? hjob hprep⟩
  obtain ⟨dependencies, hdone, -⟩ := hclosed j hj
  obtain ⟨y, hy⟩ := hm.exists_unit hdone
  have hafter : (m.instantiateMembers c.root unit walk.members).loader.UnitOf j y := by
    unfold Loader.UnitOf
    rw [built?_instantiateMembers]
    exact hy
  have hentering := Store.entering_instantiate hm.wired.wired.safe.plain
    (hm.wired.wired.unit (Loader.built?_of_job? hjob hprep)).there
  rw [show (m.host.store.instantiate unit).2 = .ok () from hok] at hentering
  rw [entered_iff hafter, store_instantiateMembers, Store.entered_instantiate_iff hentering,
    hm.leads_iff hclosed hroot hunit hy, ← entered_iff hy]

/-! ## Running a job that is said to be instantiated -/

/-- A job that answers that it is instantiated belongs to a component that went well. -/
theorem exists_component (hm : m.Regular) (h : m.loader.instantiated? j = some (.ok ())) :
    ∃ c ∈ m.loader.components, c.outcome = .ok () ∧ j ∈ c.members := by
  obtain ⟨job, hjob, hdone⟩ := Loader.instantiated?_eq_some.mp h
  rcases hm.grouped.ended j job _ hjob hdone with ⟨i, c, hjoined, hok⟩ | ⟨e, he, -⟩
  · exact ⟨c, hjoined.mem, hok.symm, (hm.grouped.of_joined hjoined).1⟩
  · cases he

end Regular

theorem namespaceOf_error {unit : UnitId} {e : LoadError} (h : m.namespaceOf unit = .error e) :
    e.isUninstantiated = false := by
  unfold namespaceOf at h
  split at h
  next other _ =>
    unfold ModuleUnit.namespace? at h
    split at h
    next =>
      split at h
      next => cases h; rfl
      next => cases h
    next => cases h
  next => cases h

theorem importedNamespace_error {unit : UnitId} {e : LoadError}
    (hprepared : m.loader.prepared? j = some (.ok unit)) (h : m.importedNamespace j = .error e) :
    e.isUninstantiated = false := by
  unfold importedNamespace answer? at h
  rw [hprepared] at h
  simp only [Option.map_some, Option.getD_some] at h
  cases hns : m.namespaceOf unit with
  | ok ns => rw [hns] at h; cases h
  | error e' => rw [hns] at h; cases h; exact namespaceOf_error hns

/-- A call that runs a job gets the error of the evaluation, or what comes of its success. -/
theorem serveInstantiated_of_error {e : LoadError} (h : (m.evaluateJob j).2 = .error e)
    {wish : Wish} (hwish : wish = .completion ∨ wish = .imported) :
    (m.serveInstantiated j wish).2 = .error e := by
  unfold serveInstantiated
  rcases hwish with rfl | rfl
  · dsimp only
    rw [h]
  · dsimp only
    rw [h]

theorem serveInstantiated_of_ok {completion : Option Value}
    (h : (m.evaluateJob j).2 = .ok completion) {wish : Wish}
    (hwish : wish = .completion ∨ wish = .imported) :
    (m.serveInstantiated j wish).2 = .ok (.completion completion) ∨
      (m.serveInstantiated j wish).2 = (m.evaluateJob j).1.importedNamespace j := by
  unfold serveInstantiated
  rcases hwish with rfl | rfl
  · dsimp only
    rw [h]
    exact .inl rfl
  · dsimp only
    rw [h]
    exact .inr rfl

theorem serveInstantiated_error_iff {unit : UnitId} {wish : Wish}
    (hprepared : m.loader.prepared? j = some (.ok unit))
    (hwish : wish = .completion ∨ wish = .imported) :
    (∃ url, (m.serveInstantiated j wish).2 = .error (.evaluate url .uninstantiated)) ↔
      ∃ url, (m.host.store.evaluate unit).2 = .error (.evaluate url .uninstantiated) := by
  have hevaluate : (m.evaluateJob j).2 = (m.host.store.evaluate unit).2 := by
    unfold evaluateJob
    rw [hprepared]
  have hafter : (m.evaluateJob j).1.loader.prepared? j = some (.ok unit) := by
    rw [loader_evaluateJob]
    exact hprepared
  cases hresult : (m.host.store.evaluate unit).2 with
  | error e =>
    rw [serveInstantiated_of_error (hevaluate.trans hresult) hwish]
    simp only [Except.error.injEq]
  | ok completion =>
    constructor
    · rintro ⟨url, h⟩
      rcases serveInstantiated_of_ok (hevaluate.trans hresult) hwish with hok | himported
      · rw [hok] at h
        cases h
      · rw [himported] at h
        cases importedNamespace_error hafter h
    · rintro ⟨url, h⟩
      cases h

/-- Running a job, or importing it, fails for want of an instantiation exactly if its unit was not
entered. -/
theorem Regular.uninstantiated_iff (hm : m.Regular) {wish : Wish}
    (hj : m.loader.instantiated? j = some (.ok ()))
    (hwish : wish = .completion ∨ wish = .imported) :
    (∃ url, (m.serveInstantiated j wish).2 = .error (.evaluate url .uninstantiated)) ↔
      ¬ m.Entered j := by
  obtain ⟨c, hc, -, hin⟩ := hm.exists_component hj
  obtain ⟨_, -, hmade⟩ := hm.grouped.made_of_mem hc
  obtain ⟨dependencies, hlinked, -⟩ := hmade.closed j hin
  obtain ⟨unit, hunit⟩ := hm.exists_unit hlinked
  rw [serveInstantiated_error_iff (Loader.unitOf_iff.mp hunit) hwish, not_entered_iff hunit]
  obtain ⟨_, hbuilt⟩ := hunit
  exact Store.uninstantiated_evaluate_iff hm.wired.wired.safe (hm.wired.wired.unit hbuilt).there

/--
Whatever a loader of scripts has done over any files and libraries:

* A job that answers that it is instantiated belongs to a component that went well.
* The members of such a component are all entered exactly if those of them that have failed depend
  on entered ones only.
* A member that is said to be instantiated can be run or imported exactly if it is entered; if not,
  the answer is that it has not been instantiated.
* The call that makes a component enters the members that the root leads to over jobs that were not
  entered, and no others.
-/
theorem entered_members (files : Files) (registry : Registry) (tables : Tables)
    (functions : HostFunctions) (settings : Settings) (actions : List Action) :
    let m := (ofSettings (.ofLibraries files registry tables functions) settings).acts actions
    (∀ j, m.loader.instantiated? j = some (.ok ()) →
      ∃ c ∈ m.loader.components, c.outcome = .ok () ∧ j ∈ c.members) ∧
    (∀ c ∈ m.loader.components, c.outcome = .ok () →
      ((∀ j ∈ c.members, m.Entered j) ↔
        ∀ j ∈ c.members, m.Errored j → ∀ k, m.loader.Edge j k → m.Entered k)) ∧
    (∀ j wish, m.loader.instantiated? j = some (.ok ()) → wish = .completion ∨ wish = .imported →
      ((∃ url, (m.serveInstantiated j wish).2 = .error (.evaluate url .uninstantiated)) ↔
        ¬ m.Entered j)) ∧
    ∀ action m' c, m.step? action = some m' →
      m'.loader.components = m.loader.components.push c → c.outcome = .ok () →
      ∀ j ∈ c.members, m'.Entered j ↔ m.Entered j ∨ m.Leads c.root j := by
  intro m
  have hm : m.Regular := regular_acts files registry tables functions settings actions
  refine ⟨fun j => hm.exists_component, fun c hc => hm.entered_members_iff hc,
    fun j wish hj hwish => hm.uninstantiated_iff hj hwish,
    fun action m' c hstep hmade hok j hj => ?_⟩
  exact hm.entered_after_call_iff (.of_step? hstep) hmade hok hj

/-! ### A component with a member that nobody has entered -/

/-- A module that imports one that imports it back, one that fails, and one behind the failure. -/
def shadowedMember : Machine :=
  ofSettings (.ofScripts [("/a", "import './b'; import './c'; import './d';"),
    ("/b", "import './a';"), ("/c", "import { nope } from './b';"), ("/d", "")]) .atRoot

/-- The whole is instantiated and fails, then the one that is imported back and the last one. -/
def shadowedRun : List Action :=
  shadowedMember.answering 200 [.find "./a" none .instantiated, .find "./b" none .instantiated,
    .find "./d" none .instantiated]

theorem not_entered_of_any {id : JobId}
    (h : ((m.loader.prepared? id).any fun prepared =>
      prepared.toOption.any fun unit => !(m.host.store.status unit).isEntered) = true) :
    ¬ m.Entered id := by
  rintro ⟨unit, hprepared, hentered⟩
  rw [hprepared] at h
  simp only [Option.any_some, Except.toOption, hentered] at h
  cases h

/-- The last one is said to be instantiated, and then says itself that it is not. -/
theorem shadowed_not_entered :
    (shadowedMember.acts shadowedRun).loader.instantiated? ⟨3⟩ = some (.ok ()) ∧
      ¬ (shadowedMember.acts shadowedRun).Entered ⟨3⟩ ∧
      ∀ wish, wish = .completion ∨ wish = .imported →
        ∃ url, ((shadowedMember.acts shadowedRun).serveInstantiated ⟨3⟩ wish).2 =
          .error (.evaluate url .uninstantiated) := by
  have hok : (shadowedMember.acts shadowedRun).loader.instantiated? ⟨3⟩ = some (.ok ()) :=
    ok_of_any (by decide +kernel)
  have hfresh : ¬ (shadowedMember.acts shadowedRun).Entered ⟨3⟩ :=
    not_entered_of_any (by decide +kernel)
  have hregular : (shadowedMember.acts shadowedRun).Regular := regular_acts _ _ _ _ _ _
  exact ⟨hok, hfresh, fun wish hwish => (hregular.uninstantiated_iff hok hwish).mpr hfresh⟩

end Machine

end ModuleLoader
