import ModuleLoader.Proofs.Causes
import ModuleLoader.Proofs.Deeds
/-!
# Links that are complete

A loader instantiates the unit of a job after it has walked over everything that the job reaches, and
it walks on from a job only when the link phase of that job has ended. By then the unit has recorded
what the job has found, so the instantiation goes over the same edges as the walk did and finds all
of them.

Results:
1. `Regular.complete`, `Regular.mirrors`: a job that is linked has a unit with the same edges.
2. `unbroken_acts`: no unit ever fails because of a link that is missing.
3. `instantiation_linked`: what holds whenever a loader instantiates a unit.
-/
namespace ModuleLoader

namespace Store

variable {s s' : Store} {x unit : UnitId}

/-! ## Deeds that instantiate nothing -/

theorem Unbroken.of_status (h : s.Unbroken)
    (hstatus : ∀ x e, s'.status x = .errored e → s.status x = .errored e) : s'.Unbroken :=
  fun x e hx => h x e (hstatus x e hx)

/-- A new unit has not failed. -/
theorem Unbroken.adds (h : s.Unbroken) (hadds : s.Adds s' unit) : s'.Unbroken := by
  refine h.of_status fun x e hx => ?_
  by_cases hne : unit = x
  · subst hne
    have hfresh := hadds.fresh
    rw [hx] at hfresh
    cases hfresh
  · rw [← status_of_unit?_eq (hadds.others x hne)]
    exact hx

end Store

namespace Machine

variable {m m' : Machine} {action : Action} {j k : JobId} {x y unit : UnitId} {jobs : List JobId}

/-! ## Jobs that are linked -/

namespace Regular

theorem mirrors (hm : m.Regular) (hlinked : m.loader.linked? j = some (.ok jobs))
    (hj : m.loader.UnitOf j x) : m.loader.Mirrors m.host.store x jobs :=
  (hm.wired.wired.unit (hj.linked hlinked)).mirrors jobs rfl

/-- The unit of a job that is linked has all its dependencies. -/
theorem complete (hm : m.Regular) (hlinked : m.loader.linked? j = some (.ok jobs))
    (hj : m.loader.UnitOf j x) : m.host.store.Complete x := by
  obtain ⟨specifiers, hspecifies, hall, -⟩ := hm.mirrors hlinked hj
  intro u hu specifier hin
  have hsame : u.program.specifiers = specifiers := (Store.specifiers_of_unit? hu hspecifies).symm
  obtain ⟨k, -, y, ⟨_, hy⟩, url, program, dependencies, hshape, hlookup⟩ :=
    exists_of_forall₂ hall (hsame ▸ hin)
  unfold Store.shape? at hshape
  rw [hu] at hshape
  cases hshape
  exact ⟨y, hlookup, (hm.wired.wired.unit hy).there⟩

theorem not_unlinked (hm : m.Regular) (hlinked : m.loader.linked? j = some (.ok jobs))
    (hj : m.loader.UnitOf j x) : m.host.store.status x ≠ .unlinked :=
  ((hm.wired.wired.unit (hj.linked hlinked)).done jobs rfl).1

theorem exists_job (hm : m.Regular) (hlinked : m.loader.linked? j = some (.ok jobs))
    (hj : m.loader.UnitOf j x) (hd : m.host.store.DependsOn x y) :
    ∃ k ∈ jobs, m.loader.UnitOf k y :=
  ((hm.wired.wired.unit (hj.linked hlinked)).done jobs rfl).2.2 y hd

/-- The unit of a job was entered only after the job was linked. -/
theorem linked_of_entered (hm : m.Regular) (hj : m.loader.UnitOf j x)
    (hentered : (m.host.store.status x).isEntered = true) :
    ∃ jobs, m.loader.linked? j = some (.ok jobs) := by
  obtain ⟨linking, hbuilt⟩ := hj
  obtain ⟨jobs, rfl⟩ := (hm.wired.wired.unit hbuilt).entered hentered
  obtain ⟨job, hjob, -, hlinking⟩ := Loader.exists_job_of_built? hbuilt
  exact ⟨jobs, Loader.linked?_eq_some.mpr ⟨job, hjob, hlinking⟩⟩

/-- An instantiation for some members finds all links. -/
theorem linked_of_instantiate (hm : m.Regular) (hunbroken : m.host.store.Unbroken)
    {members : List JobId} (hclosed : m.loader.Closed members) (hin : j ∈ members)
    (hj : m.loader.UnitOf j x) : (m.host.store.instantiate x).1.Unbroken ∧
      ∀ e, (m.host.store.instantiate x).2 = .error e → e.isLinking = false := by
  refine Store.linked_of_instantiate (fun y => ∃ k ∈ members, m.loader.UnitOf k y)
    hm.wired.wired.safe.plain.noManifests hunbroken ?_ ?_ ?_ ⟨j, hin, hj⟩
  · rintro y ⟨k, hk, hy⟩
    obtain ⟨jobs, hlinked, -⟩ := hclosed k hk
    exact hm.complete hlinked hy
  · rintro y ⟨k, hk, hy⟩
    obtain ⟨jobs, hlinked, -⟩ := hclosed k hk
    exact hm.not_unlinked hlinked hy
  · rintro y z ⟨k, hk, hy⟩ hd
    obtain ⟨jobs, hlinked, hall⟩ := hclosed k hk
    obtain ⟨i, hi, hz⟩ := hm.exists_job hlinked hy hd
    exact ⟨i, hall i hi, hz⟩

/-- So does an evaluation of the unit of a job. -/
theorem unbroken_evaluate (hm : m.Regular) (hunbroken : m.host.store.Unbroken)
    (hj : m.loader.UnitOf j x) : (m.host.store.evaluate x).1.Unbroken := by
  refine Store.linked_of_evaluate (fun y => ∃ k, m.loader.UnitOf k y)
    hm.wired.wired.safe.plain.noManifests hunbroken ?_ ?_ ⟨j, hj⟩
  · rintro y ⟨k, hy⟩ hstatus
    obtain ⟨jobs, hlinked⟩ := hm.linked_of_entered hy (by rw [hstatus]; rfl)
    exact hm.complete hlinked hy
  · rintro y z ⟨k, hy⟩ hstatus hd
    obtain ⟨jobs, hlinked⟩ := hm.linked_of_entered hy (by rw [hstatus]; rfl)
    obtain ⟨i, -, hz⟩ := hm.exists_job hlinked hy hd
    exact ⟨i, hz⟩

theorem unbroken_enact (hm : m.Regular) {deed : Store.Deed} (hdeed : m.Does deed)
    (hunbroken : m.host.store.Unbroken) : (m.host.store.enact deed).Unbroken := by
  cases hdeed with
  | prepare hdeed =>
    cases hdeed with
    | script url source =>
      dsimp only [Store.enact]
      split
      next cells u hu =>
        refine hunbroken.adds (Store.adds_add _ cells trivial ?_ fun v hv => ?_)
        · show u.status.isEntered = false
          rw [(Host.fresh_compile hu).1]
          rfl
        · cases hv
          exact Host.fresh_compile hu
      next => exact hunbroken
    | bridge =>
      exact hunbroken.adds (Store.adds_add _ _ (fun h => by cases h) rfl fun v hv => by cases hv)
    | @link _ x _ =>
      dsimp only [Store.enact]
      split
      next u hu =>
        split
        next =>
          unfold Store.beginLink
          rw [hu]
          exact hunbroken.keeps (Phase.keeps_setStatus _ x (fun _ _ => rfl) fun e he => by cases he)
        next => exact hunbroken
      next => exact hunbroken
    | wire specifier hx hy =>
      dsimp only [Store.enact]
      split
      next =>
        split
        next => exact hunbroken.of_status fun z e hz => (Store.status_wire _ _ _ _ z).symm.trans hz
        next => exact hunbroken
      next => exact hunbroken
  | instantiate hx hin hclosed => exact (hm.linked_of_instantiate hunbroken hclosed hin hx).1
  | evaluate hx _ => exact hm.unbroken_evaluate hunbroken hx

end Regular

theorem unbroken_acts (files : Files) (registry : Registry) (tables : Tables)
    (functions : HostFunctions) (settings : Settings) (actions : List Action) :
    ((ofSettings (.ofLibraries files registry tables functions) settings).acts
      actions).host.store.Unbroken :=
  store_induction files registry tables functions settings (fun x e hx => by cases hx)
    (fun hm hdeed h => hm.unbroken_enact hdeed h) actions

/-! ## Instantiations -/

/--
Whenever a loader of scripts instantiates a unit, that is, makes a component, whatever it has done
before:

* It is the unit of the root, it is called once for this component, and the component keeps what
  comes of it. No unit is called for two components.
* Every job that the root reaches has ended its link phase well. Its unit has recorded the units of
  the jobs that were found, one for each specifier in the order of first occurrence, and nothing
  else.
* The instantiation does not fail for want of a link.
-/
theorem instantiation_linked (files : Files) (registry : Registry) (tables : Tables)
    (functions : HostFunctions) (settings : Settings) (actions : List Action) (action : Action)
    (m' : Machine) (c : Component) :
    let m := (ofSettings (.ofLibraries files registry tables functions) settings).acts actions
    m.step? action = some m' → m'.loader.components = m.loader.components.push c →
      (∃ unit, m.loader.UnitOf c.root unit ∧
        (m'.host.store, c.outcome) = m.host.store.instantiate unit ∧
        ∀ other ∈ m.loader.components, ¬ m.loader.UnitOf other.root unit) ∧
      (∀ j, m.loader.Reaches c.root j → ∃ jobs unit, m.loader.linked? j = some (.ok jobs) ∧
        m.loader.UnitOf j unit ∧ m.loader.Mirrors m.host.store unit jobs) ∧
      ∀ e, c.outcome = .error e → e.isLinking = false := by
  intro m hstep hmade
  have hm : m.Regular := regular_acts files registry tables functions settings actions
  have hunbroken : m.host.store.Unbroken :=
    unbroken_acts files registry tables functions settings actions
  obtain ⟨job, walk, unit, hjob, hwalking, hstack, hnone, hprep, hm', hc⟩ :=
    Regular.component_of_step (.of_step? hstep) hmade
  obtain ⟨hroot, hclosed⟩ := (hm.grouped.walking _ _ _ hjob hwalking).members_closed hstack
  have hunit : m.loader.UnitOf c.root unit := ⟨_, Loader.built?_of_job? hjob hprep⟩
  have houtcome : c.outcome = (m.host.store.instantiate unit).2 := by rw [hc]
  refine ⟨⟨unit, hunit, ?_, fun other hother h => ?_⟩, fun j hj => ?_, fun e he => ?_⟩
  · rw [hm', store_instantiateMembers, houtcome]
  · -- the root of a component has joined it, and this one has not joined any
    rw [hm.wired.wired.apart hunit h] at hnone
    obtain ⟨i, -, hown⟩ := hm.grouped.made_of_mem hother
    cases hnone.symm.trans hown.own.component?
  · obtain ⟨jobs, hlinked, -⟩ := hclosed j (hclosed.reaches hj hroot)
    obtain ⟨y, hy⟩ := hm.exists_unit hlinked
    exact ⟨jobs, y, hlinked, hy, hm.mirrors hlinked hy⟩
  · exact (hm.linked_of_instantiate hunbroken hclosed hroot hunit).2 e (houtcome ▸ he)

/-- The graph with a cycle and a failure, at the step that instantiates the whole of it: all that was
walked over is linked, and the failure is not for want of a link. -/
theorem instantiation_linked_shadowed :
    let m := shadowedMember.acts (shadowedRun.take 63)
    ∃ m' c, m.step? (.instantiate ⟨0⟩) = some m' ∧
      m'.loader.components = m.loader.components.push c ∧
      (∃ unit, m.loader.UnitOf c.root unit ∧
        (m'.host.store, c.outcome) = m.host.store.instantiate unit ∧
        ∀ other ∈ m.loader.components, ¬ m.loader.UnitOf other.root unit) ∧
      (∀ j, m.loader.Reaches c.root j → ∃ jobs unit, m.loader.linked? j = some (.ok jobs) ∧
        m.loader.UnitOf j unit ∧ m.loader.Mirrors m.host.store unit jobs) ∧
      ∀ e, c.outcome = .error e → e.isLinking = false := by
  intro m
  have hmore : ((m.step? (.instantiate ⟨0⟩)).any fun after =>
      m.loader.components.size < after.loader.components.size) = true := by decide +kernel
  cases hstep : m.step? (.instantiate ⟨0⟩) with
  | none => rw [hstep] at hmore; cases hmore
  | some m' =>
    rw [hstep] at hmore
    obtain ⟨c, hc⟩ := Regular.exists_push (.of_step? hstep) (of_decide_eq_true hmore)
    exact ⟨m', c, rfl, hc, instantiation_linked _ _ _ _ _ _ _ m' c hstep hc⟩

end Machine

end ModuleLoader
