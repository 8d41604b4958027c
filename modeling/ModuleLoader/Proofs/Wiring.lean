import ModuleLoader.Proofs.Components
import ModuleLoader.Proofs.UnitSteps
/-!
# Units that are wired like their jobs

A link phase asks for the specifiers of a unit and wires the unit to those that it finds. When it
has ended, the unit depends on exactly the units of the jobs that it has found, so an instantiation
that goes over units stays among the members of its component.

Results:
1. `WiredUnit`: what holds of the unit of a job at each point of its link phase.
2. `Wired`: what holds of all jobs and their units.
3. `Wired.instantiate`, `Wired.evaluate`: calls on units keep it.
4. `Rule.wired`: every step keeps it.
-/
namespace ModuleLoader

/-! ## Jobs and their units -/

/-- The unit of a job and how far its link phase is, once the unit is there. -/
def Job.built? (job : Job) : Option (UnitId × Linking) :=
  match job.preparation with
  | .done (.ok unit) => some (unit, job.linking)
  | _ => none

theorem map_specifier_modify (dependencies : List Dependency) (index : Nat) (wiring : Wiring) :
    (dependencies.modify index fun d => { d with wiring }).map Dependency.specifier =
      dependencies.map Dependency.specifier := by
  refine List.ext_getElem? fun k => ?_
  rw [List.getElem?_map, List.getElem?_map, List.getElem?_modify]
  split
  next => cases dependencies[k]? <;> rfl
  next => cases dependencies[k]? <;> rfl

namespace Loader

def built? (l : Loader) (id : JobId) : Option (UnitId × Linking) := (l.job? id).bind Job.built?

/-- The unit of a job. -/
def UnitOf (l : Loader) (id : JobId) (unit : UnitId) : Prop :=
  ∃ linking, l.built? id = some (unit, linking)

/-- The unit has recorded the units of some jobs, one for each of its specifiers in turn, and nothing
else. -/
def Mirrors (l : Loader) (s : Store) (unit : UnitId) (jobs : List JobId) : Prop :=
  ∃ specifiers, s.Specifies unit specifiers ∧
    List.Forall₂ (fun specifier k => ∃ y, l.UnitOf k y ∧ s.Imports unit specifier y)
      specifiers jobs ∧
    ∀ specifier y, s.Imports unit specifier y → specifier ∈ specifiers

/-- What holds of the unit of a job at each point of its link phase. -/
structure WiredUnit (l : Loader) (s : Store) (unit : UnitId) (linking : Linking) : Prop where
  there : (s.unit? unit).isSome = true
  bare : linking = .waiting → s.Bare unit
  begun : ∀ dependencies, linking = .wiring dependencies → s.status unit ≠ .unlinked ∧
    s.Specifies unit (dependencies.map Dependency.specifier) ∧
    ∀ d ∈ dependencies, ∀ k, d.wiring = .wired k → ∃ y, l.UnitOf k y ∧ s.Imports unit d.specifier y
  /-- Nothing else is recorded than what is wired. -/
  recorded : ∀ dependencies, linking = .wiring dependencies → ∀ specifier y,
    s.Imports unit specifier y → ∃ d ∈ dependencies, d.specifier = specifier ∧
      ∃ k, d.wiring = .wired k
  mirrors : ∀ jobs, linking = .done (.ok jobs) → l.Mirrors s unit jobs
  /-- A unit that is linked depends on the units of the jobs that were found for it. -/
  done : ∀ jobs, linking = .done (.ok jobs) → s.status unit ≠ .unlinked ∧
    (∀ k ∈ jobs, ∃ y, l.UnitOf k y ∧ s.DependsOn unit y) ∧
    ∀ y, s.DependsOn unit y → ∃ k ∈ jobs, l.UnitOf k y
  entered : (s.status unit).isEntered = true → ∃ jobs, linking = .done (.ok jobs)

/-- What holds of all jobs and their units while no call is at work. -/
structure Wired (l : Loader) (s : Store) : Prop where
  safe : s.Safe
  unit : ∀ {id unit linking}, l.built? id = some (unit, linking) → l.WiredUnit s unit linking
  /-- No two jobs have the same unit. -/
  apart : ∀ {i k unit}, l.UnitOf i unit → l.UnitOf k unit → i = k
  roots : ∀ c ∈ l.components, c.outcome = .ok () →
    ∃ unit, l.UnitOf c.root unit ∧ (s.status unit).isEntered = true

variable {l l' : Loader} {s s' : Store} {id : JobId} {unit : UnitId} {linking : Linking}

theorem Mirrors.mono {jobs : List JobId} (h : l.Mirrors s unit jobs)
    (hunits : ∀ {k y}, l.UnitOf k y → l'.UnitOf k y) (hshape : s'.shape? unit = s.shape? unit) :
    l'.Mirrors s' unit jobs := by
  have himports : ∀ {specifier y}, s'.Imports unit specifier y ↔ s.Imports unit specifier y := by
    intro specifier y
    unfold Store.Imports
    rw [hshape]
  obtain ⟨specifiers, hspecifies, hall, honly⟩ := h
  refine ⟨specifiers, ?_, hall.imp ?_, fun specifier y hy => honly specifier y (himports.mp hy)⟩
  · unfold Store.Specifies
    rw [hshape]
    exact hspecifies
  · rintro specifier k ⟨y, hy, hrecorded⟩
    exact ⟨y, hunits hy, himports.mpr hrecorded⟩

theorem WiredUnit.mono (h : l.WiredUnit s unit linking)
    (hunits : ∀ {k y}, l.UnitOf k y → l'.UnitOf k y) (hshape : s'.shape? unit = s.shape? unit)
    (hunlinked : s'.status unit = .unlinked ↔ s.status unit = .unlinked)
    (hentered : (s'.status unit).isEntered = true →
      (s.status unit).isEntered = true ∨ ∃ jobs, linking = .done (.ok jobs)) :
    l'.WiredUnit s' unit linking where
  there := by
    rw [← Store.isSome_shape?, hshape, Store.isSome_shape?]
    exact h.there
  bare hlinking := by
    obtain ⟨hbare, hnone⟩ := h.bare hlinking
    refine ⟨hbare.imp hunlinked.mpr fun h => hshape ▸ h, fun specifier y hy => hnone specifier y ?_⟩
    unfold Store.Imports at hy ⊢
    rwa [hshape] at hy
  recorded dependencies hlinking specifier y hy := by
    refine h.recorded dependencies hlinking specifier y ?_
    unfold Store.Imports at hy ⊢
    rwa [hshape] at hy
  mirrors jobs hlinking := (h.mirrors jobs hlinking).mono hunits hshape
  begun dependencies hlinking := by
    obtain ⟨hstatus, hspecifies, hwired⟩ := h.begun dependencies hlinking
    refine ⟨fun hs => hstatus (hunlinked.mp hs), ?_, fun d hd k hk => ?_⟩
    · unfold Store.Specifies
      rw [hshape]
      exact hspecifies
    · obtain ⟨y, hy, himports⟩ := hwired d hd k hk
      refine ⟨y, hunits hy, ?_⟩
      unfold Store.Imports
      rw [hshape]
      exact himports
  done jobs hlinking := by
    obtain ⟨hstatus, hjobs, hdepends⟩ := h.done jobs hlinking
    refine ⟨fun hs => hstatus (hunlinked.mp hs), fun k hk => ?_, fun y hy => ?_⟩
    · obtain ⟨y, hy, hd⟩ := hjobs k hk
      exact ⟨y, hunits hy, (Store.dependsOn_of_shape hshape).mpr hd⟩
    · obtain ⟨k, hk, hunit⟩ := hdepends y ((Store.dependsOn_of_shape hshape).mp hy)
      exact ⟨k, hk, hunits hunit⟩
  entered hs := by
    rcases hentered hs with hold | hdone
    · exact h.entered hold
    · exact hdone

/-- A unit that did not change itself stays wired. -/
theorem WiredUnit.of_unit? (h : l.WiredUnit s unit linking)
    (hunits : ∀ {k y}, l.UnitOf k y → l'.UnitOf k y) (hunit : s'.unit? unit = s.unit? unit) :
    l'.WiredUnit s' unit linking := by
  have hstatus := Store.status_of_unit?_eq hunit
  exact h.mono hunits (Store.shape?_of_unit? hunit) (by rw [hstatus])
    fun hs => .inl (hstatus ▸ hs)

/-! ### Steps by what they change -/

theorem Wired.of_built (hw : l.Wired s) (hbuilt : ∀ i, l'.built? i = l.built? i)
    (hcomponents : l'.components = l.components) : l'.Wired s := by
  have hunits : ∀ {k y}, l'.UnitOf k y ↔ l.UnitOf k y := by
    intro k y
    unfold UnitOf
    rw [hbuilt]
  refine ⟨hw.safe, fun {i unit linking} hi => ?_,
    fun hi hk => hw.apart (hunits.mp hi) (hunits.mp hk), fun c hc hok => ?_⟩
  · exact (hw.unit ((hbuilt i).symm.trans hi)).of_unit? hunits.mpr rfl
  · obtain ⟨unit, hunit, hentered⟩ := hw.roots c (hcomponents ▸ hc) hok
    exact ⟨unit, hunits.mpr hunit, hentered⟩

/-- A job gets a unit that was made for it. -/
theorem Wired.add (hw : l.Wired s) (id : JobId) (linking : Linking) (hadds : s.Adds s' unit)
    (hnone : l.built? id = none) (hself : l'.built? id = some (unit, linking))
    (hwiring : ∀ dependencies, linking ≠ .wiring dependencies)
    (hdone : ∀ jobs, linking ≠ .done (.ok jobs)) (hothers : ∀ i, id ≠ i → l'.built? i = l.built? i)
    (hcomponents : l'.components = l.components) : l'.Wired s' := by
  -- a job that has a unit already is another one, and so is its unit
  have hne : ∀ {i y}, l.UnitOf i y → id ≠ i ∧ unit ≠ y := by
    rintro i y ⟨linking, hi⟩
    refine ⟨?_, ?_⟩
    · rintro rfl
      rw [hnone] at hi
      cases hi
    · rintro rfl
      have hthere := (hw.unit hi).there
      rw [hadds.before] at hthere
      cases hthere
  have hunits : ∀ {k y}, l.UnitOf k y → l'.UnitOf k y := by
    intro k y hk
    have hkne := (hne hk).1
    obtain ⟨linking, hk⟩ := hk
    exact ⟨linking, (hothers k hkne).trans hk⟩
  have hcases : ∀ {i y}, l'.UnitOf i y → i = id ∧ y = unit ∨ l.UnitOf i y := by
    rintro i y ⟨linking, hi⟩
    by_cases hid : id = i
    · subst hid
      cases hself.symm.trans hi
      exact .inl ⟨rfl, rfl⟩
    · exact .inr ⟨linking, (hothers i hid).symm.trans hi⟩
  refine ⟨hadds.safe hw.safe, fun {i y linking} hi => ?_, fun {i k y} hi hk => ?_,
    fun c hc hok => ?_⟩
  · by_cases hid : id = i
    · subst hid
      cases hself.symm.trans hi
      refine ⟨hadds.there, fun _ => hadds.bare, fun _ h => absurd h (hwiring _),
        fun _ h => absurd h (hwiring _), fun _ h => absurd h (hdone _),
        fun _ h => absurd h (hdone _), ?_⟩
      intro h
      rw [hadds.fresh] at h
      cases h
    · rw [hothers i hid] at hi
      exact (hw.unit hi).of_unit? hunits (hadds.others y (hne ⟨linking, hi⟩).2)
  · rcases hcases hi with ⟨rfl, rfl⟩ | hi'
    · rcases hcases hk with ⟨rfl, -⟩ | hk'
      · rfl
      · exact absurd rfl (hne hk').2
    · rcases hcases hk with ⟨-, rfl⟩ | hk'
      · exact absurd rfl (hne hi').2
      · exact hw.apart hi' hk'
  · obtain ⟨y, hy, hentered⟩ := hw.roots c (hcomponents ▸ hc) hok
    refine ⟨y, hunits hy, ?_⟩
    rw [Store.status_of_unit?_eq (hadds.others y (hne hy).2)]
    exact hentered

/-- A link phase gets further, and changes no other unit than that of its job. -/
theorem Wired.link (hw : l.Wired s) (linking' : Linking) (hsafe : s'.Safe)
    (hbefore : l.built? id = some (unit, linking)) (hself : l'.built? id = some (unit, linking'))
    (hothers : ∀ i, id ≠ i → l'.built? i = l.built? i)
    (hcomponents : l'.components = l.components)
    (hunit : ∀ x, unit ≠ x → s'.unit? x = s.unit? x)
    (hstatus : (s.status unit).isEntered = true → (s'.status unit).isEntered = true)
    (hwired : (∀ {k y}, l.UnitOf k y → l'.UnitOf k y) → l'.WiredUnit s' unit linking') :
    l'.Wired s' := by
  have hunits : ∀ {k y}, l'.UnitOf k y ↔ l.UnitOf k y := by
    intro k y
    by_cases hid : id = k
    · subst hid
      unfold UnitOf
      rw [hself, hbefore]
      constructor
      · rintro ⟨_, h⟩
        cases h
        exact ⟨_, rfl⟩
      · rintro ⟨_, h⟩
        cases h
        exact ⟨_, rfl⟩
    · unfold UnitOf
      rw [hothers k hid]
  refine ⟨hsafe, fun {i y p} hi => ?_, fun hi hk => hw.apart (hunits.mp hi) (hunits.mp hk),
    fun c hc hok => ?_⟩
  · by_cases hid : id = i
    · subst hid
      cases hself.symm.trans hi
      exact hwired hunits.mpr
    · rw [hothers i hid] at hi
      refine (hw.unit hi).of_unit? hunits.mpr (hunit y ?_)
      rintro rfl
      exact hid (hw.apart ⟨_, hbefore⟩ ⟨_, hi⟩)
  · obtain ⟨y, hy, hentered⟩ := hw.roots c (hcomponents ▸ hc) hok
    refine ⟨y, hunits.mpr hy, ?_⟩
    by_cases hne : unit = y
    · subst hne
      exact hstatus hentered
    · rw [Store.status_of_unit?_eq (hunit y hne)]
      exact hentered

/-! ### Link phases -/

/-- A dependency that is not wired yet gets further. -/
theorem WiredUnit.rewire {dependencies : List Dependency}
    (h : l.WiredUnit s unit (.wiring dependencies)) (hunits : ∀ {k y}, l.UnitOf k y → l'.UnitOf k y)
    (index : Nat) {wiring : Wiring} (hwiring : ∀ k, wiring ≠ .wired k)
    (hopen : ∀ d, dependencies[index]? = some d → ∀ k, d.wiring ≠ .wired k) :
    l'.WiredUnit s unit (.wiring (dependencies.modify index fun d => { d with wiring })) where
  there := h.there
  bare hwaiting := by cases hwaiting
  recorded others hothers specifier y hy := by
    cases hothers
    obtain ⟨d, hd, hspecifier, k, hk⟩ := h.recorded dependencies rfl specifier y hy
    obtain ⟨i, hi⟩ := List.mem_iff_getElem?.mp hd
    refine ⟨d, mem_modify_of_ne hi ?_, hspecifier, k, hk⟩
    rintro rfl
    exact hopen d hi k hk
  mirrors _ hdone := by cases hdone
  begun others hothers := by
    cases hothers
    obtain ⟨hstatus, hspecifies, hwired⟩ := h.begun dependencies rfl
    refine ⟨hstatus, map_specifier_modify dependencies index wiring ▸ hspecifies,
      fun d hd k hk => ?_⟩
    rcases mem_modify hd with ⟨i, -, hi⟩ | ⟨b, -, rfl⟩
    · obtain ⟨y, hy, himports⟩ := hwired d (List.mem_of_getElem? hi) k hk
      exact ⟨y, hunits hy, himports⟩
    · exact absurd hk (hwiring k)
  done _ hdone := by cases hdone
  entered hs := by
    obtain ⟨jobs, hjobs⟩ := h.entered hs
    cases hjobs

/-- Nobody has entered the unit of a link phase that has not ended. -/
theorem WiredUnit.not_entered (h : l.WiredUnit s unit linking)
    (hopen : ∀ jobs, linking ≠ .done (.ok jobs)) : (s.status unit).isEntered = false := by
  by_contra hentered
  obtain ⟨jobs, hjobs⟩ := h.entered (Bool.of_not_eq_false hentered)
  exact hopen jobs hjobs

/-- The unit of a job is asked for its specifiers. -/
theorem WiredUnit.asked {specifiers : List String} (h : s.Begins unit specifiers s')
    (hbare : s.Bare unit) :
    l.WiredUnit s' unit (.wiring (specifiers.map fun specifier => { specifier })) where
  there := h.there
  bare hwaiting := by cases hwaiting
  recorded _ _ specifier y hy := by
    unfold Store.Imports at hy
    rw [h.shape unit] at hy
    exact absurd hy (hbare.unrecorded specifier y)
  mirrors _ hdone := by cases hdone
  begun others hothers := by
    cases hothers
    refine ⟨fun hunlinked => ?_, ?_, fun d hd k hk => ?_⟩
    · rw [h.linked] at hunlinked
      cases hunlinked
    · rw [List.map_map]
      exact (List.map_id' specifiers).symm ▸ h.specifies
    · obtain ⟨specifier, -, rfl⟩ := List.mem_map.mp hd
      cases hk
  done _ hdone := by cases hdone
  entered hs := by
    rw [h.linked] at hs
    cases hs

/-- A dependency gets its unit. -/
theorem WiredUnit.wire {dependencies : List Dependency} {index : Nat} {dependency : Dependency}
    {found : JobId} {other : UnitId} (hsafe : s.Safe)
    (h : l.WiredUnit s unit (.wiring dependencies)) (hunits : ∀ {k y}, l.UnitOf k y → l'.UnitOf k y)
    (hdep : dependencies[index]? = some dependency) (hfound : l.UnitOf found other)
    (hwires : s.Wires unit dependency.specifier other s') :
    l'.WiredUnit s' unit
      (.wiring (dependencies.modify index fun d => { d with wiring := .wired found })) := by
  obtain ⟨hstatus, hspecifies, hwired⟩ := h.begun dependencies rfl
  have hspecifies' := hwires.specifies _ hspecifies
  refine ⟨?_, fun hwaiting => ?_, fun others hothers => ?_,
    fun others hothers specifier y hy => ?_, fun _ hdone => ?_, fun _ hdone => ?_, fun hs => ?_⟩
  · obtain ⟨shape, hshape, -⟩ := Option.map_eq_some_iff.mp hspecifies'
    rw [← Store.isSome_shape?, hshape]
    rfl
  · cases hwaiting
  · cases hothers
    refine ⟨hwires.status ▸ hstatus, map_specifier_modify dependencies index _ ▸ hspecifies',
      fun d hd k hk => ?_⟩
    rcases mem_modify hd with ⟨i, hi, hget⟩ | ⟨b, hb, rfl⟩
    · obtain ⟨y, hy, himports⟩ := hwired d (List.mem_of_getElem? hget) k hk
      refine ⟨y, hunits hy, hwires.kept d.specifier y (fun heq => hi ?_) himports⟩
      -- a unit asks for a specifier once, so the specifier tells which dependency it is
      have hspecifier : (dependencies.map Dependency.specifier)[i]? =
          (dependencies.map Dependency.specifier)[index]? := by
        rw [List.getElem?_map, List.getElem?_map, hget, hdep, Option.map_some, Option.map_some, heq]
      have hlt := (List.getElem?_eq_some_iff.mp hget).1
      exact (List.getElem?_inj (by rw [List.length_map]; exact hlt)
        (hspecifies.nodup hsafe.plain)).mp hspecifier
    · cases hdep.symm.trans hb
      cases hk
      exact ⟨other, hunits hfound, hwires.imports⟩
  · cases hothers
    by_cases hsame : specifier = dependency.specifier
    · exact ⟨_, mem_modify_self hdep, hsame.symm, found, rfl⟩
    · obtain ⟨d, hd, hspecifier, k, hk⟩ := h.recorded dependencies rfl specifier y
        (hwires.only specifier y hy hsame)
      obtain ⟨i, hi⟩ := List.mem_iff_getElem?.mp hd
      refine ⟨d, mem_modify_of_ne hi ?_, hspecifier, k, hk⟩
      rintro rfl
      cases hdep.symm.trans hi
      exact hsame hspecifier.symm
  · cases hdone
  · cases hdone
  · rw [hwires.status, h.not_entered fun _ hlinking => by cases hlinking] at hs
    cases hs

/-- All dependencies are wired. -/
theorem WiredUnit.finish {dependencies : List Dependency} {jobs : List JobId}
    (h : l.WiredUnit s unit (.wiring dependencies)) (hunits : ∀ {k y}, l.UnitOf k y → l'.UnitOf k y)
    (hjobs : (dependencies.mapM fun dependency => dependency.wiring.wired?) = some jobs) :
    l'.WiredUnit s unit (.done (.ok jobs)) := by
  obtain ⟨hstatus, hspecifies, hwired⟩ := h.begun dependencies rfl
  have hmap := map_eq_of_mapM hjobs
  refine ⟨h.there, fun hwaiting => ?_, fun _ hwiring => ?_, fun _ hwiring => ?_,
    fun others hothers => ?_, fun others hothers => ?_, fun _ => ⟨jobs, rfl⟩⟩
  · cases hwaiting
  · cases hwiring
  · cases hwiring
  · cases hothers
    refine ⟨_, hspecifies, forall₂_of_map_eq hmap fun d hd k hk => ?_, fun specifier y hy => ?_⟩
    · obtain ⟨y, hy, himports⟩ := hwired d hd k (Wiring.wired?_eq_some.mp hk)
      exact ⟨y, hunits hy, himports⟩
    · obtain ⟨d, hd, rfl, -⟩ := h.recorded dependencies rfl specifier y hy
      exact List.mem_map_of_mem hd
  · cases hothers
    refine ⟨hstatus, fun k hk => ?_, fun y hy => ?_⟩
    · have hin : some k ∈ dependencies.map fun d => d.wiring.wired? :=
        hmap ▸ List.mem_map_of_mem hk
      obtain ⟨d, hd, hdk⟩ := List.mem_map.mp hin
      obtain ⟨y, hy, himports⟩ := hwired d hd k (Wiring.wired?_eq_some.mp hdk)
      exact ⟨y, hunits hy, (Store.dependsOn_iff_imports hspecifies).mpr
        ⟨d.specifier, List.mem_map_of_mem hd, himports⟩⟩
    · obtain ⟨specifier, hin, himports⟩ := (Store.dependsOn_iff_imports hspecifies).mp hy
      obtain ⟨d, hd, rfl⟩ := List.mem_map.mp hin
      have hdk : d.wiring.wired? ∈ jobs.map some :=
        hmap ▸ List.mem_map_of_mem (f := fun d : Dependency => d.wiring.wired?) hd
      obtain ⟨k, hk, hdk⟩ := List.mem_map.mp hdk
      obtain ⟨y', hy', himports'⟩ := hwired d hd k (Wiring.wired?_eq_some.mp hdk.symm)
      cases himports.unique himports'
      exact ⟨k, hk, hunits hy'⟩

theorem WiredUnit.fail (h : l.WiredUnit s unit linking) (hopen : ∀ jobs, linking ≠ .done (.ok jobs))
    (e : LoadError) : l'.WiredUnit s unit (.done (.error e)) where
  there := h.there
  bare hwaiting := by cases hwaiting
  recorded _ hwiring := by cases hwiring
  mirrors _ hdone := by cases hdone
  begun _ hwiring := by cases hwiring
  done _ hdone := by cases hdone
  entered hs := by
    obtain ⟨jobs, hjobs⟩ := h.entered hs
    exact absurd hjobs (hopen jobs)

/-! ### Calls on units -/

theorem UnitOf.linked {r : Except LoadError (List JobId)} (h : l.UnitOf id unit)
    (hlinked : l.linked? id = some r) : l.built? id = some (unit, .done r) := by
  obtain ⟨linking, hbuilt⟩ := h
  obtain ⟨job, hjob, hdone⟩ := linked?_eq_some.mp hlinked
  unfold built? at hbuilt ⊢
  rw [hjob, Option.bind_some] at hbuilt ⊢
  unfold Job.built? at hbuilt ⊢
  split at hbuilt
  next unit' hprep =>
    cases hbuilt
    rw [hdone]
  next => cases hbuilt

theorem exists_job_of_built? (h : l.built? id = some (unit, linking)) :
    ∃ job, l.job? id = some job ∧ job.preparation = .done (.ok unit) ∧ job.linking = linking := by
  obtain ⟨job, hjob, hbuilt⟩ := Option.bind_eq_some_iff.mp h
  unfold Job.built? at hbuilt
  split at hbuilt
  next hprep => cases hbuilt; exact ⟨job, hjob, hprep, rfl⟩
  next => cases hbuilt

theorem UnitOf.unique {y : UnitId} (h : l.UnitOf id unit) (h' : l.UnitOf id y) : unit = y := by
  obtain ⟨_, h⟩ := h
  obtain ⟨_, h'⟩ := h'
  cases h.symm.trans h'
  rfl

/-- What one member depends on are other members. -/
theorem Wired.member (hw : l.Wired s) {members : List JobId} (hclosed : l.Closed members)
    {k : JobId} (hin : k ∈ members) {x y : UnitId} (hk : l.UnitOf k x) (h : s.DependsOn x y) :
    ∃ j ∈ members, l.UnitOf j y := by
  obtain ⟨dependencies, hlinked, hall⟩ := hclosed k hin
  obtain ⟨j, hj, hunit⟩ := ((hw.unit (hk.linked hlinked)).done dependencies rfl).2.2 y h
  exact ⟨j, hall j hj, hunit⟩

theorem Wired.leads (hw : l.Wired s) {members : List JobId} (hclosed : l.Closed members)
    (hin : id ∈ members) {x y : UnitId} (hx : l.UnitOf id x) (h : s.Leads x y) :
    ∃ j ∈ members, l.UnitOf j y := by
  obtain ⟨-, hpath⟩ := h
  induction hpath with
  | refl => exact ⟨id, hin, hx⟩
  | tail _ hedge ih =>
    obtain ⟨k, hk, hunit⟩ := ih
    exact hw.member hclosed hk hunit hedge.1

/-- The unit of a root is instantiated for its members. -/
theorem Wired.instantiate (hw : l.Wired s) {members : List JobId} {r : Except LoadError Unit}
    (hclosed : l.Closed members) (hin : id ∈ members) (hroot : l.UnitOf id unit)
    (h : Store.Entering s (· = unit) s' r) (hbuilt : ∀ i, l'.built? i = l.built? i)
    (hcomponents : l'.components = l.components.push ⟨id, members, r⟩) : l'.Wired s' := by
  have hunits : ∀ {k y}, l'.UnitOf k y ↔ l.UnitOf k y := by
    intro k y
    unfold UnitOf
    rw [hbuilt]
  refine ⟨h.safe hw.safe, fun {i y linking} hi => ?_,
    fun hi hk => hw.apart (hunits.mp hi) (hunits.mp hk), fun c hc hok => ?_⟩
  · rw [hbuilt] at hi
    refine (hw.unit hi).mono hunits.mpr (h.shape y)
      ⟨h.unlinked, fun hs => (h.kept y (by rw [hs]; simp)).trans hs⟩ fun hs => ?_
    by_cases hlinked : s.status y = .linked
    · -- what the root leads to is the unit of a member, and members have ended their link phases
      obtain ⟨_, rfl, hleads⟩ := h.led y hlinked hs
      obtain ⟨k, hk, hunit⟩ := hw.leads hclosed hin hroot hleads
      obtain ⟨dependencies, hdone, -⟩ := hclosed k hk
      cases hw.apart hunit ⟨_, hi⟩
      cases (hunit.linked hdone).symm.trans hi
      exact .inr ⟨dependencies, rfl⟩
    · rw [h.kept y hlinked] at hs
      exact .inl hs
  · rw [hcomponents] at hc
    rcases Array.mem_push.mp hc with hold | rfl
    · obtain ⟨y, hy, hentered⟩ := hw.roots c hold hok
      exact ⟨y, hunits.mpr hy, h.entered hentered⟩
    · exact ⟨unit, hunits.mpr hroot, (h.fine hok).1 unit rfl⟩

theorem Wired.evaluate (hw : l.Wired s) (h : Store.Ran s s') (hsafe : s'.Safe) : l.Wired s' := by
  refine ⟨hsafe, fun {i y linking} hi => ?_, hw.apart, fun c hc hok => ?_⟩
  · refine (hw.unit hi).mono (fun h => h) (h.shape y) ?_ fun hs => .inl ?_
    · rcases h.status y with hsame | ⟨hbefore, ⟨v, hv⟩ | ⟨e, he⟩⟩
      · rw [hsame]
      · simp [hbefore, hv]
      · simp [hbefore, he]
    · rcases h.status y with hsame | ⟨hbefore, -⟩
      · exact hsame ▸ hs
      · rw [hbefore]; rfl
  · obtain ⟨y, hy, hentered⟩ := hw.roots c hc hok
    exact ⟨y, hy, h.entered hentered⟩

/-! ### Changes of one job -/

theorem built?_changeJob (l : Loader) (id i : JobId) (f : Job → Job) :
    (l.changeJob id f).built? i =
      if id = i then (l.job? i).bind fun job => (f job).built? else l.built? i := by
  unfold built?
  rw [job?_changeJob]
  split
  next => cases l.job? i <;> rfl
  next => rfl

/-- A change of a job that its unit and its link phase do not show. -/
theorem built?_changeJob_of_eq {job : Job} {f : Job → Job} (hjob : l.job? id = some job)
    (h : (f job).built? = job.built?) (i : JobId) : (l.changeJob id f).built? i = l.built? i := by
  rw [built?_changeJob]
  split
  next hid =>
    subst hid
    unfold built?
    rw [hjob]
    exact h
  next => rfl

theorem built?_of_job? {job : Job} (hjob : l.job? id = some job)
    (hprep : job.preparation = .done (.ok unit)) : l.built? id = some (unit, job.linking) := by
  unfold built?
  rw [hjob, Option.bind_some]
  unfold Job.built?
  rw [hprep]

theorem built?_of_jobs (h : l'.jobs = l.jobs) (i : JobId) : l'.built? i = l.built? i := by
  unfold built? ModuleMap.job?
  rw [h]

/-- The link phase of a job gets to another state. -/
theorem Wired.changeLinking {l₀ : Loader} {job : Job} (hw : l.Wired s) (hjobs : l₀.jobs = l.jobs)
    (hcomponents : l₀.components = l.components) (hjob : l.job? id = some job)
    (hprep : job.preparation = .done (.ok unit)) (p : Linking) (hsafe : s'.Safe)
    (hunit : ∀ x, unit ≠ x → s'.unit? x = s.unit? x)
    (hstatus : (s.status unit).isEntered = true → (s'.status unit).isEntered = true)
    (hwired : ∀ {l' : Loader}, (∀ {k y}, l.UnitOf k y → l'.UnitOf k y) →
      l.WiredUnit s unit job.linking → l'.WiredUnit s' unit p) :
    (l₀.changeJob id fun job => { job with linking := p }).Wired s' := by
  have hbefore := built?_of_job? hjob hprep
  have hjob₀ : l₀.job? id = some job := by
    unfold ModuleMap.job? at hjob ⊢
    rw [hjobs]
    exact hjob
  refine hw.link p hsafe hbefore ?_ (fun i hi => ?_) hcomponents hunit hstatus
    fun hunits => hwired hunits (hw.unit hbefore)
  · rw [built?_changeJob, if_pos rfl, hjob₀, Option.bind_some]
    unfold Job.built?
    rw [hprep]
  · rw [built?_changeJob, if_neg hi, built?_of_jobs hjobs]

theorem built?_push {job : Job} (hjobs : l'.jobs = l.jobs.push job) (i : JobId) :
    l'.built? i = if (⟨l.jobs.size⟩ : JobId) = i then job.built? else l.built? i := by
  unfold built?
  rw [job?_push l' l.jobs job hjobs]
  obtain ⟨i⟩ := i
  simp only [JobId.mk.injEq]
  by_cases hi : l.jobs.size = i
  · rw [if_pos hi.symm, if_pos hi]
    rfl
  · rw [if_neg (Ne.symm hi), if_neg hi]
    rfl

theorem built?_size (l : Loader) : l.built? ⟨l.jobs.size⟩ = none := by
  unfold built? ModuleMap.job?
  rw [Array.getElem?_eq_none (Nat.le_refl _)]
  rfl

/-- A job is made that has no unit yet, or never will. -/
theorem Wired.push {job : Job} (hw : l.Wired s) (hjobs : l'.jobs = l.jobs.push job)
    (hcomponents : l'.components = l.components) (hnone : job.built? = none) : l'.Wired s := by
  refine hw.of_built (fun i => ?_) hcomponents
  rw [built?_push hjobs]
  split
  next hi => rw [← hi, built?_size, hnone]
  next => rfl

/-- A job is made that has its unit at once. -/
theorem Wired.push_unit {job : Job} (hw : l.Wired s) (hjobs : l'.jobs = l.jobs.push job)
    (hcomponents : l'.components = l.components) (hadds : s.Adds s' unit)
    (hself : job.built? = some (unit, .waiting)) : l'.Wired s' := by
  refine hw.add _ .waiting hadds (built?_size l) ?_ (fun _ h => by cases h)
    (fun _ h => by cases h) (fun i hi => ?_) hcomponents
  · rw [built?_push hjobs, if_pos rfl, hself]
  · rw [built?_push hjobs, if_neg hi]

end Loader

namespace Machine

variable {m m' : Machine} {action : Action}

/-- What holds of a loader of scripts at work. -/
structure Wired (m : Machine) : Prop where
  compiler : m.host.compiler = .script
  wired : m.loader.Wired m.host.store

/-! ### All rules -/

theorem wired_makeJob (hw : m.Wired) (target : Resolved) : (m.makeJob target).Wired := by
  obtain ⟨hcompiler, hw⟩ := hw
  unfold makeJob
  cases target.format with
  | js => exact ⟨hcompiler, hw.push rfl rfl rfl⟩
  | remote => exact ⟨hcompiler, hw.push rfl rfl rfl⟩
  | builtin =>
    have hsetup := (sameSetup_bridge m.host m.loader.resolver.settings.builtinPrefix
      target.url).compiler
    rcases m.host.bridge_cases m.loader.resolver.settings.builtinPrefix target.url with
      ⟨e, hbridge⟩ | ⟨host, unit, hbridge, hadds⟩
    · dsimp only
      rw [hbridge]
      exact ⟨hcompiler, hw.push rfl rfl rfl⟩
    · dsimp only
      rw [hbridge] at hsetup ⊢
      exact ⟨hsetup.trans hcompiler, hw.push_unit rfl rfl hadds rfl⟩

theorem wired_serve (hw : m.Wired) (request : RequestId) (target : Resolved) :
    (m.serve request target).1.Wired := by
  cases hfind : m.loader.find? target.url with
  | some id =>
    rw [serve_hit request hfind]
    exact ⟨hw.compiler, hw.wired.of_built (Loader.built?_of_jobs rfl) rfl⟩
  | none =>
    rw [serve_miss request hfind]
    obtain ⟨hcompiler, hmade⟩ := wired_makeJob hw target
    exact ⟨hcompiler, hmade.of_built (Loader.built?_of_jobs rfl) rfl⟩

theorem wired_startEval (hw : m.Wired) (source : String) : (m.startEval source).Wired := by
  cases hfind : m.loader.find? Url.evalModule with
  | some id =>
    rw [startEval_loaded source hfind]
    exact ⟨hw.compiler, hw.wired.of_built (Loader.built?_of_jobs rfl) rfl⟩
  | none =>
    rw [(startEval_fresh source hfind).2]
    have hasked : ((m.supplied source).ask m.loader.resolver.settings.evalSpecifier none).1.Wired :=
      ⟨hw.compiler, hw.wired.of_built (Loader.built?_of_jobs rfl) rfl⟩
    obtain ⟨hcompiler, hserved⟩ := wired_serve hasked _ _
    exact ⟨hcompiler, hserved.of_built (Loader.built?_of_jobs rfl) rfl⟩

theorem wired_finishPreparation (hw : m.Wired) {id : JobId} {job : Job}
    (hjob : m.loader.job? id = some job) (hopen : ∀ result, job.preparation ≠ .done result)
    (hunit : job.HasUnit) (url : Url) (source : Except LoadError String) :
    (m.finishPreparation id url source).Wired := by
  have hjobNone : job.built? = none := by
    unfold Job.built?
    split
    next hprep => exact absurd hprep (hopen _)
    next => rfl
  have hnone : m.loader.built? id = none := by
    unfold Loader.built?
    rw [hjob]
    exact hjobNone
  have hfailed : ∀ e, (m.loader.changeJob id fun job =>
      { job with preparation := .done (.error e) }).Wired m.host.store :=
    fun e => hw.wired.of_built (Loader.built?_changeJob_of_eq hjob hjobNone.symm) rfl
  cases source with
  | error e => exact ⟨hw.compiler, hfailed e⟩
  | ok text =>
    have hsetup := (sameSetup_compile m.host url text).compiler
    unfold finishPreparation
    dsimp only
    rcases Host.compile_cases hw.compiler url text with
      ⟨e, hcompile⟩ | ⟨host, unit, hcompile, hadds⟩
    · rw [hcompile]
      exact ⟨hw.compiler, hfailed e⟩
    · rw [hcompile] at hsetup ⊢
      have hlinking : ∀ {p}, job.linking = p →
          ((∃ dependencies, p = .wiring dependencies) ∨ ∃ jobs, p = .done (.ok jobs)) → False := by
        rintro p rfl hp
        obtain ⟨_, hprep⟩ := hunit hp
        exact hopen _ hprep
      refine ⟨hsetup.trans hw.compiler, hw.wired.add id job.linking hadds hnone
        ?_ (fun _ h => hlinking h (.inl ⟨_, rfl⟩)) (fun _ h => hlinking h (.inr ⟨_, rfl⟩))
        (fun i hi => ?_) rfl⟩
      · show Loader.built? (Loader.changeJob _ _ _) _ = _
        rw [Loader.built?_changeJob, if_pos rfl]
        show (m.loader.job? id).bind _ = _
        rw [hjob]
        rfl
      · show Loader.built? (Loader.changeJob _ _ _) _ = _
        rw [Loader.built?_changeJob, if_neg hi]

theorem store_serveInstantiated (m : Machine) (id : JobId) (wish : Wish) :
    (m.serveInstantiated id wish).1.host.store = m.host.store ∨
      ∃ unit, m.loader.UnitOf id unit ∧
        (m.serveInstantiated id wish).1.host.store = (m.host.store.evaluate unit).1 := by
  have hevaluate : (m.evaluateJob id).1.host.store = m.host.store ∨
      ∃ unit, m.loader.UnitOf id unit ∧
        (m.evaluateJob id).1.host.store = (m.host.store.evaluate unit).1 := by
    unfold evaluateJob
    split
    next unit hprepared =>
      obtain ⟨job, hjob, hprep⟩ := Loader.prepared?_eq_some.mp hprepared
      exact .inr ⟨unit, ⟨_, Loader.built?_of_job? hjob hprep⟩, rfl⟩
    next => exact .inl rfl
    next => exact .inl rfl
  unfold serveInstantiated
  split
  next => exact .inl rfl
  next =>
    dsimp only
    split
    next => exact hevaluate
    next =>
      split
      next => exact hevaluate
      next => exact hevaluate

theorem wired_serveInstantiated (hw : m.Wired) (id : JobId) (wish : Wish) :
    (m.serveInstantiated id wish).1.Wired := by
  refine ⟨(sameSetup_serveInstantiated m id wish).compiler.trans hw.compiler, ?_⟩
  rw [loader_serveInstantiated]
  rcases store_serveInstantiated m id wish with hsame | ⟨unit, ⟨_, hunit⟩, hstore⟩
  · rw [hsame]
    exact hw.wired
  · rw [hstore]
    have hsafe := hw.wired.safe
    exact hw.wired.evaluate (Store.ran_evaluate hsafe.plain unit)
      (Store.safe_evaluate hsafe (hw.wired.unit hunit).there)

theorem store_instantiateMembers (m : Machine) (id : JobId) (unit : UnitId)
    (members : List JobId) :
    (m.instantiateMembers id unit members).host.store = (m.host.store.instantiate unit).1 := by
  rw [instantiateMembers_eq]
  obtain ⟨jobs, hjoined⟩ := joinAll_eq ⟨m.loader.components.size⟩
    { host := { m.host with store := (m.host.store.instantiate unit).1 },
      loader := { m.loader with
        components := m.loader.components.push ⟨id, members, (m.host.store.instantiate unit).2⟩ } }
    (joining id members (m.host.store.instantiate unit).2)
  rw [hjoined]
  rfl

theorem built?_instantiateMembers (m : Machine) (id : JobId) (unit : UnitId)
    (members : List JobId) (i : JobId) :
    (m.instantiateMembers id unit members).loader.built? i = m.loader.built? i := by
  unfold Loader.built?
  rw [job?_instantiateMembers]
  cases m.loader.job? i <;> rfl

/-- A link phase gets further without a change of its unit. -/
theorem wired_setLinking {m₀ : Machine} {id : JobId} {job : Job} {p : Linking} (hw : m.Wired)
    (hcompiler : m₀.host.compiler = m.host.compiler) (hstore : m₀.host.store = m.host.store)
    (hjobs : m₀.loader.jobs = m.loader.jobs)
    (hcomponents : m₀.loader.components = m.loader.components) (hjob : m.loader.job? id = some job)
    (hprep : ∃ unit, job.preparation = .done (.ok unit))
    (h : ∀ {unit} {l' : Loader}, (∀ {k y}, m.loader.UnitOf k y → l'.UnitOf k y) →
      m.loader.WiredUnit m.host.store unit job.linking → l'.WiredUnit m.host.store unit p) :
    (m₀.setLinking id p).Wired := by
  obtain ⟨unit, hprep⟩ := hprep
  refine ⟨hcompiler.trans hw.compiler, ?_⟩
  show Loader.Wired _ m₀.host.store
  rw [hstore]
  exact hw.wired.changeLinking hjobs hcomponents hjob hprep p hw.wired.safe (fun _ _ => rfl)
    (fun h => h) h

/-- The unit of a job whose link phase waits begins it: scripts and bridges never refuse to tell their
specifiers. -/
theorem begins_of_waiting {id : JobId} {job : Job} {unit : UnitId} (hw : m.Wired)
    (hjob : m.loader.job? id = some job) (hwaiting : job.linking = .waiting)
    (hprep : job.preparation = .done (.ok unit)) : (m.host.store.status unit).isEntered = false ∧
      ∃ specifiers store, m.host.store.beginLink unit = (store, .ok specifiers) ∧
        m.host.store.Begins unit specifiers store := by
  have hunit := hw.wired.unit (Loader.built?_of_job? hjob hprep)
  have hfresh := hunit.not_entered fun _ h => by rw [hwaiting] at h; cases h
  exact ⟨hfresh, Store.begins_beginLink hw.wired.safe hunit.there hfresh⟩

/-- A dependency gets further that is not wired before and not afterwards. -/
theorem wired_setWiring {m₀ : Machine} {id : JobId} {job : Job} {dependencies : List Dependency}
    {index : Nat} {dependency : Dependency} {wiring : Wiring} (hw : m.Wired)
    (hcompiler : m₀.host.compiler = m.host.compiler) (hstore : m₀.host.store = m.host.store)
    (hjobs : m₀.loader.jobs = m.loader.jobs)
    (hcomponents : m₀.loader.components = m.loader.components) (hjob : m.loader.job? id = some job)
    (hwiring : job.linking = .wiring dependencies) (hunit : job.HasUnit)
    (hdep : dependencies[index]? = some dependency) (hopen : ∀ k, dependency.wiring ≠ .wired k)
    (hnew : ∀ k, wiring ≠ .wired k) : (m₀.setWiring id dependencies index wiring).Wired := by
  refine wired_setLinking hw hcompiler hstore hjobs hcomponents hjob (hunit (.inl ⟨_, hwiring⟩))
    fun hmono hunit => ?_
  rw [hwiring] at hunit
  refine hunit.rewire hmono _ hnew fun d hd => ?_
  cases hdep.symm.trans hd
  exact hopen

/-- A dependency is wired: the unit records the one that was found. -/
theorem wired_wire {id found : JobId} {index : Nat} {job : Job} {dependencies : List Dependency}
    {dependency : Dependency} {other unit : UnitId} (hw : m.Wired)
    (hjob : m.loader.job? id = some job) (hwiring : job.linking = .wiring dependencies)
    (hdep : dependencies[index]? = some dependency)
    (hfound : m.loader.prepared? found = some (.ok other))
    (hprep : job.preparation = .done (.ok unit)) :
    ({ m with host := { m.host with
        store := m.host.store.wire unit dependency.specifier other } }.setWiring
      id dependencies index (.wired found)).Wired := by
  obtain ⟨other', hother, hprep'⟩ := Loader.prepared?_eq_some.mp hfound
  have hunit := hw.wired.unit (Loader.built?_of_job? hjob hprep)
  rw [hwiring] at hunit
  obtain ⟨-, hspecifies, -⟩ := hunit.begun dependencies rfl
  have hin : dependency.specifier ∈ dependencies.map Dependency.specifier :=
    List.mem_map_of_mem (List.mem_of_getElem? hdep)
  obtain ⟨u, hu⟩ := hspecifies.script hw.wired.safe.plain hin
  have hwires := Store.wires_wire hw.wired.safe hu
    (hunit.not_entered fun _ h => by cases h) dependency.specifier other
  refine ⟨hw.compiler, hw.wired.changeLinking rfl rfl hjob hprep _ hwires.safe hwires.others
    (fun h => hwires.status ▸ h) fun hmono hunit => ?_⟩
  rw [hwiring] at hunit
  exact hunit.wire hw.wired.safe hmono hdep ⟨_, Loader.built?_of_job? hother hprep'⟩ hwires

theorem Rule.wired (h : Rule m action m') (hg : m.loader.Grouped)
    (hunits : ∀ id job, m.loader.job? id = some job → job.HasUnit) (hw : m.Wired) : m'.Wired := by
  cases h with
  | startEval source => exact wired_startEval hw source
  | prepareHere hjob hidle =>
    exact wired_finishPreparation hw hjob (fun _ h => by rw [hidle] at h; cases h)
      (hunits _ _ hjob) _ _
  | read hjob hreading =>
    exact wired_finishPreparation hw hjob (fun _ h => by rw [hreading] at h; cases h)
      (hunits _ _ hjob) _ _
  | prepareFile hjob hidle =>
    refine ⟨hw.compiler, hw.wired.of_built (Loader.built?_changeJob_of_eq hjob ?_) rfl⟩
    unfold Job.built?
    rw [hidle]
  | linkUnprepared hjob hwaiting hprep =>
    refine ⟨hw.compiler, hw.wired.of_built (Loader.built?_changeJob_of_eq hjob ?_) rfl⟩
    unfold Job.built?
    rw [hprep]
  | linkRefused hjob hwaiting hprep hrefused =>
    obtain ⟨-, _, _, hbegun, -⟩ := begins_of_waiting hw hjob hwaiting hprep
    cases hrefused.symm.trans hbegun
  | linkBegun hjob hwaiting hprep hbegun =>
    obtain ⟨hfresh, _, _, hbegun', hbegins⟩ := begins_of_waiting hw hjob hwaiting hprep
    cases hbegun.symm.trans hbegun'
    refine ⟨hw.compiler, hw.wired.changeLinking rfl rfl hjob hprep _ hbegins.safe hbegins.others
      (fun hentered => ?_) fun _ h => Loader.WiredUnit.asked hbegins (h.bare hwaiting)⟩
    rw [hfresh] at hentered
    cases hentered
  | linkEnded hjob hwiring hjobs =>
    refine wired_setLinking hw rfl rfl rfl rfl hjob (hunits _ _ hjob (.inl ⟨_, hwiring⟩))
      fun hmono hunit => ?_
    rw [hwiring] at hunit
    exact hunit.finish hmono hjobs
  | wireAsked hjob hwiring hdep hunasked =>
    exact wired_setWiring hw rfl rfl rfl rfl hjob hwiring (hunits _ _ hjob) hdep
      (fun _ h => by rw [hunasked] at h; cases h) (fun _ h => by cases h)
  | wireDropped hjob hwiring | wireUnresolved hjob hwiring | wireUnprepared hjob hwiring =>
    rw [failLinking_eq]
    refine wired_setLinking hw rfl rfl rfl rfl hjob (hunits _ _ hjob (.inl ⟨_, hwiring⟩))
      fun hmono hunit => ?_
    rw [hwiring] at hunit
    exact hunit.fail (fun _ h => by cases h) _
  | wireServed hjob hwiring hdep hresolving =>
    exact wired_setWiring (wired_serve hw _ _) rfl rfl rfl rfl (job?_serve _ _ hjob) hwiring
      (hunits _ _ hjob) hdep (fun _ h => by rw [hresolving] at h; cases h) (fun _ h => by cases h)
  | wireEnded hjob hwiring hdep hlocated hfound hown =>
    obtain ⟨job', hjob', hprep⟩ := Loader.prepared?_eq_some.mp hown
    cases hjob.symm.trans hjob'
    exact wired_wire hw hjob hwiring hdep hfound hprep
  | enterJoined hjob | enterUnprepared hjob | enterWalk hjob | enterDropped hjob | walkPass hjob
  | walkVisit hjob | walkStopped hjob | walkJoined hjob | callEnters _ _ hjob =>
    exact ⟨hw.compiler, hw.wired.of_built (Loader.built?_changeJob_of_eq hjob rfl) rfl⟩
  | @walkEnded id job walk unit hjob hwalking hstack hc hprep =>
    obtain ⟨hroot, hclosed⟩ := (hg.walking _ _ _ hjob hwalking).members_closed hstack
    have hbuilt := Loader.built?_of_job? hjob hprep
    have hentering := Store.entering_instantiate hw.wired.safe.plain (hw.wired.unit hbuilt).there
    have hsetup := Rule.sameSetup (.walkEnded hjob hwalking hstack hc hprep)
    refine ⟨hsetup.compiler.trans hw.compiler, ?_⟩
    rw [store_instantiateMembers]
    exact hw.wired.instantiate hclosed hroot ⟨_, hbuilt⟩ hentering
      (built?_instantiateMembers m id unit walk.members)
      (components_instantiateMembers m id unit walk.members)
  | callServed =>
    obtain ⟨hcompiler, hserved⟩ := wired_serve hw _ _
    exact ⟨hcompiler, hserved.of_built (Loader.built?_of_jobs rfl) rfl⟩
  | callInstantiated =>
    obtain ⟨hcompiler, hran⟩ := wired_serveInstantiated hw _ _
    exact ⟨hcompiler, hran.of_built (Loader.built?_of_jobs rfl) rfl⟩
  | _ => exact ⟨hw.compiler, hw.wired.of_built (Loader.built?_of_jobs rfl) rfl⟩

end Machine

end ModuleLoader
