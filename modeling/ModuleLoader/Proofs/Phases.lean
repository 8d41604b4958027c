import ModuleLoader.Proofs.UnitSteps
/-!
# Phases

Instantiation and evaluation are one search with different work at a unit: what a unit depends on
comes first, then the unit takes its turn, and what comes of it is kept as its status. A unit that
answers by its status is not entered.

Results:
1. `children`, `Complete`, `targets`: what a unit leads to.
2. `SameFrames`: what both phases leave alone.
3. `Phase`, `instantiation`, `evaluation`: the two searches by what differs between them.
4. `instantiation_lawful`, `evaluation_lawful`: what they have in common.
5. `instantiateWithin_eq`, `evaluateWithin_eq`: the search does what the two functions do.
-/
namespace ModuleLoader

/-- A unit without its status, its imports and its executor. -/
def ModuleUnit.frame : ModuleUnit → ModuleUnit
  | script u => script { u with imports := [], status := .unlinked }
  | bridge b => bridge { b with executor := none, status := .linked }
  | manifest m => manifest m

namespace Store

variable {s s' t : Store} {x y id : UnitId}

/-! ## What a unit leads to -/

/-- The unit behind a specifier of another. Only scripts have any recorded. -/
def behind (s : Store) : ModuleUnit → String → Except LoadError UnitId
  | .script u, specifier => s.dependency u specifier
  | unit, specifier => .error (.instantiate unit.url (.dependencyUnlinked specifier))

/-- What a unit leads to, one target for each of its specifiers. -/
def targets (s : Store) (unit : ModuleUnit) : List (Except LoadError UnitId) :=
  unit.specifiers.map (s.behind unit)

theorem SameShape.dependency (h : s.SameShape s') (u : ScriptUnit) (specifier : String) :
    s'.dependency u specifier = s.dependency u specifier := by
  unfold Store.dependency
  cases u.dependencies.lookup specifier with
  | none => rfl
  | some y =>
    have hsome := h.isSome y
    cases hs : s.unit? y with
    | none =>
      rw [hs, Option.isSome_none, Option.isSome_eq_false_iff, Option.isNone_iff_eq_none] at hsome
      simp only [hsome, hs]
    | some unit =>
      rw [hs, Option.isSome_some] at hsome
      obtain ⟨unit', hunit'⟩ := Option.isSome_iff_exists.mp hsome
      simp only [hunit', hs]

theorem SameShape.behind (h : s.SameShape s') (unit : ModuleUnit) :
    s'.behind unit = s.behind unit := by
  funext specifier
  cases unit with
  | script u => exact h.dependency u specifier
  | bridge b => rfl
  | manifest m => rfl

theorem SameShape.targets (h : s.SameShape s') (unit : ModuleUnit) :
    s'.targets unit = s.targets unit := by
  unfold Store.targets
  rw [h.behind]

/-- A store of scripts and bridges. -/
def NoManifests (s : Store) : Prop := ∀ x m, s.unit? x ≠ some (.manifest m)

theorem Plain.noManifests (h : s.Plain) : s.NoManifests := fun x _ hm => h x _ hm

theorem SameShape.noManifests (h : s.SameShape s') (hs : s.NoManifests) : s'.NoManifests := by
  intro x m hm
  exact hs x m (shape?_eq_manifest.mp ((h x).symm.trans (shape?_eq_manifest.mpr hm)))

/-- The units that a unit imports from, in the order of its specifiers. -/
def children (s : Store) (x : UnitId) : List UnitId :=
  match s.shape? x with
  | some (.script _ program dependencies) =>
    program.specifiers.filterMap fun specifier => dependencies.lookup specifier
  | _ => []

/-- Each specifier of a unit has its unit, which is still there. -/
def Complete (s : Store) (x : UnitId) : Prop :=
  ∀ u, s.unit? x = some (.script u) → ∀ specifier ∈ u.program.specifiers,
    ∃ y, u.dependencies.lookup specifier = some y ∧ (s.unit? y).isSome = true

theorem mem_children : y ∈ s.children x ↔ s.DependsOn x y := by
  unfold children DependsOn
  split
  next url program dependencies hshape =>
    rw [List.mem_filterMap]
    constructor
    · exact fun h => ⟨url, program, dependencies, hshape, h⟩
    · rintro ⟨_, _, _, hother, h⟩
      cases hshape.symm.trans hother
      exact h
  next hother =>
    refine iff_of_false List.not_mem_nil ?_
    rintro ⟨url, program, dependencies, hshape, -⟩
    exact hother _ _ _ hshape

theorem Complete.isSome (h : s.Complete x) (hd : s.DependsOn x y) : (s.unit? y).isSome = true := by
  obtain ⟨url, program, dependencies, hshape, specifier, hin, hlookup⟩ := hd
  obtain ⟨unit, hunit, heq⟩ := Option.map_eq_some_iff.mp hshape
  cases unit with
  | script u =>
    cases heq
    obtain ⟨z, hz, hsome⟩ := h u hunit specifier hin
    cases hz.symm.trans hlookup
    exact hsome
  | bridge b => cases heq
  | manifest m => cases heq

theorem SameShape.complete (h : s.SameShape s') (hs : s.Complete x) : s'.Complete x := by
  intro u hu specifier hin
  have hshape := h x
  unfold shape? at hshape
  rw [hu] at hshape
  obtain ⟨unit, hunit, heq⟩ := Option.map_eq_some_iff.mp hshape.symm
  cases unit with
  | script old =>
    simp only [ModuleUnit.shape, Shape.script.injEq] at heq
    obtain ⟨-, hprogram, hdependencies⟩ := heq
    rw [← hprogram] at hin
    obtain ⟨y, hlookup, hsome⟩ := hs old hunit specifier hin
    exact ⟨y, hdependencies ▸ hlookup, (h.isSome y).trans hsome⟩
  | bridge b => cases heq
  | manifest m => cases heq

theorem SameShape.children (h : s.SameShape s') (x : UnitId) : s'.children x = s.children x := by
  unfold Store.children
  rw [h x]

theorem dependency_of_lookup {u : ScriptUnit} {specifier : String}
    (h : u.dependencies.lookup specifier = some y) (hy : (s.unit? y).isSome = true) :
    s.dependency u specifier = .ok y := by
  obtain ⟨unit, hunit⟩ := Option.isSome_iff_exists.mp hy
  unfold Store.dependency
  rw [h]
  simp only [hunit]

/-- A complete unit leads to the units that it imports from. -/
theorem targets_of_complete {unit : ModuleUnit} (hs : s.NoManifests) (h : s.Complete x)
    (hunit : s.unit? x = some unit) : s.targets unit = (s.children x).map .ok := by
  unfold Store.targets Store.children shape?
  rw [hunit]
  cases unit with
  | bridge b => rfl
  | manifest m => exact absurd hunit (hs x m)
  | script u =>
    have hall := h u hunit
    simp only [ModuleUnit.specifiers, Option.map_some, ModuleUnit.shape]
    generalize u.program.specifiers = specifiers at hall
    induction specifiers with
    | nil => rfl
    | cons specifier rest ih =>
      obtain ⟨y, hlookup, hy⟩ := hall specifier List.mem_cons_self
      rw [List.map_cons, ih fun other hin => hall other (List.mem_cons_of_mem _ hin),
        List.filterMap_cons]
      simp only [hlookup, List.map_cons]
      exact congrArg (· :: _) (dependency_of_lookup hlookup hy)

/-! ### Frames -/

/-- Two stores with the same units up to statuses, imports and executors. -/
def SameFrames (s s' : Store) : Prop :=
  ∀ x, (s'.unit? x).map ModuleUnit.frame = (s.unit? x).map ModuleUnit.frame

theorem SameFrames.refl (s : Store) : s.SameFrames s := fun _ => rfl

theorem SameFrames.trans (h : s.SameFrames s') (h' : s'.SameFrames t) : s.SameFrames t :=
  fun x => (h' x).trans (h x)

/-- What follows from the frame of a unit is the same in both stores. -/
theorem SameFrames.map (h : s.SameFrames s') {α : Type} {f : ModuleUnit → α}
    (hf : ∀ unit : ModuleUnit, f unit.frame = f unit) (x : UnitId) :
    (s'.unit? x).map f = (s.unit? x).map f := by
  have hmap : ∀ unit? : Option ModuleUnit, unit?.map f = (unit?.map ModuleUnit.frame).map f := by
    intro unit?
    rw [Option.map_map]
    congr 1
    funext unit
    exact (hf unit).symm
  rw [hmap, h x, ← hmap]

theorem SameFrames.shape (h : s.SameFrames s') : s.SameShape s' :=
  h.map fun unit => by cases unit <;> rfl

theorem SameFrames.exports (h : s.SameFrames s') (x : UnitId) :
    (s'.unit? x).map (fun unit => (unit.url, unit.exports)) =
      (s.unit? x).map fun unit => (unit.url, unit.exports) :=
  h.map (fun unit => by cases unit <;> rfl) x

theorem sameFrames_change (s : Store) (id : UnitId) {f : ModuleUnit → ModuleUnit}
    (h : ∀ unit, (f unit).frame = unit.frame) : s.SameFrames (s.change id f) := by
  intro x
  rw [unit?_change]
  split
  next =>
    rw [Option.map_map]
    congr 1
    funext unit
    exact h unit
  next => rfl

theorem sameFrames_setStatus (s : Store) (id : UnitId) (status : Status) :
    s.SameFrames (s.setStatus id status) :=
  sameFrames_change s id fun unit => by cases unit <;> rfl

theorem change_change (s : Store) (id : UnitId) (f g : ModuleUnit → ModuleUnit) :
    (s.change id f).change id g = s.change id (g ∘ f) := by
  unfold change
  congr 1
  ext i : 1
  · simp
  · simp only [Array.getElem_modify]
    split
    next => simp
    next => rfl

theorem change_comm (s : Store) {id other : UnitId} (hne : id ≠ other)
    (f g : ModuleUnit → ModuleUnit) :
    (s.change id f).change other g = (s.change other g).change id f := by
  unfold change
  congr 1
  ext i : 1
  · simp
  · simp only [Array.getElem_modify]
    split
    next h =>
      have hid : id.index ≠ i := fun h' => hne (by cases id; cases other; simp_all)
      rw [if_neg hid, if_neg hid]
    next => rfl

/-- The status that is set last is kept. -/
theorem setStatus_setStatus (s : Store) (id : UnitId) (status status' : Status) :
    (s.setStatus id status).setStatus id status' = s.setStatus id status' := by
  unfold setStatus
  rw [change_change]
  congr 1
  funext unit
  cases unit <;> rfl

theorem setStatus_comm (s : Store) {id other : UnitId} (hne : id ≠ other) (status status' : Status) :
    (s.setStatus id status).setStatus other status' =
      (s.setStatus other status').setStatus id status :=
  change_comm s hne _ _

end Store

/-! ## The two phases -/

/-- A search over units by what differs between instantiation and evaluation. -/
structure Phase where
  /-- The status of a unit that was entered and has not taken its turn. -/
  during : Status
  /-- What a unit answers that is not to be entered. -/
  answer : ModuleUnit → Option (Except LoadError Unit)
  /-- The turn of a unit, with the status it gets if that goes well. -/
  act : Store → UnitId → ModuleUnit → Store × Except LoadError Status

namespace Phase

/-- Keeps what came of a turn as the status of the unit. -/
def settle (x : UnitId) : Store × Except LoadError Status → Store × Except LoadError Unit
  | (s, .ok status) => (s.setStatus x status, .ok ())
  | (s, .error e) => (s.setStatus x (.errored e), .error e)

/-- The turn of a unit by itself. -/
def turn (p : Phase) (s : Store) (x : UnitId) : Store × Except LoadError Unit :=
  match s.unit? x with
  | none => (s, .ok ())
  | some unit =>
    match p.answer unit with
    | some r => (s, r)
    | none => settle x (p.act s x unit)

/-- Lets a unit take its turn if all went well with what it leads to. -/
def finish (p : Phase) (x : UnitId) (unit : ModuleUnit) :
    Store × Except LoadError Unit → Store × Except LoadError Unit
  | (s, .error e) => settle x (s, .error e)
  | (s, .ok ()) => settle x (p.act s x unit)

/-- Goes on to the unit behind a specifier. -/
def follow (enter : Store → UnitId → Store × Except LoadError Unit) (unit : ModuleUnit) (s : Store)
    (specifier : String) : Store × Except LoadError Unit :=
  match s.behind unit specifier with
  | .ok y => enter s y
  | .error e => (s, .error e)

/-- The search from a unit, when at most `depth` units wait for each other. -/
def within (p : Phase) : Nat → Store → UnitId → Store × Except LoadError Unit
  | 0, s, _ => (s, .ok ())
  | depth + 1, s, x =>
    match s.unit? x with
    | none => (s, .ok ())
    | some unit =>
      match p.answer unit with
      | some r => (s, r)
      | none =>
        p.finish x unit
          ((s.setStatus x p.during).forEach (follow (p.within depth) unit) unit.specifiers)

/-- The units that are to be entered when the search gets to them. -/
def Opens (p : Phase) (s : Store) (x : UnitId) : Prop :=
  ∃ unit, s.unit? x = some unit ∧ p.answer unit = none

/-- The units that the search passes over. -/
def Passes (p : Phase) (s : Store) (x : UnitId) : Prop :=
  ∃ unit, s.unit? x = some unit ∧ p.answer unit = some (.ok ())

/-- The units that end the search with an error of their own. -/
def Refuses (p : Phase) (s : Store) (x : UnitId) (e : LoadError) : Prop :=
  ∃ unit, s.unit? x = some unit ∧ p.answer unit = some (.error e)

/-- What both phases have in common. -/
structure Lawful (p : Phase) : Prop where
  during : ∀ unit : ModuleUnit, p.answer (unit.withStatus p.during) = some (.ok ())
  calm : ∀ e, p.during ≠ .errored e
  errored : ∀ (unit : ModuleUnit) e, p.answer (unit.withStatus (.errored e)) ≠ none
  /-- Only the error that is kept is told. -/
  replays : ∀ (unit : ModuleUnit) e e',
    p.answer (unit.withStatus (.errored e)) = some (.error e') → e' = e
  settled : ∀ s x unit s' status, p.act s x unit = (s', .ok status) →
    ∀ unit : ModuleUnit, p.answer (unit.withStatus status) = some (.ok ())
  fine : ∀ s x unit status, (p.act s x unit).2 = .ok status →
    status ≠ p.during ∧ ∀ e, status ≠ .errored e
  /-- A unit tells why it failed, if there is anything that can make it fail. -/
  tells : ∀ s x (unit other : ModuleUnit) e, p.answer unit = none → other.frame = unit.frame →
    ((p.act s x unit).2 = .error e ∨ unit.specifiers ≠ []) →
    p.answer (other.withStatus (.errored e)) = some (.error e)
  frames : ∀ (s : Store) x unit, s.SameFrames (p.act s x unit).1
  others : ∀ (s : Store) x unit y, x ≠ y → (p.act s x unit).1.unit? y = s.unit? y
  size : ∀ (s : Store) x unit, (p.act s x unit).1.units.size = s.units.size
  /-- A turn does not look at statuses and leaves them as they are. -/
  blind : ∀ (s : Store) x unit y status, p.act (s.setStatus y status) x unit =
    ((p.act s x unit).1.setStatus y status, (p.act s x unit).2)

end Phase

/-- Scripts get their imports bound; a bridge has none. -/
def instantiation : Phase where
  during := .instantiating
  answer
    | .script u =>
      match u.status with
      | .unlinked => some (.error (.instantiate u.url .unlinked))
      | .errored e => some (.error e)
      | .linked => none
      | _ => some (.ok ())
    | .bridge b =>
      match b.status with
      | .linked => none
      | _ => some (.ok ())
    | .manifest _ => some (.ok ())
  act s x
    | .script u =>
      let (s, r) := s.bindImports x u
      (s, r.map fun _ => .instantiated)
    | _ => (s, .ok .instantiated)

/-- Scripts run their bodies, and bridges their executors. -/
def evaluation : Phase where
  during := .evaluating
  answer
    | .script u =>
      match u.status with
      | .instantiated => none
      | status => some ((Store.replay u.url status).map fun _ => ())
    | .bridge b =>
      match b.status with
      | .instantiated => none
      | status => some ((Store.replay b.url status).map fun _ => ())
    | .manifest _ => some (.ok ())
  act s x
    | .script u =>
      let (s, r) := s.runBody u
      (s, r.map .evaluated)
    | .bridge b =>
      let (s, r) := s.runExecutor x b
      (s, r.map fun _ => .evaluated none)
    | .manifest _ => (s, .ok (.evaluated none))

namespace Store

variable {s s' t : Store} {x y id : UnitId}

/-! ### Turns do not look at statuses -/

/-- Binding an import looks at what the unit behind the specifier exports, and at nothing else. -/
theorem SameFrames.importCells (h : s.SameFrames t) (u : ScriptUnit) (decl : Script.ImportDecl) :
    t.importCells u decl = s.importCells u decl := by
  unfold Store.importCells
  rw [h.shape.dependency]
  cases s.dependency u decl.specifier with
  | error e => rfl
  | ok y =>
    have hy := h.exports y
    simp only [bind, Except.bind]
    cases hs : s.unit? y with
    | none =>
      rw [hs, Option.map_none, Option.map_eq_none_iff] at hy
      rw [hy]
    | some unit =>
      rw [hs, Option.map_some, Option.map_eq_some_iff] at hy
      obtain ⟨unit', hunit', heq⟩ := hy
      obtain ⟨hurl, hexp⟩ := Prod.mk.inj heq
      rw [hunit']
      simp only [ModuleUnit.export?, hurl, hexp]

theorem SameFrames.allImportCells (h : s.SameFrames t) (u : ScriptUnit) :
    t.allImportCells u = s.allImportCells u := by
  unfold Store.allImportCells
  rw [show t.importCells u = s.importCells u from funext fun decl => h.importCells u decl]

/-- A change of a unit that leaves its status alone goes together with any change of a status. -/
theorem change_setStatus (s : Store) (id other : UnitId) (status : Status)
    {f : ModuleUnit → ModuleUnit}
    (hf : ∀ unit, f (unit.withStatus status) = (f unit).withStatus status) :
    (s.setStatus other status).change id f = (s.change id f).setStatus other status := by
  by_cases hid : other = id
  · subst hid
    unfold setStatus
    rw [change_change, change_change]
    congr 1
    funext unit
    exact hf unit
  · exact change_comm s hid _ _

theorem bindImports_setStatus (s : Store) (id other : UnitId) (u : ScriptUnit) (status : Status) :
    (s.setStatus other status).bindImports id u =
      ((s.bindImports id u).1.setStatus other status, (s.bindImports id u).2) := by
  unfold bindImports
  rw [(sameFrames_setStatus s other status).allImportCells]
  cases s.allImportCells u with
  | error e => rfl
  | ok imports =>
    simp only
    congr 1
    exact change_setStatus s id other status fun unit => by cases unit <;> rfl

/-- A bridge gets another executor, which no status shows. -/
theorem changeExecutor_setStatus (s : Store) (id other : UnitId) (executor : Option Executor)
    (status : Status) :
    (s.setStatus other status).changeBridge id (fun b => { b with executor }) =
      (s.changeBridge id fun b => { b with executor }).setStatus other status := by
  unfold changeBridge
  exact change_setStatus s id other status fun unit => by cases unit <;> rfl

theorem runExecutor_setStatus (s : Store) (id other : UnitId) (b : Bridge) (status : Status) :
    (s.setStatus other status).runExecutor id b =
      ((s.runExecutor id b).1.setStatus other status, (s.runExecutor id b).2) := by
  unfold runExecutor
  dsimp only
  congr 1
  exact changeExecutor_setStatus { s with cells := _ } id other _ status

theorem sameFrames_bindImports (s : Store) (id : UnitId) (u : ScriptUnit) :
    s.SameFrames (s.bindImports id u).1 := by
  unfold bindImports
  split
  next => exact sameFrames_change s id fun unit => by cases unit <;> rfl
  next => exact .refl s

theorem sameFrames_runExecutor (s : Store) (id : UnitId) (b : Bridge) :
    s.SameFrames (s.runExecutor id b).1 :=
  sameFrames_change { s with cells := _ } id fun unit => by cases unit <;> rfl

@[simp] theorem size_change (s : Store) (id : UnitId) (f : ModuleUnit → ModuleUnit) :
    (s.change id f).units.size = s.units.size := Array.size_modify

@[simp] theorem size_setStatus (s : Store) (id : UnitId) (status : Status) :
    (s.setStatus id status).units.size = s.units.size := s.size_change id _

theorem size_bindImports (s : Store) (id : UnitId) (u : ScriptUnit) :
    (s.bindImports id u).1.units.size = s.units.size := by
  unfold bindImports
  split
  next => exact s.size_change id _
  next => rfl

theorem unit?_bindImports (s : Store) (u : ScriptUnit) (hne : id ≠ x) :
    (s.bindImports id u).1.unit? x = s.unit? x := by
  unfold bindImports
  split
  next => unfold changeScript; rw [unit?_change, if_neg hne]
  next => rfl

theorem unit?_runExecutor (s : Store) (b : Bridge) (hne : id ≠ x) :
    (s.runExecutor id b).1.unit? x = s.unit? x := by
  unfold runExecutor changeBridge
  rw [unit?_change, if_neg hne]
  rfl

end Store

/-- Units are to be entered by the one phase when they are linked. -/
theorem status_of_answer_instantiation {unit : ModuleUnit} (h : instantiation.answer unit = none) :
    unit.status = .linked := by
  cases unit with
  | script u => cases hu : u.status <;> simp_all [instantiation, ModuleUnit.status]
  | bridge b => cases hb : b.status <;> simp_all [instantiation, ModuleUnit.status]
  | manifest m => cases h

/-- And by the other one when they are instantiated. -/
theorem status_of_answer_evaluation {unit : ModuleUnit} (h : evaluation.answer unit = none) :
    unit.status = .instantiated := by
  cases unit with
  | script u => cases hu : u.status <;> simp_all [evaluation, ModuleUnit.status]
  | bridge b => cases hb : b.status <;> simp_all [evaluation, ModuleUnit.status]
  | manifest m => cases h

/-- A turn that goes well leaves a unit instantiated, in the one phase. -/
theorem status_of_act_instantiation {s : Store} {x : UnitId} {unit : ModuleUnit} {status : Status}
    (h : (instantiation.act s x unit).2 = .ok status) : status = .instantiated := by
  cases unit with
  | script u =>
    simp only [instantiation] at h
    cases hr : (s.bindImports x u).2 with
    | error e => rw [hr] at h; cases h
    | ok _ => rw [hr] at h; cases h; rfl
  | bridge b => cases h; rfl
  | manifest m => cases h; rfl

/-- And it leaves it evaluated, in the other one. -/
theorem status_of_act_evaluation {s : Store} {x : UnitId} {unit : ModuleUnit} {status : Status}
    (h : (evaluation.act s x unit).2 = .ok status) : ∃ v, status = .evaluated v := by
  cases unit with
  | script u =>
    simp only [evaluation] at h
    cases hr : (s.runBody u).2 with
    | error e => rw [hr] at h; cases h
    | ok v => rw [hr] at h; cases h; exact ⟨v, rfl⟩
  | bridge b =>
    simp only [evaluation] at h
    cases hr : (s.runExecutor x b).2 with
    | error e => rw [hr] at h; cases h
    | ok v => rw [hr] at h; cases h; exact ⟨none, rfl⟩
  | manifest m => cases h; exact ⟨none, rfl⟩

theorem instantiation_lawful : instantiation.Lawful where
  during unit := by cases unit <;> rfl
  calm e h := by cases h
  errored unit e := by cases unit <;> simp [instantiation, ModuleUnit.withStatus]
  replays unit e e' h := by
    cases unit with
    | script u => cases h; rfl
    | bridge b => cases h
    | manifest m => cases h
  settled s x unit s' status h := by
    cases status_of_act_instantiation (congrArg Prod.snd h)
    intro unit
    cases unit <;> rfl
  fine s x unit status h := by
    cases status_of_act_instantiation h
    exact ⟨fun h => (by cases h), fun e h => by cases h⟩
  tells s x unit other e hanswer hframe h := by
    cases unit with
    | script u => cases other <;> first | rfl | cases hframe
    | bridge b =>
      rcases h with h | h
      · cases h
      · exact absurd rfl h
    | manifest m => cases hanswer
  frames s x unit := by
    cases unit with
    | script u => exact s.sameFrames_bindImports x u
    | bridge b => exact .refl s
    | manifest m => exact .refl s
  others s x unit y hne := by
    cases unit with
    | script u => exact s.unit?_bindImports u hne
    | bridge b => rfl
    | manifest m => rfl
  size s x unit := by
    cases unit with
    | script u => exact s.size_bindImports x u
    | bridge b => rfl
    | manifest m => rfl
  blind s x unit y status := by
    cases unit with
    | script u => simp only [instantiation, s.bindImports_setStatus x y u status]
    | bridge b => rfl
    | manifest m => rfl

theorem evaluation_lawful : evaluation.Lawful where
  during unit := by cases unit <;> rfl
  calm e h := by cases h
  errored unit e := by cases unit <;> simp [evaluation, ModuleUnit.withStatus]
  replays unit e e' h := by
    cases unit with
    | script u => cases h; rfl
    | bridge b => cases h; rfl
    | manifest m => cases h
  settled s x unit s' status h := by
    obtain ⟨v, rfl⟩ := status_of_act_evaluation (congrArg Prod.snd h)
    intro unit
    cases unit <;> rfl
  fine s x unit status h := by
    obtain ⟨v, rfl⟩ := status_of_act_evaluation h
    exact ⟨fun h => (by cases h), fun e h => by cases h⟩
  tells s x unit other e hanswer hframe _ := by
    cases unit with
    | script u => cases other <;> first | rfl | cases hframe
    | bridge b => cases other <;> first | rfl | cases hframe
    | manifest m => cases hanswer
  frames s x unit := by
    cases unit with
    | script u => exact .refl s
    | bridge b => exact s.sameFrames_runExecutor x b
    | manifest m => exact .refl s
  others s x unit y hne := by
    cases unit with
    | script u => rfl
    | bridge b => exact s.unit?_runExecutor b hne
    | manifest m => rfl
  size s x unit := by
    cases unit with
    | script u => rfl
    | bridge b => exact Store.size_change { s with cells := _ } x _
    | manifest m => rfl
  blind s x unit y status := by
    cases unit with
    | script u => rfl
    | bridge b => simp only [evaluation, s.runExecutor_setStatus x y b status]
    | manifest m => rfl

namespace Phase

variable {p : Phase} {s s' t : Store} {x y : UnitId}

/-- If all targets lie in a region, then the first one does, and so do the rest. -/
theorem region_cons {region : UnitId → Prop} {rest : List (Except LoadError UnitId)}
    (h : ∀ target ∈ .ok x :: rest, ∃ y, target = .ok y ∧ region y) :
    region x ∧ ∀ target ∈ rest, ∃ y, target = .ok y ∧ region y := by
  obtain ⟨y, heq, hy⟩ := h _ List.mem_cons_self
  cases heq
  exact ⟨hy, fun target hin => h target (List.mem_cons_of_mem _ hin)⟩

theorem follow_ok {enter : Store → UnitId → Store × Except LoadError Unit} {unit : ModuleUnit}
    {specifier : String} (h : s.behind unit specifier = .ok y) :
    follow enter unit s specifier = enter s y := by
  unfold follow
  rw [h]

theorem follow_error {enter : Store → UnitId → Store × Except LoadError Unit} {unit : ModuleUnit}
    {specifier : String} {e : LoadError} (h : s.behind unit specifier = .error e) :
    follow enter unit s specifier = (s, .error e) := by
  unfold follow
  rw [h]

theorem within_answered {unit : ModuleUnit} {r : Except LoadError Unit} (depth : Nat)
    (hunit : s.unit? x = some unit) (hanswer : p.answer unit = some r) :
    p.within (depth + 1) s x = (s, r) := by
  unfold within
  rw [hunit]
  simp only [hanswer]

theorem within_entered {unit : ModuleUnit} (depth : Nat) (hunit : s.unit? x = some unit)
    (hanswer : p.answer unit = none) : p.within (depth + 1) s x = p.finish x unit
      ((s.setStatus x p.during).forEach (follow (p.within depth) unit) unit.specifiers) := by
  rw [within, hunit]
  simp only [hanswer]

theorem Lawful.shape (hp : p.Lawful) (s : Store) (x : UnitId) (unit : ModuleUnit) :
    s.SameShape (p.act s x unit).1 := (hp.frames s x unit).shape

theorem frames_settle (x : UnitId) (result : Store × Except LoadError Status) :
    result.1.SameFrames (settle x result).1 := by
  obtain ⟨s, r⟩ := result
  cases r with
  | ok status => exact Store.sameFrames_setStatus s x status
  | error e => exact Store.sameFrames_setStatus s x _

theorem shape_settle (x : UnitId) (result : Store × Except LoadError Status) :
    result.1.SameShape (settle x result).1 := (frames_settle x result).shape

theorem Lawful.shape_finish (hp : p.Lawful) (x : UnitId) (unit : ModuleUnit)
    (searched : Store × Except LoadError Unit) : searched.1.SameShape (p.finish x unit searched).1 := by
  obtain ⟨s, r⟩ := searched
  cases r with
  | ok _ => exact (hp.shape s x unit).trans (shape_settle x _)
  | error e => exact shape_settle x (s, .error e)

theorem Lawful.shape_within (hp : p.Lawful) (depth : Nat) (s : Store) (x : UnitId) :
    s.SameShape (p.within depth s x).1 := by
  induction depth generalizing s x with
  | zero => exact .refl s
  | succ depth ih =>
    unfold within
    split
    next => exact .refl s
    next unit _ =>
      split
      next => exact .refl s
      next =>
        generalize hsearch : Store.forEach _ _ _ = searched
        have hshape := (Store.forEach_induction hsearch
          (P := (s.setStatus x p.during).SameShape) (Q := fun _ => True) (.refl _)
          fun s' specifier _ h => ⟨by
            unfold follow
            split
            next => exact h.trans (ih _ _)
            next => exact h, fun _ _ => trivial⟩).1
        exact (Store.sameShape_setStatus s x p.during).trans
          (hshape.trans (hp.shape_finish x unit searched))

end Phase

/-! ## The search is what the two functions do -/

namespace Store

variable {s s' t : Store} {x y id : UnitId}

/-- Steps that do the same to every store that comes up do the same one after the other. -/
theorem forEach_congr {α : Type} {step step' : Store → α → Store × Except LoadError Unit}
    {P : Store → Prop} (items : List α)
    (h : ∀ s a, P s → step s a = step' s a ∧ P (step' s a).1) (hs : P s) :
    s.forEach step items = s.forEach step' items := by
  induction items generalizing s with
  | nil => rfl
  | cons a rest ih =>
    obtain ⟨heq, hkept⟩ := h s a hs
    unfold forEach
    rw [heq]
    split
    next => rfl
    next s' hstep =>
      rw [hstep] at hkept
      exact ih hkept

/-- The steps for the specifiers of a script are the same if what they do behind each of them is. -/
theorem forEach_follow {u : ScriptUnit} {step : Store → String → Store × Except LoadError Unit}
    {enter : Store → UnitId → Store × Except LoadError Unit}
    (h : ∀ s specifier, s.NoManifests → step s specifier = Phase.follow enter (.script u) s specifier)
    (hshape : ∀ (s : Store) y, s.SameShape (enter s y).1) (hs : s.NoManifests) :
    s.forEach step u.program.specifiers =
      s.forEach (Phase.follow enter (.script u)) u.program.specifiers := by
  refine forEach_congr (P := NoManifests) _ (fun s specifier hs => ⟨h s specifier hs, ?_⟩) hs
  unfold Phase.follow
  split
  next => exact (hshape _ _).noManifests hs
  next => exact hs

theorem finish_instantiation (id : UnitId) (u : ScriptUnit)
    (searched : Store × Except LoadError Unit) :
    settleInstantiation id (match searched with
      | (s, .error e) => (s, .error e)
      | (s, .ok ()) => s.bindImports id u) = instantiation.finish id (.script u) searched := by
  obtain ⟨s, r⟩ := searched
  cases r with
  | error e => rfl
  | ok _ =>
    simp only [Phase.finish, instantiation]
    obtain ⟨s', r⟩ := s.bindImports id u
    cases r <;> rfl

theorem instantiateWithin_eq (hs : s.NoManifests) (depth : Nat) (id : UnitId) :
    s.instantiateWithin depth id = instantiation.within depth s id := by
  induction depth generalizing s id with
  | zero => rfl
  | succ depth ih =>
    unfold instantiateWithin
    split
    next hunit => unfold Phase.within; rw [hunit]
    next b hb =>
      split
      next hstatus =>
        rw [Phase.within_entered depth hb (by simp [instantiation, hstatus])]
        exact congrArg (·, _) (s.setStatus_setStatus id .instantiating .instantiated).symm
      next hother =>
        refine (Phase.within_answered depth hb ?_).symm
        change (match b.status with | .linked => _ | _ => _) = _
        split
        next hlinked => exact absurd hlinked hother
        next => rfl
    next m hm => exact absurd hm (hs id m)
    next u hu =>
      split
      next hstatus => exact (Phase.within_answered depth hu (by simp [instantiation, hstatus])).symm
      next e hstatus =>
        exact (Phase.within_answered depth hu (by simp [instantiation, hstatus])).symm
      next hstatus =>
        rw [Phase.within_entered depth hu (by simp [instantiation, hstatus])]
        refine (finish_instantiation id u _).trans (congrArg _ ?_)
        refine forEach_follow (fun s specifier hs => ?_) (instantiation_lawful.shape_within depth)
          ((sameShape_setStatus s id .instantiating).noManifests hs)
        have hsame : s.behind (.script u) specifier = s.dependency u specifier := rfl
        cases hbehind : s.dependency u specifier with
        | ok y => exact (ih hs y).trans (Phase.follow_ok (hsame.trans hbehind)).symm
        | error e => exact (Phase.follow_error (hsame.trans hbehind)).symm
      next hunlinked herrored hlinked =>
        refine (Phase.within_answered depth hu ?_).symm
        change (match u.status with | .unlinked => _ | .errored e => _ | .linked => _ | _ => _) = _
        split
        next h => exact absurd h hunlinked
        next e h => exact absurd h (herrored e)
        next h => exact absurd h hlinked
        next => rfl

/-- What is left of a result when the completion is forgotten. -/
def forget (result : Store × Except LoadError (Option Value)) : Store × Except LoadError Unit :=
  (result.1, result.2.map fun _ => ())

theorem finish_evaluation (id : UnitId) (u : ScriptUnit)
    (searched : Store × Except LoadError Unit) :
    forget (settleEvaluation id (match searched with
      | (s, .error e) => (s, .error e)
      | (s, .ok ()) => s.runBody u)) = evaluation.finish id (.script u) searched := by
  obtain ⟨s, r⟩ := searched
  cases r with
  | error e => rfl
  | ok _ =>
    simp only [Phase.finish, evaluation]
    obtain ⟨s', r⟩ := s.runBody u
    cases r <;> rfl

theorem evaluateWithin_eq (hs : s.NoManifests) (depth : Nat) (id : UnitId) :
    forget (s.evaluateWithin depth id) = evaluation.within depth s id := by
  induction depth generalizing s id with
  | zero => rfl
  | succ depth ih =>
    unfold evaluateWithin
    split
    next hunit => unfold Phase.within; rw [hunit]; rfl
    next b hb =>
      split
      next hstatus =>
        rw [Phase.within_entered depth hb (by simp [evaluation, hstatus])]
        simp only [ModuleUnit.specifiers, forEach, Phase.finish, evaluation]
        obtain ⟨s', r⟩ := (s.setStatus id .evaluating).runExecutor id b
        cases r <;> rfl
      next hother =>
        refine (Phase.within_answered depth hb ?_).symm
        change (match b.status with | .instantiated => _ | status => _) = _
        split
        next hstatus => exact absurd hstatus hother
        next => rfl
    next m hm => exact absurd hm (hs id m)
    next u hu =>
      split
      next hstatus =>
        rw [Phase.within_entered depth hu (by simp [evaluation, hstatus])]
        refine (finish_evaluation id u _).trans (congrArg _ ?_)
        refine forEach_follow (fun s specifier hs => ?_) (evaluation_lawful.shape_within depth)
          ((sameShape_setStatus s id .evaluating).noManifests hs)
        have hsame : s.behind (.script u) specifier = s.dependency u specifier := rfl
        cases hbehind : s.dependency u specifier with
        | ok y => exact (ih hs y).trans (Phase.follow_ok (hsame.trans hbehind)).symm
        | error e => exact (Phase.follow_error (hsame.trans hbehind)).symm
      next hother =>
        refine (Phase.within_answered depth hu ?_).symm
        change (match u.status with | .instantiated => _ | status => _) = _
        split
        next hstatus => exact absurd hstatus hother
        next => rfl

end Store

end ModuleLoader
