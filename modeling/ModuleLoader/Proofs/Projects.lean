import ModuleLoader.Proofs.Outcomes
import ModuleLoader.Proofs.Ownership
/-!
# Units that are made for the modules of a project

A unit keeps the URL, the program and the cells that it was made with, whatever is done to it. So it
goes on to stand for the module that it was made for, and what is recorded in it are units for the
modules to which its specifiers lead.

Results:
1. `MadeFrom`: what a unit has from its module; `core`: the part of it that says so.
2. `Holds`, `Keeps`: a unit of a store that stands for a module goes on to do so.
3. `Follows`: all units of a store stand for modules, and are linked as these lead to each other.
4. `Follows.of_frames`, `Follows.add`, `Follows.wire`: what keeps a store like that.
-/
namespace ModuleLoader

/-! ## Units and their modules -/

namespace ModuleUnit

variable {p : Project} {cells cells' : Cells} {unit other : ModuleUnit} {u : ScriptUnit} {b : Bridge}
  {names : Script.Declarations}

/-- The module that a unit is for. -/
def target : ModuleUnit → Resolved
  | script u => ⟨u.url, .js⟩
  | bridge b => ⟨b.url, .builtin⟩
  | manifest m => ⟨m.url, .remote⟩

/-- A unit whose names are those of its module. -/
inductive MadeFrom (p : Project) : ModuleUnit → Prop
  | script {u : ScriptUnit} {names : Script.Declarations} :
      p.content? ⟨u.url, .js⟩ = some (.script u.program names) →
      u.locals.map Prod.fst = names.locals.eraseDups →
      (u.exports = names.exports.filterMap fun (exported, here) =>
        (u.locals.cell? here).map fun cell => (exported, cell)) → MadeFrom p (.script u)
  | bridge {b : Bridge} {names : List String} {table : Table} :
      p.content? ⟨b.url, .builtin⟩ = some (.library names table) →
      b.exports.map Prod.fst = (names.mergeSort nameLe).eraseDups → MadeFrom p (.bridge b)

/-- What a unit was made with and keeps. -/
def core : ModuleUnit → ModuleUnit
  | script u => script { u with imports := [], dependencies := [], status := .unlinked }
  | bridge b => bridge { b with executor := none, status := .linked }
  | manifest m => manifest m

theorem core_frame (unit : ModuleUnit) : unit.frame.core = unit.core := by cases unit <;> rfl

theorem core_of_frame (h : unit.frame = other.frame) : unit.core = other.core := by
  rw [← core_frame, h, core_frame]

theorem target_of_core (h : unit.core = other.core) : unit.target = other.target := by
  have hcore : ∀ unit : ModuleUnit, unit.core.target = unit.target := fun unit => by
    cases unit <;> rfl
  rw [← hcore, h, hcore]

theorem own_of_core (h : unit.core = other.core) : unit.own = other.own := by
  have hcore : ∀ unit : ModuleUnit, unit.core.own = unit.own := fun unit => by cases unit <;> rfl
  rw [← hcore, h, hcore]

theorem madeFrom_core : unit.core.MadeFrom p ↔ unit.MadeFrom p := by
  cases unit with
  | script u =>
    exact ⟨fun | .script h h' h'' => .script h h' h'', fun | .script h h' h'' => .script h h' h''⟩
  | bridge b => exact ⟨fun | .bridge h h' => .bridge h h', fun | .bridge h h' => .bridge h h'⟩
  | manifest m => exact Iff.rfl

theorem MadeFrom.of_core (hmade : unit.MadeFrom p) (h : unit.core = other.core) :
    other.MadeFrom p := by
  rw [← madeFrom_core, ← h, madeFrom_core]
  exact hmade

/-- The exports of a script show values of its locals. -/
theorem read_exports (hexports : u.exports = names.exports.filterMap fun (exported, here) =>
      (u.locals.cell? here).map fun cell => (exported, cell)) (cells : Cells) :
    u.exports.read cells = names.shown (u.locals.read cells) := by
  unfold Scope.read Script.Declarations.shown
  rw [hexports, List.map_filterMap]
  refine List.filterMap_congr fun ⟨exported, here⟩ _ => ?_
  change _ = ((u.locals.read cells).lookup here).map _
  rw [Scope.lookup_read]
  dsimp only
  cases u.locals.cell? here <;> rfl

theorem MadeFrom.exported (h : unit.MadeFrom p) :
    ∃ c, p.content? unit.target = some c ∧ unit.exports.map Prod.fst = c.exported := by
  cases h with
  | @script u names hcontent hlocals hexports =>
    refine ⟨_, hcontent, ?_⟩
    have hdistinct := (Script.Declarations.distinct_declarations
      (Project.declarations_of_content? hcontent)).1
    have hshown := Project.map_fst_shown hdistinct ((Scope.map_fst_read _ {}).trans hlocals)
    rw [← read_exports hexports, Scope.map_fst_read] at hshown
    exact hshown
  | bridge hcontent hnames => exact ⟨_, hcontent, hnames⟩

theorem MadeFrom.exports_own (h : unit.MadeFrom p) {e : String × CellId} (he : e ∈ unit.exports) :
    e.2 ∈ unit.own.map Prod.snd := by
  cases h with
  | script hcontent hlocals hexports =>
    simp only [ModuleUnit.exports, hexports] at he
    obtain ⟨pair, -, heq⟩ := List.mem_filterMap.mp he
    obtain ⟨cell, hcell, rfl⟩ := Option.map_eq_some_iff.mp heq
    exact List.mem_map.mpr ⟨_, Scope.mem_of_cell? hcell, rfl⟩
  | bridge => exact List.mem_map_of_mem he

theorem MadeFrom.own_named (h : unit.MadeFrom p) : (unit.own.map Prod.fst).Nodup := by
  cases h with
  | script hcontent hlocals hexports => exact hlocals ▸ nodup_eraseDups _
  | bridge hcontent hnames => exact hnames ▸ nodup_eraseDups _

/-- A unit that is made for a module asks for the specifiers of the module. -/
theorem MadeFrom.specifiers (h : unit.MadeFrom p) :
    ∃ c, p.content? unit.target = some c ∧ unit.specifiers = c.specifiers := by
  cases h with
  | script hcontent => exact ⟨_, hcontent, rfl⟩
  | bridge hcontent => exact ⟨_, hcontent, rfl⟩

/-- A script is compiled for the module of its source. -/
theorem madeFrom_compile {url : Url} {source : String}
    (hsource : url.source p.files none = .ok source)
    (h : ScriptUnit.compile url source cells = .ok (cells', u)) :
    (script u).MadeFrom p ∧ (script u).target = ⟨url, .js⟩ := by
  obtain ⟨program, names, hprogram, hnames, -, rfl⟩ := compile_eq_ok h
  refine ⟨@MadeFrom.script p _ names ?_ (Scope.names_fresh _ _) rfl, rfl⟩
  simp [Project.content?, hsource, hprogram, hnames, Except.toOption]

/-- A source that does not compile is that of no module. -/
theorem content?_of_compile {url : Url} {source : String} {e : LoadError}
    (hsource : url.source p.files none = .ok source)
    (h : ScriptUnit.compile url source cells = .error e) : p.content? ⟨url, .js⟩ = none := by
  cases hcontent : p.content? ⟨url, .js⟩ with
  | none => rfl
  | some c =>
    obtain ⟨source', program, names, hsource', hprogram, hnames, -⟩ :=
      Project.source_of_content? hcontent
    cases hsource.symm.trans hsource'
    simp [ScriptUnit.compile, hprogram, hnames, Except.mapError, bind, Except.bind, pure,
      Except.pure] at h

end ModuleUnit

namespace Store

variable {p : Project} {s s' t : Store} {x y id : UnitId} {unit other : ModuleUnit}
  {u : ScriptUnit} {b : Bridge} {module : Resolved}

/-! ## What is recorded in units -/

theorem imports_of_script {specifier : String} (hu : s.unit? x = some (.script u)) :
    s.Imports x specifier y ↔ u.dependencies.lookup specifier = some y := by
  have hshape : s.shape? x = some (.script u.url u.program u.dependencies) := by
    unfold shape?
    rw [hu]
    rfl
  constructor
  · rintro ⟨url, program, dependencies, hother, hlookup⟩
    cases hshape.symm.trans hother
    exact hlookup
  · exact fun hlookup => ⟨_, _, _, hshape, hlookup⟩

theorem dependsOn_of_script (hu : s.unit? x = some (.script u)) :
    s.DependsOn x y ↔ ∃ specifier ∈ u.program.specifiers,
      u.dependencies.lookup specifier = some y := by
  have hshape : s.shape? x = some (.script u.url u.program u.dependencies) := by
    unfold shape?
    rw [hu]
    rfl
  constructor
  · rintro ⟨url, program, dependencies, hother, h⟩
    cases hshape.symm.trans hother
    exact h
  · exact fun h => ⟨_, _, _, hshape, h⟩

/-- Only scripts depend on other units. -/
theorem DependsOn.exists_script (h : s.DependsOn x y) : ∃ u, s.unit? x = some (.script u) := by
  obtain ⟨url, program, dependencies, hshape, -⟩ := h
  obtain ⟨unit, hunit, heq⟩ := Option.map_eq_some_iff.mp hshape
  cases unit with
  | script u => exact ⟨u, hunit⟩
  | bridge b => cases heq
  | manifest m => cases heq

theorem SameShape.imports (h : s.SameShape s') {specifier : String} :
    s'.Imports x specifier y ↔ s.Imports x specifier y := by
  unfold Imports
  rw [h x]

/-! ## Units that stay what they are -/

/-- A unit that stands for a module. -/
def Holds (s : Store) (p : Project) (x : UnitId) (module : Resolved) : Prop :=
  ∃ unit, s.unit? x = some unit ∧ unit.MadeFrom p ∧ unit.target = module

/-- All units of a store are there in another one, with what they were made with. -/
def Keeps (s s' : Store) : Prop :=
  ∀ x unit, s.unit? x = some unit → ∃ unit', s'.unit? x = some unit' ∧ unit'.core = unit.core

theorem Keeps.refl (s : Store) : s.Keeps s := fun _ unit hunit => ⟨unit, hunit, rfl⟩

theorem Holds.keeps (h : s.Holds p x module) (hkeeps : s.Keeps s') : s'.Holds p x module := by
  obtain ⟨unit, hunit, hmade, rfl⟩ := h
  obtain ⟨unit', hunit', hcore⟩ := hkeeps x unit hunit
  exact ⟨unit', hunit', hmade.of_core hcore.symm, ModuleUnit.target_of_core hcore⟩

theorem Holds.unique {module' : Resolved} (h : s.Holds p x module) (h' : s.Holds p x module') :
    module = module' := by
  obtain ⟨unit, hunit, -, rfl⟩ := h
  obtain ⟨unit', hunit', -, rfl⟩ := h'
  cases hunit.symm.trans hunit'
  rfl

theorem SameFrames.keeps (h : s.SameFrames s') : s.Keeps s' := by
  intro x unit hunit
  have hsame := h x
  rw [hunit] at hsame
  obtain ⟨unit', hunit', hframe⟩ := Option.map_eq_some_iff.mp hsame
  exact ⟨unit', hunit', ModuleUnit.core_of_frame hframe⟩

theorem keeps_add (s : Store) (cells : Cells) (unit : ModuleUnit) :
    s.Keeps ({ s with cells }.add unit).1 := by
  intro x old hold
  refine ⟨old, ?_, rfl⟩
  rw [unit?_add, if_neg]
  · exact hold
  · rintro rfl
    exact absurd (hold.symm.trans (unit?_add_self { s with cells } unit)) (Option.some_ne_none old)

theorem core_wire (s : Store) (id : UnitId) (specifier : String) (y x : UnitId) :
    ((s.wire id specifier y).unit? x).map ModuleUnit.core = (s.unit? x).map ModuleUnit.core := by
  unfold wire changeScript
  rw [unit?_change]
  split
  next =>
    rw [Option.map_map]
    congr 1
    funext unit
    cases unit <;> rfl
  next => rfl

theorem keeps_wire (s : Store) (id : UnitId) (specifier : String) (y : UnitId) :
    s.Keeps (s.wire id specifier y) := by
  intro x unit hunit
  have hsame := s.core_wire id specifier y x
  rw [hunit] at hsame
  exact Option.map_eq_some_iff.mp hsame

/-! ## Stores that follow a project -/

/-- All units are made for modules, are linked as these lead to each other, and have their cells to
themselves. -/
structure Follows (p : Project) (s : Store) : Prop extends s.Owned where
  tables : s.tables = p.tables
  made : ∀ x unit, s.unit? x = some unit → unit.MadeFrom p
  links : ∀ x y specifier unit other, s.Imports x specifier y → s.unit? x = some unit →
    s.unit? y = some other → p.leads unit.target specifier = .ok other.target
  /-- What is recorded is there. -/
  known : ∀ x specifier y, s.Imports x specifier y → (s.unit? y).isSome = true

namespace Follows

variable (h : s.Follows p)

include h

theorem noManifests : s.NoManifests := fun x m hm => by cases h.made x _ hm

/-- Units keep what they were made with, and what is recorded of late leads where it should. -/
theorem of_units
    (hunits : ∀ x, (s'.unit? x).map ModuleUnit.core = (s.unit? x).map ModuleUnit.core)
    (hsize : s'.cells.values.size = s.cells.values.size) (htables : s'.tables = s.tables)
    (hlinks : ∀ x specifier y, s'.Imports x specifier y → s.Imports x specifier y ∨
      (s.unit? y).isSome = true ∧ ∀ unit other, s.unit? x = some unit → s.unit? y = some other →
        p.leads unit.target specifier = .ok other.target) : s'.Follows p := by
  have hback : ∀ {x unit'}, s'.unit? x = some unit' →
      ∃ unit, s.unit? x = some unit ∧ unit.core = unit'.core := by
    intro x unit' hunit'
    have hsame := hunits x
    rw [hunit'] at hsame
    exact Option.map_eq_some_iff.mp hsame.symm
  constructor
  case toOwned =>
    refine h.toOwned.of_units (fun x unit' hunit' => ?_) hsize
    obtain ⟨unit, hunit, hcore⟩ := hback hunit'
    exact ⟨unit, hunit, ModuleUnit.own_of_core hcore⟩
  case tables => exact htables.trans h.tables
  case made =>
    intro x unit' hunit'
    obtain ⟨unit, hunit, hcore⟩ := hback hunit'
    exact (h.made x unit hunit).of_core hcore
  case links =>
    intro x y specifier unit' other' himports hunit' hother'
    obtain ⟨unit, hunit, hcore⟩ := hback hunit'
    obtain ⟨other, hother, hcore'⟩ := hback hother'
    rw [← ModuleUnit.target_of_core hcore, ← ModuleUnit.target_of_core hcore']
    rcases hlinks x specifier y himports with hold | hnew
    · exact h.links x y specifier unit other hold hunit hother
    · exact hnew.2 unit other hunit hother
  case known =>
    intro x specifier y himports
    have hthere : (s.unit? y).isSome = true :=
      (hlinks x specifier y himports).elim (h.known x specifier y) And.left
    obtain ⟨unit, hunit⟩ := Option.isSome_iff_exists.mp hthere
    have hsame := hunits y
    rw [hunit] at hsame
    obtain ⟨unit', hunit', -⟩ := Option.map_eq_some_iff.mp hsame
    rw [hunit']
    rfl

theorem of_frames (hframes : s.SameFrames s') (hsize : s'.cells.values.size = s.cells.values.size)
    (htables : s'.tables = s.tables) : s'.Follows p := by
  refine h.of_units (fun x => ?_) hsize htables fun x specifier y himports =>
    .inl (hframes.shape.imports.mp himports)
  have hsame := congrArg (Option.map ModuleUnit.core) (hframes x)
  rw [Option.map_map, Option.map_map] at hsame
  rwa [show ModuleUnit.core ∘ ModuleUnit.frame = ModuleUnit.core from
    funext ModuleUnit.core_frame] at hsame

/-- A new unit for a module, with cells of its own and nothing recorded. -/
theorem add {names : List String} (hown : unit.own = (Scope.fresh names s.cells).2)
    (hmade : unit.MadeFrom p) (hnew : ∀ u, unit = .script u → u.dependencies = []) :
    ({ s with cells := (Scope.fresh names s.cells).1 }.add unit).1.Follows p := by
  -- nothing is recorded in the new unit
  have himported : ∀ {x specifier y},
      ({ s with cells := (Scope.fresh names s.cells).1 }.add unit).1.Imports x specifier y →
      x ≠ ⟨s.units.size⟩ ∧ s.Imports x specifier y := by
    rintro x specifier y ⟨url, program, dependencies, hshape, hlookup⟩
    obtain ⟨other, hother, heq⟩ := Option.map_eq_some_iff.mp hshape
    obtain ⟨rfl, -⟩ | ⟨hold, hx⟩ := unit?_add_cases hother
    · cases other with
      | script u =>
        cases heq
        rw [hnew u rfl] at hlookup
        cases hlookup
      | bridge b => cases heq
      | manifest m => cases heq
    · exact ⟨hx, url, program, dependencies, Option.map_eq_some_iff.mpr ⟨other, hold, heq⟩, hlookup⟩
  constructor
  case toOwned => exact h.toOwned.add hown
  case tables => exact h.tables
  case made =>
    intro x other hother
    obtain ⟨rfl, -⟩ | ⟨hother, -⟩ := unit?_add_cases hother
    · exact hmade
    · exact h.made x other hother
  case links =>
    intro x y specifier first second himports hfirst hsecond
    obtain ⟨hx, hbefore⟩ := himported himports
    obtain ⟨-, rfl⟩ | ⟨hold, -⟩ := unit?_add_cases hfirst
    · exact absurd rfl hx
    · obtain ⟨-, rfl⟩ | ⟨hsecond, -⟩ := unit?_add_cases hsecond
      · -- nobody has recorded the new unit yet
        have hthere : (s.unit? ⟨s.units.size⟩).isSome = true := h.known x specifier _ hbefore
        rw [show s.unit? ⟨s.units.size⟩ = none from unit?_add_self s unit] at hthere
        cases hthere
      · exact h.links x y specifier first second hbefore hold hsecond
  case known =>
    intro x specifier y himports
    obtain ⟨other, hother⟩ := Option.isSome_iff_exists.mp
      (h.known x specifier y (himported himports).2)
    obtain ⟨other', hother', -⟩ := s.keeps_add _ unit y other hother
    rw [hother']
    rfl

/-- A unit gets recorded in another one, for the module to which the specifier leads. -/
theorem wire {specifier : String} (hu : s.unit? x = some (.script u))
    (hthere : (s.unit? y).isSome = true) (hleads : ∀ other, s.unit? y = some other →
      p.leads (ModuleUnit.script u).target specifier = .ok other.target) :
    (s.wire x specifier y).Follows p := by
  refine h.of_units (s.core_wire x specifier y) rfl rfl fun z other target himports => ?_
  by_cases hz : x = z
  · subst hz
    have hself : (s.wire x specifier y).unit? x = some (.script { u with
        dependencies := u.dependencies.filter (·.1 ≠ specifier) ++ [(specifier, y)] }) := by
      unfold Store.wire changeScript
      rw [unit?_change, if_pos rfl, hu]
      rfl
    have hlookup := (imports_of_script hself).mp himports
    dsimp only at hlookup
    rw [lookup_wire] at hlookup
    split at hlookup
    next hsame =>
      cases hlookup
      subst hsame
      refine .inr ⟨hthere, fun unit found hunit hfound => ?_⟩
      cases hu.symm.trans hunit
      exact hleads found hfound
    next => exact .inl ((imports_of_script hu).mpr hlookup)
  · refine .inl ?_
    obtain ⟨url, program, dependencies, hshape, hlookup⟩ := himports
    refine ⟨url, program, dependencies, ?_, hlookup⟩
    unfold shape? at hshape ⊢
    unfold Store.wire changeScript at hshape
    rwa [unit?_change, if_neg hz] at hshape

/-- A search keeps a store following if no turn changes a table or makes a cell. -/
theorem runs {phase : Phase} (hp : phase.Lawful)
    (hact : ∀ t x unit, (phase.act t x unit).1.tables = t.tables ∧
      (phase.act t x unit).1.cells.values.size = t.cells.values.size)
    {targets : List (Except LoadError UnitId)} {log : List UnitId} {r : Except LoadError Unit}
    (hruns : phase.Runs s targets log s' r) : s'.Follows p := by
  have hstatus : ∀ {t : Store} {x status}, t.Follows p → (t.setStatus x status).Follows p :=
    fun ht => ht.of_frames (sameFrames_setStatus _ _ _) rfl rfl
  refine hruns.preserve hp (P := fun t => t.Follows p) (fun _ _ _ ht _ _ => hstatus ht) ?_
    (fun _ _ _ _ ht _ => hstatus ht) h
  intro t x unit t' r ht _ _ hset
  have hturn := ht.of_frames (hp.frames t x unit) (hact t x unit).2 (hact t x unit).1
  generalize phase.act t x unit = turned at hset hturn
  obtain ⟨t₁, e | status⟩ := turned
  · cases hset
    exact hstatus hturn
  · cases hset
    exact hstatus hturn

theorem instantiate (id : UnitId) :
    (s.instantiate id).1.Follows p ∧ s.Keeps (s.instantiate id).1 := by
  obtain ⟨log, hruns⟩ := instantiate_runs h.noManifests id
  refine ⟨h.runs instantiation_lawful (fun t x unit => ?_) hruns,
    (hruns.forth instantiation_lawful).frames.keeps⟩
  cases unit with
  | script u =>
    show (t.bindImports x u).1.tables = _ ∧ (t.bindImports x u).1.cells.values.size = _
    unfold bindImports
    split <;> exact ⟨rfl, rfl⟩
  | bridge b => exact ⟨rfl, rfl⟩
  | manifest m => exact ⟨rfl, rfl⟩

theorem evaluate (id : UnitId) : (s.evaluate id).1.Follows p ∧ s.Keeps (s.evaluate id).1 := by
  obtain ⟨log, hruns⟩ := evaluate_runs h.noManifests id
  refine ⟨h.runs evaluation_lawful (fun t x unit => ?_) hruns,
    (hruns.forth evaluation_lawful).frames.keeps⟩
  cases unit with
  | script u => exact ⟨rfl, (t.runBody_keeps u).size⟩
  | bridge b => exact ⟨rfl, (t.runExecutor_keeps x b).size⟩
  | manifest m => exact ⟨rfl, rfl⟩

end Follows

end Store

end ModuleLoader
