import ModuleLoader.Proofs.Acyclic
import ModuleLoader.Proofs.Projects
/-!
# The lives of units

A unit that was made from the content of a module comes to what the module comes to, whenever it is
instantiated and evaluated, and whoever asks for it. Until then nobody writes to its cells, and
afterwards nobody does so any more.

Results:
1. `Lives`: what the cells of a unit read at each point of its life.
2. `Deep`, `Grounded`: all that a bound unit reaches was entered.
3. `Lives.instantiate`, `Lives.evaluate`: searches without cycles keep this.
-/
namespace ModuleLoader

open Relation (TransGen ReflTransGen)
open Script (Want)

/-- Whether the outcome of the unit is kept. -/
def Status.isFinal : Status → Bool
  | evaluated _ | errored _ => true
  | _ => false

/-! ## Units at each point of their lives -/

namespace ModuleUnit

variable {p : Project} {cells cells' : Cells} {unit : ModuleUnit} {u : ScriptUnit} {b : Bridge}
  {names : Script.Declarations}

/-- A unit that has not run. -/
def Fresh (p : Project) (cells : Cells) : ModuleUnit → Prop
  | script u => ∀ e ∈ u.locals, cells.read e.2 = .undefined
  | bridge b => (∀ e ∈ b.exports, cells.read e.2 = .undefined) ∧
      ∃ library, p.library? b.url = some library ∧ b.executor = some [.fill library.table]
  | manifest _ => False

/-- What is known of a unit and its cells at each point of its life. -/
structure Lives (p : Project) (cells : Cells) (unit : ModuleUnit) : Prop where
  evaluated : ∀ v, unit.status = .evaluated v →
    p.Yields unit.target (.ok v) (unit.exports.read cells)
  errored : ∀ e, unit.status = .errored e →
    p.Yields unit.target (.error ()) (unit.exports.read cells)
  fresh : unit.status.isFinal = false → unit.Fresh p cells
  named : ∀ u, unit = .script u → u.status.isBound = true →
    u.imports.map Prod.fst = u.program.wants.map Want.here

theorem Fresh.of_cells (h : unit.Fresh p cells)
    (hkept : ∀ cell ∈ unit.own.map Prod.snd, cells'.read cell = cells.read cell) :
    unit.Fresh p cells' := by
  cases unit with
  | script u => exact fun e he => (hkept e.2 (List.mem_map_of_mem he)).trans (h e he)
  | bridge b => exact ⟨fun e he => (hkept e.2 (List.mem_map_of_mem he)).trans (h.1 e he), h.2⟩
  | manifest m => exact h

theorem read_locals (hlocals : u.locals.map Prod.fst = names.locals.eraseDups)
    (hfresh : (ModuleUnit.script u).Fresh p cells) : u.locals.read cells = names.untouched := by
  unfold Script.Declarations.untouched Scope.read
  rw [← hlocals, List.map_map]
  exact List.map_congr_left fun e he => congrArg (Prod.mk e.1) (hfresh e he)

namespace Lives

/-- Nobody else has written to the cells of the unit. -/
theorem of_cells (h : unit.Lives p cells) (hmade : unit.MadeFrom p)
    (hkept : ∀ cell ∈ unit.own.map Prod.snd, cells'.read cell = cells.read cell) :
    unit.Lives p cells' := by
  have hexports : unit.exports.read cells' = unit.exports.read cells :=
    Scope.read_congr fun e he => hkept e.2 (hmade.exports_own he)
  exact ⟨fun v hv => hexports ▸ h.evaluated v hv, fun e he => hexports ▸ h.errored e he,
    fun hfinal => (h.fresh hfinal).of_cells hkept, h.named⟩

/-- A unit gets further without having run. -/
theorem withStatus (h : unit.Lives p cells) (hbefore : unit.status.isFinal = false)
    {status : Status} (hafter : status.isFinal = false)
    (hnamed : ∀ u, unit = .script u → status.isBound = true →
      u.imports.map Prod.fst = u.program.wants.map Want.here) :
    (unit.withStatus status).Lives p cells := by
  have hfinal : (∀ v, status ≠ .evaluated v) ∧ ∀ e, status ≠ .errored e :=
    ⟨fun v hv => (by rw [hv] at hafter; cases hafter), fun e he => by rw [he] at hafter; cases hafter⟩
  cases unit with
  | script u =>
    exact ⟨fun v hv => absurd hv (hfinal.1 v), fun e he => absurd he (hfinal.2 e),
      fun _ => h.fresh hbefore, fun u' hu' hb => by cases hu'; exact hnamed u rfl hb⟩
  | bridge b =>
    exact ⟨fun v hv => absurd hv (hfinal.1 v), fun e he => absurd he (hfinal.2 e),
      fun _ => h.fresh hbefore, fun u' hu' _ => by cases hu'⟩
  | manifest m => exact (h.fresh hbefore).elim

/-- A script gives up without having run. -/
theorem giveUp (h : (ModuleUnit.script u).Lives p cells) (hmade : (ModuleUnit.script u).MadeFrom p)
    (hbefore : u.status.isFinal = false) (e : LoadError)
    (hyields : ∀ names, p.content? ⟨u.url, .js⟩ = some (.script u.program names) →
      p.Yields ⟨u.url, .js⟩ (.error ()) (names.shown names.untouched)) :
    ((ModuleUnit.script u).withStatus (.errored e)).Lives p cells := by
  cases hmade with
  | @script _ names hcontent hlocals hexports =>
    refine ⟨fun v hv => (by cases hv), fun _ _ => ?_, fun hfinal => (by cases hfinal),
      fun u' hu' hb => by cases hu'; cases hb⟩
    change p.Yields ⟨u.url, .js⟩ _ (u.exports.read cells)
    rw [read_exports hexports, read_locals hlocals (h.fresh hbefore)]
    exact hyields names hcontent

/-- A library does not fail. -/
theorem not_errored (h : (ModuleUnit.bridge b).Lives p cells)
    (hmade : (ModuleUnit.bridge b).MadeFrom p) (e : LoadError) : b.status ≠ .errored e := by
  intro he
  cases hmade with
  | bridge hcontent hnames => cases ((h.errored e he).unique (.library hcontent)).1

end Lives

end ModuleUnit

namespace Store

variable {p : Project} {region : UnitId → Prop} {s s' t : Store} {x y id : UnitId}
  {unit other : ModuleUnit} {u : ScriptUnit} {b : Bridge}

/-! ## Stores -/

/-- All units are made from modules, are linked as these lead to each other, and have their cells to
themselves. What the functions of the host do depends on their arguments only. -/
structure Lives (p : Project) (s : Store) : Prop extends s.Follows p where
  functions : s.cells.functions = p.functions
  steady : p.functions.Steady
  lives : ∀ x unit, s.unit? x = some unit → unit.Lives p s.cells

/-- One unit goes on, and writes to its own cells at most. -/
theorem Lives.update (h : s.Lives p) (hframes : s.SameFrames s') (htables : s'.tables = s.tables)
    (hfunctions : s'.cells.functions = s.cells.functions) (hunit : s.unit? x = some unit)
    (hcells : Cells.KeptBut unit.own s.cells s'.cells)
    (hothers : ∀ z, x ≠ z → s'.unit? z = s.unit? z)
    (hself : ∀ unit', s'.unit? x = some unit' → unit'.Lives p s'.cells) : s'.Lives p where
  toFollows := h.toFollows.of_frames hframes hcells.size htables
  functions := hfunctions.trans h.functions
  steady := h.steady
  lives z new hnew := by
    by_cases hz : x = z
    · exact hself new (hz ▸ hnew)
    · rw [hothers z hz] at hnew
      exact (h.lives z new hnew).of_cells (h.made z new hnew) fun cell hcell =>
        hcells.read cell (h.apart z x new unit (Ne.symm hz) hnew hunit cell hcell)

/-- One unit gets a status. -/
theorem Lives.setStatus (h : s.Lives p) (hunit : s.unit? x = some unit) {status : Status}
    (hself : (unit.withStatus status).Lives p s.cells) : (s.setStatus x status).Lives p := by
  refine h.update (sameFrames_setStatus s x status) rfl rfl hunit (.refl _ _) (fun z hz => ?_)
    fun unit' hunit' => ?_
  · rw [Phase.unit?_setStatus, if_neg hz]
  · rw [Phase.unit?_setStatus, if_pos rfl, hunit] at hunit'
    cases hunit'
    exact hself

/-- The unit behind a specifier, and the module that it is for. -/
theorem Lives.behind (h : s.Lives p) (hd : s.DependsOn x y) (hu : s.unit? x = some (.script u))
    (hy : s.unit? y = some other) : ∃ specifier ∈ u.program.specifiers,
      u.dependencies.lookup specifier = some y ∧
        p.leads (ModuleUnit.script u).target specifier = .ok other.target := by
  obtain ⟨specifier, hin, hlookup⟩ := (dependsOn_of_script hu).mp hd
  exact ⟨specifier, hin, hlookup,
    h.links x y specifier _ other ((imports_of_script hu).mpr hlookup) hu hy⟩

/-! ## Bound units -/

/-- All that a unit reaches was entered. -/
def Deep (s : Store) (x : UnitId) : Prop :=
  ∀ y, ReflTransGen s.DependsOn x y → (s.status y).isEntered = true

/-- All that bound units reach was entered. -/
def Grounded (s : Store) : Prop := ∀ x, (s.status x).isBound = true → s.Deep x

theorem Deep.mono (h : s.Deep x)
    (hentered : ∀ y, (s.status y).isEntered = true → (s'.status y).isEntered = true)
    (hdepends : ∀ y z, (s.status y).isEntered = true → s'.DependsOn y z → s.DependsOn y z) :
    s'.Deep x := by
  have hpath : ∀ y, ReflTransGen s'.DependsOn x y → ReflTransGen s.DependsOn x y := by
    intro y hy
    induction hy with
    | refl => exact .refl
    | @tail y z _ hd ih => exact ih.tail (hdepends y z (h y ih) hd)
  exact fun y hy => hentered y (h y (hpath y hy))

theorem deep_of_dependencies (hx : (s.status x).isEntered = true)
    (hd : ∀ y, s.DependsOn x y → s.Deep y) : s.Deep x := by
  intro z hz
  rcases ReflTransGen.cases_head hz with rfl | ⟨y, hy, hyz⟩
  · exact hx
  · exact hd y hy z hyz

theorem Grounded.mono (h : s.Grounded)
    (hentered : ∀ y, (s.status y).isEntered = true → (s'.status y).isEntered = true)
    (hdepends : ∀ y z, (s.status y).isEntered = true → s'.DependsOn y z → s.DependsOn y z)
    (hbound : ∀ y, (s'.status y).isBound = true → (s.status y).isBound = true ∨ s'.Deep y) :
    s'.Grounded := fun x hx =>
  (hbound x hx).elim (fun hold => (h x hold).mono hentered hdepends) id

/-- One unit gets a status as one that was entered, and is not bound by it. -/
theorem Grounded.setStatus (h : s.Grounded) (hs : s.NoManifests) (hx : (s.unit? x).isSome = true)
    {status : Status} (hentered : status.isEntered = true)
    (hbound : status.isBound = true → (s.status x).isBound = true) :
    (s.setStatus x status).Grounded := by
  refine h.mono (fun y hy => ?_) (fun y z _ hd => ?_) fun y hy => ?_
  · rw [Phase.status_setStatus_of_there hs hx]
    split
    next => exact hentered
    next => exact hy
  · exact (sameShape_setStatus s x status).dependsOn.mp hd
  · rw [Phase.status_setStatus_of_there hs hx] at hy
    split at hy
    next hxy => exact .inl (hxy ▸ hbound hy)
    next => exact .inl hy

/-! ## Instantiation -/

/-- What a search that instantiates keeps. -/
structure Instantiates (p : Project) (region : UnitId → Prop) (t : Store) : Prop where
  lives : t.Lives p
  grounded : t.Grounded
  complete : ∀ x, region x → t.Complete x
  linked : ∀ x, region x → t.status x ≠ .unlinked
  closed : ∀ x y, region x → t.DependsOn x y → region y

namespace Instantiates

variable (h : t.Instantiates p region) (hx : region x)

include h

/-- A unit gets a status as one that was entered. -/
theorem setStatus (hunit : t.unit? x = some unit) {status : Status}
    (hentered : status.isEntered = true)
    (hbound : status.isBound = true → (t.status x).isBound = true)
    (hself : (unit.withStatus status).Lives p t.cells) :
    (t.setStatus x status).Instantiates p region := by
  have hs := h.lives.noManifests
  have hthere : (t.unit? x).isSome = true := by rw [hunit]; rfl
  refine ⟨h.lives.setStatus hunit hself, h.grounded.setStatus hs hthere hentered hbound,
    fun y hy => (sameShape_setStatus t x status).complete (h.complete y hy), fun y hy hstatus => ?_,
    fun y z hy hd => h.closed y z hy ((sameShape_setStatus t x status).dependsOn.mp hd)⟩
  rw [Phase.status_setStatus_of_there hs hthere] at hstatus
  split at hstatus
  next => rw [hstatus] at hentered; cases hentered
  next => exact h.linked y hy hstatus

/-- What the search is done with is bound. -/
theorem bound_of_done (hx : region x) (hdone : instantiation.Done t x) :
    (t.status x).isBound = true := by
  obtain ⟨unit, hunit, hanswer, hduring⟩ := hdone
  have hlinked := h.linked x hx
  have hmade := h.lives.made x unit hunit
  have hlives := h.lives.lives x unit hunit
  rw [status_of_unit? hunit] at hlinked ⊢
  cases unit with
  | script u =>
    cases hu : u.status <;>
      simp_all [instantiation, ModuleUnit.status, Status.isBound]
  | bridge b =>
    have hfine := hlives.not_errored hmade
    cases hb : b.status <;>
      simp_all [instantiation, ModuleUnit.status, Status.isBound]
  | manifest m => cases hmade

/-- What refuses has failed before. -/
theorem errored_of_refuses (hx : region x) {e : LoadError} (hrefuses : instantiation.Refuses t x e) :
    ∃ unit, t.unit? x = some unit ∧ unit.status = .errored e := by
  obtain ⟨unit, hunit, hanswer⟩ := hrefuses
  have hlinked := h.linked x hx
  rw [status_of_unit? hunit] at hlinked
  refine ⟨unit, hunit, ?_⟩
  cases unit with
  | script u =>
    cases hu : u.status <;> simp_all [instantiation, ModuleUnit.status]
  | bridge b =>
    cases hb : b.status <;> simp_all [instantiation]
  | manifest m => cases hanswer

theorem begin (hunit : t.unit? x = some unit) (hanswer : instantiation.answer unit = none) :
    (t.setStatus x instantiation.during).Instantiates p region := by
  have hstatus := status_of_answer_instantiation hanswer
  refine h.setStatus hunit rfl (fun hb => by cases hb) ?_
  exact (h.lives.lives x unit hunit).withStatus (by rw [hstatus]; rfl) rfl fun u _ hb => by cases hb

/-- A unit is bound when all that it depends on is. -/
theorem bind (hunit : t.unit? x = some unit)
    (hdone : ∀ y, t.DependsOn x y → (t.status y).isBound = true) (new : ModuleUnit)
    (hframes : t.SameFrames s') (htables : s'.tables = t.tables) (hcells : s'.cells = t.cells)
    (hothers : ∀ z, x ≠ z → s'.unit? z = t.unit? z) (hself : s'.unit? x = some new)
    (hstatus : new.status = .instantiated) (hlives : new.Lives p t.cells) :
    s'.Instantiates p region := by
  have hstatus' : s'.status x = .instantiated := (status_of_unit? hself).trans hstatus
  have hentered : ∀ y, (t.status y).isEntered = true → (s'.status y).isEntered = true := by
    intro y hy
    by_cases hxy : x = y
    · rw [← hxy, hstatus']
      rfl
    · rw [status_of_unit?_eq (hothers y hxy)]
      exact hy
  have hdepends : ∀ y z, (t.status y).isEntered = true → s'.DependsOn y z → t.DependsOn y z :=
    fun y z _ => hframes.shape.dependsOn.mp
  refine ⟨?_, h.grounded.mono hentered hdepends fun y hy => ?_,
    fun y hy => hframes.shape.complete (h.complete y hy), fun y hy hunlinked => ?_,
    fun y z hy hd => h.closed y z hy (hframes.shape.dependsOn.mp hd)⟩
  · refine h.lives.update hframes htables (by rw [hcells]) hunit (hcells ▸ .refl _ _) hothers
      fun other hother => ?_
    cases hself.symm.trans hother
    rw [hcells]
    exact hlives
  · by_cases hxy : x = y
    · subst hxy
      refine .inr (deep_of_dependencies (by rw [hstatus']; rfl) fun z hz => ?_)
      exact (h.grounded z (hdone z (hframes.shape.dependsOn.mp hz))).mono hentered hdepends
    · rw [status_of_unit?_eq (hothers y hxy)] at hy
      exact .inl hy
  · by_cases hxy : x = y
    · rw [← hxy, hstatus'] at hunlinked
      cases hunlinked
    · rw [status_of_unit?_eq (hothers y hxy)] at hunlinked
      exact h.linked y hy hunlinked

/-- A script whose imports cannot be bound asks for a name that is not exported. -/
theorem lacks (hx : region x) (hu : t.unit? x = some (.script u)) {e : LoadError}
    (herror : t.allImportCells u = .error e) {names : Script.Declarations}
    (hcontent : p.content? (ModuleUnit.script u).target = some (.script u.program names)) :
    p.Yields (ModuleUnit.script u).target (.error ()) (names.shown names.untouched) := by
  have hverdict := verdict_of_script (h.complete x hx) hu
  rw [herror] at hverdict
  unfold verdict at hverdict
  cases hfirst : (t.wants x).findSome? (t.lack? x) with
  | none => rw [hfirst] at hverdict; cases hverdict
  | some e' =>
    obtain ⟨w, hw, hlack⟩ := List.exists_of_findSome?_eq_some hfirst
    unfold lack? at hlack
    split at hlack
    next exporter hsource =>
      split at hlack
      next hnone =>
        rw [source?_of_script hu] at hsource
        obtain ⟨y, hlookup, hy⟩ := Option.bind_eq_some_iff.mp hsource
        obtain ⟨c, hc, hexported⟩ := (h.lives.made y exporter hy).exported
        rw [wants_of_script hu] at hw
        refine .lacks hcontent hw (h.lives.links x y w.specifier _ exporter
          ((imports_of_script hu).mpr hlookup) hu hy) hc ?_
        rw [← hexported, ← Scope.cell?_eq_none]
        exact Option.isNone_iff_eq_none.mp hnone
      next => cases hlack
    next => cases hlack

/-- A script that fails has not run. -/
theorem fail (hu : t.unit? x = some (.script u)) (hbefore : u.status.isFinal = false)
    (e : LoadError) (hyields : ∀ names,
      p.content? (ModuleUnit.script u).target = some (.script u.program names) →
        p.Yields (ModuleUnit.script u).target (.error ()) (names.shown names.untouched)) :
    (t.setStatus x (.errored e)).Instantiates p region :=
  h.setStatus hu rfl (fun hb => by cases hb)
    ((h.lives.lives x _ hu).giveUp (h.lives.made x _ hu) hbefore e hyields)

theorem turn (hx : region x) {r : Except LoadError Unit}
    (hunit : t.unit? x = some (unit.withStatus instantiation.during))
    (hdone : ∀ y, t.DependsOn x y → (t.status y).isBound = true)
    (hset : Phase.settle x (instantiation.act t x unit) = (s', r)) :
    s'.Instantiates p region := by
  have hlives := h.lives.lives x _ hunit
  cases unit with
  | script u =>
    simp only [instantiation, bindImports] at hset
    cases hcells : t.allImportCells u with
    | error e =>
      rw [hcells] at hset
      cases hset
      exact h.fail hunit rfl e fun names => h.lacks hx hunit hcells
    | ok imports =>
      rw [hcells] at hset
      cases hset
      have hnames := (import_of_ok (h.complete x hx) hunit hcells).1
      refine h.bind hunit hdone (.script { u with imports, status := .instantiated })
        ((sameFrames_change t x fun unit => by cases unit <;> rfl).trans
          (sameFrames_setStatus _ x _)) rfl rfl (fun z hz => ?_) ?_ rfl
        ⟨fun v hv => (by cases hv), fun e he => (by cases he), fun _ => hlives.fresh rfl,
          fun u' hu' _ => by cases hu'; exact hnames⟩
      · unfold changeScript
        rw [Phase.unit?_setStatus, if_neg hz, unit?_change, if_neg hz]
      · unfold changeScript
        rw [Phase.unit?_setStatus, if_pos rfl, unit?_change, if_pos rfl, hunit]
        rfl
  | bridge b =>
    cases hset
    refine h.bind hunit hdone (.bridge { b with status := .instantiated })
      (sameFrames_setStatus t x _) rfl rfl (fun z hz => ?_) ?_ rfl
      ⟨fun v hv => (by cases hv), fun e he => (by cases he), fun _ => hlives.fresh rfl,
        fun u' hu' _ => by cases hu'⟩
    · rw [Phase.unit?_setStatus, if_neg hz]
    · rw [Phase.unit?_setStatus, if_pos rfl, hunit]
      rfl
  | manifest m => cases h.lives.made x _ hunit

/-- A unit gives up because of one that has failed. -/
theorem abort (hunit : t.unit? x = some (unit.withStatus instantiation.during)) (e : LoadError)
    (hfailed : ∃ y, region y ∧ t.DependsOn x y ∧ instantiation.Refuses t y e) :
    (t.setStatus x (.errored e)).Instantiates p region := by
  obtain ⟨y, hy, hd, hrefuses⟩ := hfailed
  obtain ⟨other, hother, hstatus⟩ := h.errored_of_refuses hy hrefuses
  obtain ⟨u, hu⟩ := hd.exists_script
  refine h.fail hu ?_ e fun names hcontent => ?_
  · rw [hu] at hunit
    cases unit with
    | script v => cases hunit; rfl
    | bridge b => cases hunit
    | manifest m => cases hunit
  · obtain ⟨specifier, hin, -, hleads⟩ := h.lives.behind hd hu hother
    exact .stuck hcontent hin hleads ((h.lives.lives y other hother).errored e hstatus)

end Instantiates

/-! ## Evaluation -/

/-- What a script imports reads as the exports of the units behind its specifiers do. -/
theorem read_imports {u : ScriptUnit} {behind : String → ModuleUnit}
    (hnames : u.imports.map Prod.fst = u.program.wants.map Script.Want.here)
    (hwants : ∀ w ∈ u.program.wants, ∃ cell, (behind w.specifier).export? w.imported = some cell ∧
      u.imports.cell? w.here = some cell) (cells : Cells) (name : String) :
    (u.imports.cell? name).map cells.read =
      u.program.imported (fun specifier => (behind specifier).exports.read cells) name := by
  unfold Script.Program.imported
  cases hfind : u.program.wants.find? fun w => w.here = name with
  | none =>
    have hnone : u.imports.cell? name = none := by
      rw [Scope.cell?_eq_none, hnames]
      rintro hin
      obtain ⟨w, hw, hhere⟩ := List.mem_map.mp hin
      exact absurd (decide_eq_true hhere) (List.find?_eq_none.mp hfind w hw)
    rw [hnone]
    rfl
  | some w =>
    obtain ⟨cell, hcell, himport⟩ := hwants w (List.mem_of_find?_eq_some hfind)
    have hhere : w.here = name := by simpa using List.find?_some hfind
    rw [hhere] at himport
    rw [himport, Option.bind_some, Scope.lookup_read,
      show (behind w.specifier).exports.cell? w.imported = some cell from hcell]

/-- What a search that evaluates keeps. -/
structure Evaluates (p : Project) (region : UnitId → Prop) (t : Store) : Prop where
  lives : t.Lives p
  grounded : t.Grounded
  bound : t.Bound
  made : t.WellMade
  entered : ∀ x, region x → (t.status x).isEntered = true ∧ t.status x ≠ .instantiating

namespace Evaluates

variable (h : t.Evaluates p region)

include h

/-- What the search is done with has run. -/
theorem evaluated_of_done (hdone : evaluation.Done t x) :
    ∃ unit v, t.unit? x = some unit ∧ unit.status = .evaluated v := by
  obtain ⟨unit, hunit, hanswer, hduring⟩ := hdone
  refine ⟨unit, ?_⟩
  cases unit with
  | script u =>
    cases hu : u.status <;> simp_all [evaluation, ModuleUnit.status, replay, Except.map]
  | bridge b =>
    cases hb : b.status <;> simp_all [evaluation, ModuleUnit.status, replay, Except.map]
  | manifest m => cases h.lives.made x _ hunit

/-- What refuses has failed before. -/
theorem errored_of_refuses (hx : region x) {e : LoadError} (hrefuses : evaluation.Refuses t x e) :
    ∃ unit, t.unit? x = some unit ∧ unit.status = .errored e := by
  obtain ⟨unit, hunit, hanswer⟩ := hrefuses
  obtain ⟨hentered, hresting⟩ := h.entered x hx
  rw [status_of_unit? hunit] at hentered hresting
  refine ⟨unit, hunit, ?_⟩
  cases unit with
  | script u =>
    cases hu : u.status <;>
      simp_all [evaluation, ModuleUnit.status, replay, Except.map, Status.isEntered]
  | bridge b =>
    cases hb : b.status <;>
      simp_all [evaluation, ModuleUnit.status, replay, Except.map, Status.isEntered]
  | manifest m => cases hanswer

theorem begin (hunit : t.unit? x = some unit) (hanswer : evaluation.answer unit = none) :
    (t.setStatus x evaluation.during).Evaluates p region := by
  have hstatus := status_of_answer_evaluation hanswer
  have hs := h.lives.noManifests
  have hthere : (t.unit? x).isSome = true := by rw [hunit]; rfl
  have hlives := h.lives.lives x unit hunit
  refine ⟨h.lives.setStatus hunit (hlives.withStatus (by rw [hstatus]; rfl) rfl fun u hu _ => ?_),
    h.grounded.setStatus hs hthere rfl fun _ => ?_, h.bound.begin_evaluation hunit hanswer,
    (sameFrames_setStatus t x _).wellMade h.made, fun y hy => ?_⟩
  · subst hu
    exact hlives.named u rfl (by rw [show u.status = .instantiated from hstatus]; rfl)
  · rw [status_of_unit? hunit, hstatus]
    rfl
  · rw [Phase.status_setStatus_of_there hs hthere]
    split
    next => exact ⟨rfl, fun h => by cases h⟩
    next => exact h.entered y hy

/-- A unit that was running is done. -/
theorem finish (hunit : t.unit? x = some unit) (hrunning : unit.status = .evaluating)
    (new : ModuleUnit) (hframes : t.SameFrames s') (htables : s'.tables = t.tables)
    (hfunctions : s'.cells.functions = t.cells.functions)
    (hcells : Cells.KeptBut unit.own t.cells s'.cells)
    (hothers : ∀ z, x ≠ z → s'.unit? z = t.unit? z) (hself : s'.unit? x = some new)
    (hfinal : new.status.isFinal = true) (hlives : new.Lives p s'.cells) (hbound : s'.Bound) :
    s'.Evaluates p region := by
  have hstatus : s'.status x = new.status := status_of_unit? hself
  have hentered : ∀ y, (t.status y).isEntered = true → (s'.status y).isEntered = true := by
    intro y hy
    by_cases hxy : x = y
    · rw [← hxy, hstatus]
      cases hnew : new.status <;> simp_all [Status.isFinal, Status.isEntered]
    · rw [status_of_unit?_eq (hothers y hxy)]
      exact hy
  refine ⟨?_, h.grounded.mono hentered (fun y z _ => hframes.shape.dependsOn.mp) fun y hy => .inl ?_,
    hbound, hframes.wellMade h.made, fun y hy => ⟨hentered y (h.entered y hy).1, fun hy' => ?_⟩⟩
  · refine h.lives.update hframes htables hfunctions hunit hcells hothers fun other hother => ?_
    cases hself.symm.trans hother
    exact hlives
  · by_cases hxy : x = y
    · rw [← hxy, status_of_unit? hunit, hrunning]
      rfl
    · rw [status_of_unit?_eq (hothers y hxy)] at hy
      exact hy
  · by_cases hxy : x = y
    · rw [← hxy, hstatus] at hy'
      rw [hy'] at hfinal
      cases hfinal
    · rw [status_of_unit?_eq (hothers y hxy)] at hy'
      exact (h.entered y hy).2 hy'

/-- What the units behind the specifiers of a running script are. -/
theorem behind (hu : t.unit? x = some (.script u)) (hrunning : u.status = .evaluating)
    (hdone : ∀ y, t.DependsOn x y → evaluation.Done t y) {specifier : String}
    (hin : specifier ∈ u.program.specifiers) : ∃ y other v, x ≠ y ∧
      t.source? x specifier = some other ∧ t.unit? y = some other ∧ other.status = .evaluated v ∧
      p.leads (ModuleUnit.script u).target specifier = .ok other.target := by
  obtain ⟨y, hlookup⟩ := (h.bound x u hu (by rw [hrunning]; rfl)).1 specifier hin
  obtain ⟨other, v, hother, hstatus⟩ :=
    h.evaluated_of_done (hdone y ((dependsOn_of_script hu).mpr ⟨specifier, hin, hlookup⟩))
  refine ⟨y, other, v, fun heq => ?_, ?_, hother, hstatus,
    h.lives.links x y specifier _ other ((imports_of_script hu).mpr hlookup) hu hother⟩
  · subst heq
    cases hu.symm.trans hother
    rw [show (ModuleUnit.script u).status = u.status from rfl, hrunning] at hstatus
    cases hstatus
  · rw [source?_of_script hu, hlookup]
    exact hother

/-- A script whose turn it is comes to what its module comes to. -/
theorem runs (hu : t.unit? x = some (.script u)) (hrunning : u.status = .evaluating)
    (hdone : ∀ y, t.DependsOn x y → evaluation.Done t y) :
    p.Yields (ModuleUnit.script u).target
      ((u.program.run ⟨u.locals, u.imports⟩ t.cells).2.mapError fun _ => ())
      (u.exports.read (u.program.run ⟨u.locals, u.imports⟩ t.cells).1) := by
  have hmade := h.lives.made x _ hu
  have hlives := h.lives.lives x _ hu
  have hnamed : u.Named := h.made x _ hu
  have hbound : u.status.isBound = true := by rw [hrunning]; rfl
  have hnames := hlives.named u rfl hbound
  have htotal : ∀ specifier, ∃ y other v, specifier ∈ u.program.specifiers → x ≠ y ∧
      t.source? x specifier = some other ∧ t.unit? y = some other ∧ other.status = .evaluated v ∧
      p.leads (ModuleUnit.script u).target specifier = .ok other.target := by
    intro specifier
    by_cases hin : specifier ∈ u.program.specifiers
    · obtain ⟨y, other, v, hall⟩ := h.behind hu hrunning hdone hin
      exact ⟨y, other, v, fun _ => hall⟩
    · exact ⟨x, .script u, none, fun h => absurd h hin⟩
  choose y other v hbehind using htotal
  have hwant : ∀ w ∈ u.program.wants, ∃ cell, (other w.specifier).export? w.imported = some cell ∧
      u.imports.cell? w.here = some cell := fun w hw =>
    (h.bound x u hu hbound).2 w (by rwa [wants_of_script hu]) _
      (hbehind w.specifier (specifier_of_want hw)).2.1
  cases hmade with
  | @script _ names hcontent hlocals hexports =>
    rw [ModuleUnit.read_exports hexports]
    refine @Project.Yields.ran p _ u.program names (fun specifier => (other specifier).target) v
      (fun specifier => (other specifier).exports.read t.cells) ⟨u.locals, u.imports⟩ t.cells
      hcontent (fun specifier hin => (hbehind specifier hin).2.2.2.2) (fun specifier hin => ?_)
      (fun w hw => ?_) ⟨(h.lives.made x _ hu).own_named, h.lives.distinct x _ hu,
        h.lives.there x _ hu, fun e he => ?_⟩ (Prod.ext ?_ (funext fun name => ?_)) h.lives.functions
    · obtain ⟨-, -, hother, hstatus, -⟩ := hbehind specifier hin
      exact (h.lives.lives _ _ hother).evaluated _ hstatus
    · obtain ⟨cell, hcell, -⟩ := hwant w hw
      rw [Scope.lookup_read, show (other w.specifier).exports.cell? w.imported = some cell from hcell]
      rfl
    · -- an imported cell is one that the unit behind the specifier has to itself
      have hname : e.1 ∈ u.imports.map Prod.fst := List.mem_map_of_mem he
      rw [hnames] at hname
      obtain ⟨w, hw, hhere⟩ := List.mem_map.mp hname
      obtain ⟨cell, hcell, himport⟩ := hwant w hw
      have hself := Scope.cell?_of_mem (hnames ▸ hnamed.imported) (show (e.1, e.2) ∈ u.imports from he)
      rw [← hhere, himport] at hself
      obtain ⟨hne, -, hother, -, -⟩ := hbehind w.specifier (specifier_of_want hw)
      have hown := (h.lives.made _ _ hother).exports_own (Scope.mem_of_cell? hcell)
      rw [← Option.some.inj hself]
      exact h.lives.apart _ x _ _ (Ne.symm hne) hother hu cell hown
    · exact ModuleUnit.read_locals hlocals (hlives.fresh (by
        rw [show (ModuleUnit.script u).status = u.status from rfl, hrunning]; rfl))
    · exact read_imports hnames hwant t.cells name

/-- A script gives up or fails without having run. -/
theorem fail (hu : t.unit? x = some (.script u)) (hrunning : u.status = .evaluating)
    (e : LoadError) (hyields : ∀ names,
      p.content? (ModuleUnit.script u).target = some (.script u.program names) →
        p.Yields (ModuleUnit.script u).target (.error ()) (names.shown names.untouched)) :
    (t.setStatus x (.errored e)).Evaluates p region := by
  refine h.finish hu hrunning ((ModuleUnit.script u).withStatus (.errored e))
    (sameFrames_setStatus t x _) rfl rfl (.refl _ _) (fun z hz => ?_) ?_ rfl
    ((h.lives.lives x _ hu).giveUp (h.lives.made x _ hu) (by rw [hrunning]; rfl) e hyields)
    (h.bound.setStatus fun hb => by cases hb)
  · rw [Phase.unit?_setStatus, if_neg hz]
  · rw [Phase.unit?_setStatus, if_pos rfl, hu]
    rfl

/-- A script runs. -/
theorem run (u : ScriptUnit) (hu : t.unit? x = some (.script { u with status := .evaluating }))
    (hdone : ∀ y, t.DependsOn x y → evaluation.Done t y) {status : Status}
    (hstatus : match (u.program.run ⟨u.locals, u.imports⟩ t.cells).2 with
      | .ok v => status = .evaluated v
      | .error _ => ∃ e, status = .errored e)
    (hbound : ({ t with cells :=
      (u.program.run ⟨u.locals, u.imports⟩ t.cells).1 }.setStatus x status).Bound) :
    ({ t with cells :=
      (u.program.run ⟨u.locals, u.imports⟩ t.cells).1 }.setStatus x status).Evaluates p region := by
  have hyields := h.runs hu rfl hdone
  have hnames := (h.lives.lives x _ hu).named _ rfl rfl
  have hkeeps := u.program.run_keeps ⟨u.locals, u.imports⟩ t.cells
  have hfunctions : (u.program.run ⟨u.locals, u.imports⟩ t.cells).1.functions = t.cells.functions :=
    u.program.functions_run (h.lives.functions ▸ h.lives.steady)
  dsimp only at hyields
  generalize u.program.run ⟨u.locals, u.imports⟩ t.cells = ran
    at hstatus hbound hyields hkeeps hfunctions ⊢
  obtain ⟨cells, result⟩ := ran
  have hfinal : status.isFinal = true := by
    cases result with
    | ok v => rw [show status = .evaluated v from hstatus]; rfl
    | error fault => obtain ⟨e, rfl⟩ := hstatus; rfl
  refine h.finish hu rfl (.script { u with status })
    (sameFrames_setStatus { t with cells } x status) rfl hfunctions hkeeps (fun z hz => ?_) ?_ hfinal
    ⟨fun v hv => ?_, fun e he => ?_, fun hfresh => ?_, fun u' hu' _ => ?_⟩ hbound
  · exact (Phase.unit?_setStatus { t with cells } x status z).trans (if_neg hz)
  · refine (Phase.unit?_setStatus { t with cells } x status x).trans ?_
    rw [if_pos rfl, show ({ t with cells } : Store).unit? x = t.unit? x from rfl, hu]
    rfl
  · change status = _ at hv
    cases result with
    | ok v' =>
      cases hv.symm.trans hstatus
      exact hyields
    | error fault => obtain ⟨e, rfl⟩ := hstatus; cases hv
  · change status = _ at he
    cases result with
    | ok v' => cases he.symm.trans hstatus
    | error fault => exact hyields
  · rw [show (ModuleUnit.script { u with status }).status = status from rfl, hfinal] at hfresh
    cases hfresh
  · cases hu'
    exact hnames

/-- A library gets its values. -/
theorem fill (hb : t.unit? x = some (.bridge { b with status := .evaluating }))
    (hbound : ((t.runExecutor x b).1.setStatus x (.evaluated none)).Bound) :
    (t.runExecutor x b).2 = .ok () ∧
      ((t.runExecutor x b).1.setStatus x (.evaluated none)).Evaluates p region := by
  have hmade := h.lives.made x _ hb
  obtain ⟨-, library, hregistered, hexecutor⟩ := (h.lives.lives x _ hb).fresh rfl
  dsimp only at hregistered hexecutor
  have hcontent := Project.content?_of_library hregistered
  let value (name : String) : Value := ((t.tables.read library.table).get? name).getD .undefined
  have hran : t.runExecutor x b = (({ t with cells := b.exports.fill value t.cells }).changeBridge x
      fun b => { b with executor := none }, .ok ()) := by
    unfold runExecutor
    rw [hexecutor]
    rfl
  rw [hran] at hbound ⊢
  have hkeeps := b.exports.fill_keeps value t.cells
  refine ⟨rfl, h.finish hb rfl (.bridge { b with executor := none, status := .evaluated none })
    ((sameFrames_change { t with cells := _ } x fun unit => by cases unit <;> rfl).trans
      (sameFrames_setStatus _ x _)) rfl (b.exports.functions_fill value t.cells) hkeeps
    (fun z hz => ?_) ?_ rfl
    ⟨fun v hv => ?_, fun e he => (by cases he), fun hfresh => (by cases hfresh),
      fun u hu _ => by cases hu⟩ hbound⟩
  · unfold changeBridge
    rw [Phase.unit?_setStatus, if_neg hz, unit?_change, if_neg hz]
    rfl
  · unfold changeBridge
    rw [Phase.unit?_setStatus, if_pos rfl, unit?_change, if_pos rfl,
      show ({ t with cells := b.exports.fill value t.cells } : Store).unit? x = t.unit? x from rfl,
      hb]
    rfl
  · cases hv
    have hread := Scope.read_fill value (h.lives.distinct x _ hb) (h.lives.there x _ hb)
    cases hmade with
    | bridge hcontent' hnames =>
      cases hcontent.symm.trans hcontent'
      show p.Yields ⟨b.url, .builtin⟩ (.ok none) (b.exports.read _)
      have hlibrary := Project.Yields.library hcontent
      rw [← hnames, List.map_map, ← h.lives.tables] at hlibrary
      exact hread ▸ hlibrary

theorem turn {r : Except LoadError Unit}
    (hunit : t.unit? x = some (unit.withStatus evaluation.during))
    (hanswer : evaluation.answer unit = none)
    (hdone : ∀ y, t.DependsOn x y → evaluation.Done t y)
    (hset : Phase.settle x (evaluation.act t x unit) = (s', r)) : s'.Evaluates p region := by
  have hbound := h.bound.turn_evaluation hunit hanswer hset
  cases unit with
  | script u =>
    simp only [evaluation, runBody] at hset
    cases hran : (u.program.run ⟨u.locals, u.imports⟩ t.cells).2 with
    | ok v =>
      rw [hran] at hset
      cases hset
      exact h.run u hunit hdone (by rw [hran]) hbound
    | error fault =>
      rw [hran] at hset
      cases hset
      exact h.run u hunit hdone (by rw [hran]; exact ⟨_, rfl⟩) hbound
  | bridge b =>
    simp only [evaluation] at hset
    have hok : (t.runExecutor x b).2 = .ok () := by
      obtain ⟨-, library, -, hexecutor⟩ := (h.lives.lives x _ hunit).fresh rfl
      dsimp only at hexecutor
      unfold runExecutor
      rw [hexecutor]
      rfl
    rw [hok] at hset
    cases hset
    exact (h.fill hunit hbound).2
  | manifest m => cases hanswer

/-- A unit gives up because of one that has failed. -/
theorem abort (hunit : t.unit? x = some (unit.withStatus evaluation.during)) (e : LoadError)
    (hfailed : ∃ y, region y ∧ t.DependsOn x y ∧ evaluation.Refuses t y e) :
    (t.setStatus x (.errored e)).Evaluates p region := by
  obtain ⟨y, hy, hd, hrefuses⟩ := hfailed
  obtain ⟨other, hother, hstatus⟩ := h.errored_of_refuses hy hrefuses
  obtain ⟨u, hu⟩ := hd.exists_script
  refine h.fail hu ?_ e fun names hcontent => ?_
  · rw [hu] at hunit
    cases unit with
    | script v => cases hunit; rfl
    | bridge b => cases hunit
    | manifest m => cases hunit
  · obtain ⟨specifier, hin, -, hleads⟩ := h.lives.behind hd hu hother
    exact .stuck hcontent hin hleads ((h.lives.lives y other hother).errored e hstatus)

end Evaluates

/-! ## Calls -/

/-- No unit waits in a store between calls. -/
theorem Consistent.waits (hs : s.Consistent) {phase : Phase}
    (hduring : phase.during = .instantiating ∨ phase.during = .evaluating)
    (targets : List (Except LoadError UnitId)) : phase.Waits s targets := by
  intro z hz
  rcases hduring with h | h
  · exact absurd (hz.trans h) (hs.resting z).1
  · exact absurd (hz.trans h) (hs.resting z).2

/-- An instantiation binds all that it reaches, or the unit has failed as its module does. -/
theorem Lives.instantiate (h : s.Lives p) (hgrounded : s.Grounded) (hs : s.Consistent)
    (hthere : ∀ x, region x → (s.unit? x).isSome = true)
    (hcomplete : ∀ x, region x → s.Complete x) (hlinked : ∀ x, region x → s.status x ≠ .unlinked)
    (hclosed : ∀ x y, region x → s.DependsOn x y → region y)
    (hacyclic : ∀ x, region x → ¬ TransGen s.DependsOn x x) (hid : region id) :
    (s.instantiate id).1.Lives p ∧ (s.instantiate id).1.Grounded ∧
      ((s.instantiate id).2 = .ok () → (s.instantiate id).1.Deep id) ∧
      ∀ e, (s.instantiate id).2 = .error e → (s.instantiate id).1.status id = .errored e := by
  obtain ⟨log, hruns⟩ := instantiate_runs hs.noManifests id
  have htrees : instantiation.Trees region s := ⟨hs.noManifests, hthere, fun x unit hx hunit _ =>
    ⟨targets_of_complete hs.noManifests (hcomplete x hx) hunit,
      fun y hy => hclosed x y hx (mem_children.mp hy)⟩, hacyclic⟩
  have hsettles := hruns.induction_acyclic instantiation_lawful
    (P := Instantiates p region)
    (fun t x unit ht hx hunit hanswer => ht.begin hunit hanswer)
    (fun t x unit t' r ht hx hunit hanswer hdone hset => ht.turn hx hunit
      (fun y hd => ht.bound_of_done (ht.closed x y hx hd) (hdone y hd)) hset)
    (fun t x unit e ht hx hunit hanswer hfailed => ht.abort hunit e hfailed)
    ⟨h, hgrounded, hcomplete, hlinked, hclosed⟩ htrees
    (fun target htarget => ⟨id, List.mem_singleton.mp htarget, hid⟩)
    (hs.waits (.inl rfl) _)
  have hkept := hsettles.kept
  refine ⟨hkept.lives, hkept.grounded, fun hok => ?_, fun e he => ?_⟩
  · exact hkept.grounded id (hkept.bound_of_done hid (hsettles.done hok id (by simp)))
  · obtain ⟨y, hy, hrefuses⟩ := hsettles.failed e he
    cases List.mem_singleton.mp hy
    obtain ⟨unit, hunit, hstatus⟩ := hkept.errored_of_refuses hid hrefuses
    rw [status_of_unit? hunit, hstatus]

/-- An evaluation leaves the unit as what comes of its module. -/
theorem Lives.evaluate (h : s.Lives p) (hgrounded : s.Grounded) (hs : s.Consistent)
    (hacyclic : ∀ x, ReflTransGen s.DependsOn id x → ¬ TransGen s.DependsOn x x)
    (hdeep : s.Deep id) :
    (s.evaluate id).1.Lives p ∧ (s.evaluate id).1.Grounded ∧
      ((∃ v, (s.evaluate id).1.status id = .evaluated v ∧ (s.evaluate id).2 = .ok v) ∨
        ∃ e, (s.evaluate id).1.status id = .errored e ∧ (s.evaluate id).2 = .error e) := by
  let region (x : UnitId) : Prop := ReflTransGen s.DependsOn id x
  have hid : region id := .refl
  have hthere : ∀ x, region x → (s.unit? x).isSome = true := fun x hx => by
    obtain ⟨unit, hunit⟩ := exists_unit_of_status (s := s) (x := x) fun hunlinked => by
      have hentered := hdeep x hx
      rw [hunlinked] at hentered
      cases hentered
    rw [hunit]
    rfl
  have hcomplete : ∀ x unit, region x → s.unit? x = some unit → evaluation.answer unit = none →
      s.Complete x := by
    intro x unit hx hunit hanswer u hu specifier hin
    cases hunit.symm.trans hu
    have hstatus : u.status = .instantiated := status_of_answer_evaluation hanswer
    obtain ⟨y, hlookup⟩ := (hs.bound x u hu (by rw [hstatus]; rfl)).1 specifier hin
    exact ⟨y, hlookup, hthere y (hx.tail ((dependsOn_of_script hu).mpr ⟨specifier, hin, hlookup⟩))⟩
  obtain ⟨log, hruns⟩ := evaluate_runs hs.noManifests id
  have htrees : evaluation.Trees region s := ⟨hs.noManifests, hthere, fun x unit hx hunit hanswer =>
    ⟨targets_of_complete hs.noManifests (hcomplete x unit hx hunit hanswer) hunit,
      fun y hy => hx.tail (mem_children.mp hy)⟩, hacyclic⟩
  have hsettles := hruns.induction_acyclic evaluation_lawful (P := Evaluates p region)
    (fun t x unit ht hx hunit hanswer => ht.begin hunit hanswer)
    (fun t x unit t' r ht hx hunit hanswer hdone hset => ht.turn hunit hanswer hdone hset)
    (fun t x unit e ht hx hunit hanswer hfailed => ht.abort hunit e hfailed)
    ⟨h, hgrounded, hs.bound, hs.made, fun x hx => ⟨hdeep x hx, (hs.resting x).1⟩⟩ htrees
    (fun target htarget => ⟨id, List.mem_singleton.mp htarget, hid⟩)
    (hs.waits (.inr rfl) _)
  obtain ⟨unit, hunit⟩ := Option.isSome_iff_exists.mp (hthere id hid)
  have hreplay : (s.evaluate id).2 = replay unit.url ((s.evaluate id).1.status id) :=
    evaluateWithin_replay hs.plain _ hunit
  refine ⟨hsettles.kept.lives, hsettles.kept.grounded, ?_⟩
  cases hresult : (s.evaluate id).2 with
  | ok v =>
    left
    obtain ⟨new, v', hnew, hstatus⟩ :=
      hsettles.kept.evaluated_of_done (hsettles.done (by rw [hresult]; rfl) id (by simp))
    rw [status_of_unit? hnew, hstatus, hresult] at hreplay
    rw [status_of_unit? hnew, hstatus]
    cases hreplay
    exact ⟨v, rfl, rfl⟩
  | error e =>
    right
    obtain ⟨y, hy, hrefuses⟩ := hsettles.failed e (by rw [hresult]; rfl)
    cases List.mem_singleton.mp hy
    obtain ⟨new, hnew, hstatus⟩ := hsettles.kept.errored_of_refuses hid hrefuses
    exact ⟨e, by rw [status_of_unit? hnew, hstatus], rfl⟩

end Store

end ModuleLoader
