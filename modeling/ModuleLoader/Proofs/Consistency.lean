import ModuleLoader.Proofs.Binding
import ModuleLoader.Proofs.Searches
/-!
# Consistent stores

What holds of the units of a store between calls, whoever made, linked, instantiated, evaluated or
dropped them in whatever order.

Results:
1. `Consistent`: units are well made, no call is at work in them, and bound names are bound right.
2. `Consistent.of_units`, `Consistent.change`: changes from outside that keep a store consistent.
3. `Consistent.instantiate`, `Consistent.evaluate`: so do instantiations and evaluations.
-/
namespace ModuleLoader

/-- A unit of a script that was compiled, or of a table that was bridged. -/
def ModuleUnit.WellMade : ModuleUnit → Prop
  | script u => u.Named
  | bridge b => (b.exports.map Prod.fst).Nodup
  | manifest _ => False

theorem ModuleUnit.wellMade_frame {unit : ModuleUnit} : unit.frame.WellMade ↔ unit.WellMade := by
  cases unit with
  | script u => exact ⟨fun h => ⟨h.1, h.2, h.3, h.4⟩, fun h => ⟨h.1, h.2, h.3, h.4⟩⟩
  | bridge b => exact Iff.rfl
  | manifest m => exact Iff.rfl

theorem ModuleUnit.WellMade.exported {unit : ModuleUnit} (h : unit.WellMade) :
    (unit.exports.map Prod.fst).Nodup := by
  cases unit with
  | script u => exact ScriptUnit.Named.exported h
  | bridge b => exact h
  | manifest m => exact h.elim

namespace Store

variable {s s' t : Store} {x y id : UnitId} {u : ScriptUnit} {unit : ModuleUnit}

def WellMade (s : Store) : Prop := ∀ x unit, s.unit? x = some unit → unit.WellMade

/-- The imports of every bound script are those that it asks for. -/
def Bound (s : Store) : Prop :=
  ∀ x u, s.unit? x = some (.script u) → u.status.isBound = true →
    (∀ specifier ∈ u.program.specifiers, ∃ y, u.dependencies.lookup specifier = some y) ∧
      s.Binds x u.imports

/-- What holds of a store between calls. -/
structure Consistent (s : Store) : Prop where
  made : s.WellMade
  /-- Bridges need no linking. -/
  linked : ∀ x b, s.unit? x = some (.bridge b) → b.status ≠ .unlinked
  resting : ∀ x, s.status x ≠ .instantiating ∧ s.status x ≠ .evaluating
  /-- What a bound unit imports from is entered itself, as long as it is there. -/
  closed : ∀ x y, (s.status x).isBound = true → s.DependsOn x y → (s.unit? y).isSome = true →
    (s.status y).isEntered = true
  bound : s.Bound
  /-- Only units that were there already are recorded. -/
  known : ∀ x specifier y, s.Imports x specifier y → y.index < s.units.size

/-! ## Frames -/

theorem SameFrames.symm (h : s.SameFrames s') : s'.SameFrames s := fun x => (h x).symm

theorem SameFrames.exists_unit (h : s.SameFrames s') (hunit : s'.unit? x = some unit) :
    ∃ old, s.unit? x = some old ∧ old.frame = unit.frame := by
  have hx := h x
  rw [hunit] at hx
  exact Option.map_eq_some_iff.mp hx.symm

theorem SameFrames.wellMade (h : s.SameFrames s') (hs : s.WellMade) : s'.WellMade := by
  intro x unit hunit
  obtain ⟨old, hold, hframe⟩ := h.exists_unit hunit
  rw [← ModuleUnit.wellMade_frame, ← hframe, ModuleUnit.wellMade_frame]
  exact hs x old hold

theorem SameFrames.script (h : s.SameFrames s') (hu : s'.unit? x = some (.script u)) :
    ∃ old, s.unit? x = some (.script old) ∧ old.url = u.url ∧ old.program = u.program ∧
      old.locals = u.locals ∧ old.exports = u.exports ∧ old.dependencies = u.dependencies := by
  obtain ⟨old, hold, hframe⟩ := h.exists_unit hu
  cases old with
  | script old =>
    simp only [ModuleUnit.frame, ModuleUnit.script.injEq, ScriptUnit.mk.injEq] at hframe
    obtain ⟨hurl, hprogram, hlocals, hexports, -, hdependencies, -⟩ := hframe
    exact ⟨old, hold, hurl, hprogram, hlocals, hexports, hdependencies⟩
  | bridge b => cases hframe
  | manifest m => cases hframe

theorem SameShape.wants (h : s.SameShape s') (x : UnitId) : s'.wants x = s.wants x := by
  unfold Store.wants
  rw [h x]

theorem SameFrames.source (h : s.SameFrames s') {specifier : String} {exporter : ModuleUnit}
    (hsource : s'.source? x specifier = some exporter) :
    ∃ old, s.source? x specifier = some old ∧ old.url = exporter.url ∧
      old.exports = exporter.exports := by
  unfold Store.source? at hsource ⊢
  rw [h.shape x] at hsource
  split at hsource
  next url program dependencies hshape =>
    obtain ⟨y, hlookup, hy⟩ := Option.bind_eq_some_iff.mp hsource
    obtain ⟨old, hold, hframe⟩ := h.exists_unit hy
    rw [hlookup]
    refine ⟨old, hold, ?_⟩
    cases old <;> cases exporter <;> simp_all [ModuleUnit.frame, ModuleUnit.url, ModuleUnit.exports]
  next => cases hsource

theorem SameFrames.binds (h : s.SameFrames s') {imports : Scope} (hs : s.Binds x imports) :
    s'.Binds x imports := by
  intro w hw exporter hexporter
  rw [h.shape.wants] at hw
  obtain ⟨old, hold, -, hexports⟩ := h.source hexporter
  obtain ⟨cell, hcell, himport⟩ := hs w hw old hold
  unfold ModuleUnit.export? at hcell ⊢
  exact ⟨cell, hexports ▸ hcell, himport⟩

/-- Nothing is bound now that was not, and to nothing else. -/
theorem Bound.of_frames (h : s.Bound) (hframes : s.SameFrames s')
    (hunits : ∀ x u, s'.unit? x = some (.script u) → u.status.isBound = true →
      ∃ old, s.unit? x = some (.script old) ∧ old.status.isBound = true ∧
        old.imports = u.imports) : s'.Bound := by
  intro x u hu hbound
  obtain ⟨old, hold, hwas, himports⟩ := hunits x u hu hbound
  obtain ⟨same, hsame, -, hprogram, -, -, hdependencies⟩ := hframes.script hu
  cases hold.symm.trans hsame
  obtain ⟨hrecorded, hbinds⟩ := h x old hold hwas
  rw [hprogram, hdependencies] at hrecorded
  rw [himports] at hbinds
  exact ⟨hrecorded, hframes.binds hbinds⟩

/-- One unit gets a status, and it was bound before if it is now. -/
theorem Bound.setStatus (h : s.Bound) {status : Status}
    (hbound : status.isBound = true → (s.status id).isBound = true) :
    (s.setStatus id status).Bound := by
  refine h.of_frames (sameFrames_setStatus s id status) fun x u hu hnow => ?_
  rw [Phase.unit?_setStatus] at hu
  split at hu
  next hid =>
    subst hid
    obtain ⟨old, hold, heq⟩ := Option.map_eq_some_iff.mp hu
    cases old with
    | script old =>
      cases heq
      have hwas := hbound hnow
      rw [status_of_unit? hold] at hwas
      exact ⟨old, hold, hwas, rfl⟩
    | bridge b => cases heq
    | manifest m => cases heq
  next => exact ⟨u, hu, hnow, rfl⟩

/-! ## Searches -/

/-- Imports are bound only if every specifier of the script has its unit. -/
theorem complete_of_ok (hu : s.unit? x = some (.script u)) {imports : Scope}
    (hok : s.allImportCells u = .ok imports) : s.Complete x := by
  intro v hv specifier hin
  cases hu.symm.trans hv
  unfold allImportCells at hok
  unfold Script.Program.specifiers at hin
  rw [List.mem_eraseDups] at hin
  obtain ⟨decl, hdecl, rfl⟩ := List.mem_map.mp hin
  cases hcells : u.program.imports.mapM (s.importCells u) with
  | error e => rw [hcells] at hok; cases hok
  | ok groups =>
    obtain ⟨group, hgroup⟩ := ok_of_mapM hcells hdecl
    unfold importCells at hgroup
    cases hy : s.dependency u decl.specifier with
    | error e => rw [hy] at hgroup; cases hgroup
    | ok y => exact ⟨y, dependency_eq_ok hy⟩

theorem bound_bind (hs : s.Bound) (hmade : s.WellMade) {imports : Scope}
    (hu : s.unit? x = some (.script u)) (hok : s.allImportCells u = .ok imports) :
    ((s.changeScript x fun u => { u with imports }).setStatus x .instantiated).Bound := by
  have hcomplete := complete_of_ok hu hok
  have hbinds := binds_of_ok hcomplete hu (hmade x _ hu) hok
  have hframes : s.SameFrames
      ((s.changeScript x fun u => { u with imports }).setStatus x .instantiated) :=
    (sameFrames_change s x fun unit => by cases unit <;> rfl).trans (sameFrames_setStatus _ _ _)
  intro z v hv hbound
  rw [Phase.unit?_setStatus] at hv
  unfold changeScript at hv
  rw [unit?_change] at hv
  by_cases hz : x = z
  · subst hz
    rw [if_pos rfl, if_pos rfl, hu] at hv
    cases hv
    exact ⟨fun specifier hin => (hcomplete u hu specifier hin).imp fun _ h => h.1,
      hframes.binds hbinds⟩
  · rw [if_neg hz, if_neg hz] at hv
    obtain ⟨hrecorded, hbinds⟩ := hs z v hv hbound
    exact ⟨hrecorded, hframes.binds hbinds⟩

theorem bound_instantiate (hs : s.Bound) (hmade : s.WellMade) (id : UnitId) :
    (s.instantiate id).1.Bound := by
  have hmanifests : s.NoManifests := fun x m hm => hmade x _ hm
  obtain ⟨log, hruns⟩ := instantiate_runs hmanifests id
  refine (hruns.preserve instantiation_lawful (P := fun s => s.Bound ∧ s.WellMade)
    ?_ ?_ ?_ ⟨hs, hmade⟩).1
  · rintro s x unit ⟨hbound, hmade⟩ - -
    exact ⟨hbound.setStatus fun h => (by cases h), (sameFrames_setStatus _ _ _).wellMade hmade⟩
  · rintro s x unit s' r ⟨hbound, hmade⟩ hunit - hturn
    have hframes := Phase.frames_settle x (instantiation.act s x unit)
    rw [hturn] at hframes
    refine ⟨?_, ((instantiation_lawful.frames s x unit).trans hframes).wellMade hmade⟩
    cases unit with
    | script u =>
      simp only [instantiation, bindImports] at hturn
      cases hcells : s.allImportCells u with
      | error e =>
        rw [hcells] at hturn
        cases hturn
        exact hbound.setStatus fun h => by cases h
      | ok imports =>
        rw [hcells] at hturn
        cases hturn
        exact bound_bind hbound hmade hunit hcells
    | bridge b =>
      cases hturn
      refine hbound.of_frames (sameFrames_setStatus _ _ _) fun z u hu h => ?_
      rw [Phase.unit?_setStatus] at hu
      split at hu
      next hz => rw [← hz, hunit] at hu; cases hu
      next => exact ⟨u, hu, h, rfl⟩
    | manifest m => exact (hmade x _ hunit).elim
  · rintro s x unit e ⟨hbound, hmade⟩ -
    exact ⟨hbound.setStatus fun h => (by cases h), (sameFrames_setStatus _ _ _).wellMade hmade⟩

theorem Bound.begin_evaluation (h : s.Bound) (hunit : s.unit? x = some unit)
    (hanswer : evaluation.answer unit = none) : (s.setStatus x evaluation.during).Bound := by
  refine h.setStatus fun _ => ?_
  rw [status_of_unit? hunit, status_of_answer_evaluation hanswer]
  rfl

/-- An executor changes no script. -/
theorem Bound.runExecutor (h : s.Bound) {b b' : Bridge} (hb : s.unit? x = some (.bridge b')) :
    (s.runExecutor x b).1.Bound := by
  refine h.of_frames (sameFrames_runExecutor s x b) fun z u hu hbound => ?_
  by_cases hz : x = z
  · subst hz
    obtain ⟨old, hold, -⟩ := (sameFrames_runExecutor s x b).script hu
    cases hb.symm.trans hold
  · exact ⟨u, (unit?_runExecutor s b hz).symm.trans hu, hbound, rfl⟩

theorem Bound.turn_evaluation (h : s.Bound) {r : Except LoadError Unit}
    (hunit : s.unit? x = some (unit.withStatus evaluation.during))
    (hanswer : evaluation.answer unit = none)
    (hturn : Phase.settle x (evaluation.act s x unit) = (s', r)) : s'.Bound := by
  have hrunning : (s.status x).isBound = true := by
    rw [status_of_unit? hunit]
    cases unit with
    | script u => rfl
    | bridge b => rfl
    | manifest m => cases hanswer
  -- a turn changes no script but for the status
  have hkept : (evaluation.act s x unit).1.Bound ∧
      (evaluation.act s x unit).1.status x = s.status x := by
    cases unit with
    | script u => exact ⟨h, rfl⟩
    | bridge b => exact ⟨h.runExecutor hunit, status_runExecutor s x b x⟩
    | manifest m => exact ⟨h, rfl⟩
  rcases Phase.settle_cases hturn with ⟨status, -, rfl, -⟩ | ⟨e, -, rfl, -⟩
  · exact hkept.1.setStatus fun _ => hkept.2 ▸ hrunning
  · exact hkept.1.setStatus fun h => by cases h

theorem bound_evaluate (hs : s.Bound) (hmade : s.WellMade) (id : UnitId) :
    (s.evaluate id).1.Bound := by
  have hmanifests : s.NoManifests := fun x m hm => hmade x _ hm
  obtain ⟨log, hruns⟩ := evaluate_runs hmanifests id
  refine hruns.preserve evaluation_lawful (P := Bound) ?_ ?_ ?_ hs
  · exact fun s x unit hbound hunit hanswer => hbound.begin_evaluation hunit hanswer
  · exact fun s x unit s' r hbound hunit hanswer hturn => hbound.turn_evaluation hunit hanswer hturn
  · exact fun s x unit e hbound _ => hbound.setStatus fun h => by cases h

/-! ## Calls -/

theorem instantiate_dead (h : s.unit? x = none) : s.instantiate x = (s, .ok ()) := by
  unfold instantiate instantiateWithin
  rw [h]

theorem Consistent.plain (h : s.Consistent) : s.Plain := by
  intro x unit hunit
  cases unit with
  | script u => trivial
  | bridge b => exact h.linked x b hunit
  | manifest m => exact h.made x _ hunit

theorem Consistent.noManifests (h : s.Consistent) : s.NoManifests := h.plain.noManifests

/-- A bridge that is not linked now was not linked before. -/
theorem linked_of_status (h : s.Consistent) (hshape : s.SameShape s')
    (hstatus : ∀ x, s'.status x = .unlinked → s.status x = .unlinked) (x : UnitId) (b : Bridge)
    (hb : s'.unit? x = some (.bridge b)) : b.status ≠ .unlinked :=
  hshape.plain h.plain hstatus x _ hb

theorem known_of_shape (h : s.Consistent) (hshape : s.SameShape s')
    (hsize : s'.units.size = s.units.size) (x : UnitId) (specifier : String) (y : UnitId)
    (himports : s'.Imports x specifier y) : y.index < s'.units.size := by
  obtain ⟨url, program, dependencies, hx, hlookup⟩ := himports
  rw [hsize]
  exact h.known x specifier y ⟨url, program, dependencies, (hshape x).symm.trans hx, hlookup⟩

theorem Consistent.instantiate (h : s.Consistent) (id : UnitId) : (s.instantiate id).1.Consistent := by
  cases hid : s.unit? id with
  | none =>
    rw [instantiate_dead hid]
    exact h
  | some unit =>
    have hthere : (s.unit? id).isSome = true := by rw [hid]; rfl
    have hentering := entering_instantiate h.plain hthere
    have hbound := bound_instantiate h.bound h.made id
    obtain ⟨log, hruns⟩ := instantiate_runs h.noManifests id
    have hsize := hruns.size instantiation_lawful
    have hframes := (hruns.forth instantiation_lawful).frames
    generalize s.instantiate id = result at *
    obtain ⟨s', r⟩ := result
    refine ⟨hframes.wellMade h.made, linked_of_status h hframes.shape fun x => hentering.unlinked,
      fun x => ?_, fun x y hx hd hy => ?_, hbound, known_of_shape h hframes.shape hsize⟩
    · by_cases hlinked : s.status x = .linked
      · rcases hentering.settled x hlinked with hx | hx | ⟨e, hx⟩ <;> rw [hx] <;> simp
      · rw [hentering.kept x hlinked]
        exact h.resting x
    · rw [hframes.shape.dependsOn] at hd
      by_cases hlinked : s.status x = .linked
      · rcases hentering.settled x hlinked with hx' | hx' | ⟨e, hx'⟩
        · rw [hx'] at hx; cases hx
        · exact hentering.bound x y hlinked hx' hd
        · rw [hx'] at hx; cases hx
      · rw [hentering.kept x hlinked] at hx
        exact hentering.entered (h.closed x y hx hd ((hframes.shape.isSome y).symm.trans hy))

theorem Consistent.evaluate (h : s.Consistent) (id : UnitId) : (s.evaluate id).1.Consistent := by
  have hran := ran_evaluate h.plain id
  have hbound := bound_evaluate h.bound h.made id
  obtain ⟨log, hruns⟩ := evaluate_runs h.noManifests id
  have hsize := hruns.size evaluation_lawful
  have hframes := (hruns.forth evaluation_lawful).frames
  generalize s.evaluate id = result at *
  obtain ⟨s', r⟩ := result
  refine ⟨hframes.wellMade h.made, linked_of_status h hframes.shape fun x hx => ?_,
    fun x => ?_, fun x y hx hd hy => ?_, hbound, known_of_shape h hframes.shape hsize⟩
  · rcases hran.status x with hsame | ⟨-, ⟨v, hnew⟩ | ⟨e, hnew⟩⟩
    · exact hsame.symm.trans hx
    · rw [hnew] at hx; cases hx
    · rw [hnew] at hx; cases hx
  · rcases hran.status x with hsame | ⟨-, ⟨v, hnew⟩ | ⟨e, hnew⟩⟩
    · rw [hsame]
      exact h.resting x
    · rw [hnew]; simp
    · rw [hnew]; simp
  · rw [hframes.shape.dependsOn] at hd
    refine hran.entered (h.closed x y ?_ hd ((hframes.shape.isSome y).symm.trans hy))
    rcases hran.status x with hsame | ⟨hbefore, -⟩
    · exact hsame ▸ hx
    · rw [hbefore]; rfl

/-! ## Changes from outside -/

theorem imports_of_unit? (h : s'.unit? x = s.unit? x) {specifier : String} :
    s'.Imports x specifier y ↔ s.Imports x specifier y := by
  unfold Imports
  rw [shape?_of_unit? h]

/-- Units may go, and all others stay as they are. -/
theorem Consistent.of_units (h : s.Consistent)
    (hunits : ∀ x unit, s'.unit? x = some unit → s.unit? x = some unit)
    (hsize : s'.units.size = s.units.size) : s'.Consistent := by
  have hsame : ∀ {x}, (s'.unit? x).isSome = true → s'.unit? x = s.unit? x := by
    intro x hx
    obtain ⟨unit, hunit⟩ := Option.isSome_iff_exists.mp hx
    rw [hunit, hunits x unit hunit]
  have hthere : ∀ {x}, s'.status x ≠ .unlinked → (s'.unit? x).isSome = true := by
    intro x hx
    obtain ⟨unit, hunit⟩ := exists_unit_of_status hx
    rw [hunit]
    rfl
  refine ⟨fun x unit hunit => h.made x unit (hunits x unit hunit),
    fun x b hb => h.linked x b (hunits x _ hb), fun x => ?_, fun x y hx hd hy => ?_,
    fun x u hu hbound => ?_, fun x specifier y himports => ?_⟩
  · by_cases hx : s'.status x = .unlinked
    · rw [hx]
      simp
    · rw [status_of_unit?_eq (hsame (hthere hx))]
      exact h.resting x
  · have hx' := hthere fun he => by rw [he] at hx; cases hx
    rw [status_of_unit?_eq (hsame hx')] at hx
    rw [dependsOn_of_shape (shape?_of_unit? (hsame hx'))] at hd
    rw [status_of_unit?_eq (hsame hy)]
    exact h.closed x y hx hd (by rw [← hsame hy]; exact hy)
  · obtain ⟨hrecorded, hbinds⟩ := h.bound x u (hunits x _ hu) hbound
    refine ⟨hrecorded, fun w hw exporter hexporter => hbinds w ?_ exporter ?_⟩
    · rwa [wants_of_script (hunits x _ hu), ← wants_of_script hu]
    · rw [source?_of_script hu] at hexporter
      rw [source?_of_script (hunits x _ hu)]
      obtain ⟨y, hlookup, hy⟩ := Option.bind_eq_some_iff.mp hexporter
      exact Option.bind_eq_some_iff.mpr ⟨y, hlookup, hunits y _ hy⟩
  · rw [hsize]
    obtain ⟨url, program, dependencies, hshape, hlookup⟩ := himports
    have hx : (s'.unit? x).isSome = true := by
      rw [← isSome_shape?, hshape]
      rfl
    exact h.known x specifier y
      ((imports_of_unit? (hsame hx)).mp ⟨url, program, dependencies, hshape, hlookup⟩)

/-- One unit is changed or made, which is not bound. What others import from it stays. -/
theorem Bound.change (h : s.Bound) (hothers : ∀ x, id ≠ x → s'.unit? x = s.unit? x)
    (hself : s'.unit? id = some unit) (hfree : unit.status.isBound = false)
    (hexports : ∀ x specifier, s.Imports x specifier id →
      ∃ old, s.unit? id = some old ∧ old.exports = unit.exports) : s'.Bound := by
  intro x u hu hx
  have hid : id ≠ x := by
    rintro rfl
    cases hself.symm.trans hu
    rw [show u.status.isBound = false from hfree] at hx
    cases hx
  have hu' : s.unit? x = some (.script u) := (hothers x hid).symm.trans hu
  obtain ⟨hrecorded, hbinds⟩ := h x u hu' hx
  refine ⟨hrecorded, fun w hw exporter hexporter => ?_⟩
  have hw' : w ∈ s.wants x := by rwa [wants_of_script hu', ← wants_of_script hu]
  rw [source?_of_script hu] at hexporter
  obtain ⟨y, hlookup, hy⟩ := Option.bind_eq_some_iff.mp hexporter
  have hsource : ∀ {old : ModuleUnit}, s.unit? y = some old → s.source? x w.specifier = some old := by
    intro old hold
    rw [source?_of_script hu']
    exact Option.bind_eq_some_iff.mpr ⟨y, hlookup, hold⟩
  -- a bound name goes on to stand for the same cell, as exports stay
  by_cases hid' : id = y
  · subst hid'
    cases hself.symm.trans hy
    have himports : s.Imports x w.specifier id := by
      refine ⟨u.url, u.program, u.dependencies, ?_, hlookup⟩
      unfold shape?
      rw [hu']
      rfl
    obtain ⟨old, hold, hsame⟩ := hexports x _ himports
    obtain ⟨cell, hcell, himport⟩ := hbinds w hw' old (hsource hold)
    unfold ModuleUnit.export? at hcell ⊢
    exact ⟨cell, hsame ▸ hcell, himport⟩
  · exact hbinds w hw' exporter (hsource ((hothers y hid').symm.trans hy))

/-- One unit is changed or made, which is not bound. -/
theorem Consistent.change (h : s.Consistent) (hothers : ∀ x, id ≠ x → s'.unit? x = s.unit? x)
    (hself : s'.unit? id = some unit) (hsize : s.units.size ≤ s'.units.size)
    (hmade : unit.WellMade) (hbridge : ∀ b, unit = .bridge b → b.status ≠ .unlinked)
    (hrest : unit.status.isBound = false ∧ unit.status ≠ .instantiating)
    (hkeeps : (s.status id).isEntered = true → unit.status.isEntered = true)
    (hexports : ∀ x specifier, s.Imports x specifier id →
      ∃ old, s.unit? id = some old ∧ old.exports = unit.exports)
    (hknown : ∀ specifier y, s'.Imports id specifier y → y.index < s'.units.size) :
    s'.Consistent := by
  have hstatus : s'.status id = unit.status := status_of_unit? hself
  have hunit : ∀ {x} {old : ModuleUnit}, s'.unit? x = some old → id ≠ x → s.unit? x = some old :=
    fun hx hne => (hothers _ hne).symm.trans hx
  refine ⟨fun x old hx => ?_, fun x b hb => ?_, fun x => ?_, fun x y hx hd hy => ?_,
    h.bound.change hothers hself hrest.1 hexports, fun x specifier y himports => ?_⟩
  · by_cases hid : id = x
    · subst hid
      cases hself.symm.trans hx
      exact hmade
    · exact h.made x old (hunit hx hid)
  · by_cases hid : id = x
    · subst hid
      exact hbridge b (Option.some.inj (hself.symm.trans hb))
    · exact h.linked x b (hunit hb hid)
  · by_cases hid : id = x
    · subst hid
      rw [hstatus]
      refine ⟨hrest.2, fun he => ?_⟩
      rw [he] at hrest
      cases hrest.1
    · rw [status_of_unit?_eq (hothers x hid)]
      exact h.resting x
  · have hid : id ≠ x := by
      rintro rfl
      rw [hstatus, hrest.1] at hx
      cases hx
    rw [status_of_unit?_eq (hothers x hid)] at hx
    rw [dependsOn_of_shape (shape?_of_unit? (hothers x hid))] at hd
    by_cases hy' : id = y
    · subst hy'
      have hd' := hd
      obtain ⟨url, program, dependencies, hshape, specifier, -, hlookup⟩ := hd'
      obtain ⟨old, hold, -⟩ := hexports x specifier ⟨url, program, dependencies, hshape, hlookup⟩
      rw [hstatus]
      exact hkeeps (h.closed x _ hx hd (by rw [hold]; rfl))
    · rw [status_of_unit?_eq (hothers y hy')]
      exact h.closed x y hx hd (by rw [← hothers y hy']; exact hy)
  · by_cases hid : id = x
    · subst hid
      exact hknown specifier y himports
    · exact Nat.lt_of_lt_of_le
        (h.known x specifier y ((imports_of_unit? (hothers x hid)).mp himports)) hsize

/-- Bridges may get other executors. -/
theorem Consistent.of_executor (h : s.Consistent) (id : UnitId) (executor : Option Executor) :
    (s.changeBridge id fun b => { b with executor }).Consistent := by
  have hframes : s.SameFrames (s.changeBridge id fun b => { b with executor }) :=
    sameFrames_change s id fun unit => by cases unit <;> rfl
  have hstatus : ∀ x, (s.changeBridge id fun b => { b with executor }).status x = s.status x :=
    status_change s id fun unit => by cases unit <;> rfl
  refine ⟨hframes.wellMade h.made, linked_of_status h hframes.shape fun x hx =>
    (hstatus x).symm.trans hx, fun x => hstatus x ▸ h.resting x, fun x y hx hd hy => ?_,
    h.bound.of_frames hframes fun x u hu hx => ?_,
    known_of_shape h hframes.shape (s.size_change id _)⟩
  · rw [hstatus] at hx ⊢
    exact h.closed x y hx (hframes.shape.dependsOn.mp hd) ((hframes.shape.isSome y).symm.trans hy)
  · unfold changeBridge at hu
    rw [unit?_change] at hu
    split at hu
    next hid =>
      obtain ⟨old, hold, heq⟩ := Option.map_eq_some_iff.mp hu
      cases old with
      | script old => cases heq; exact ⟨u, hold, hx, rfl⟩
      | bridge b => cases heq
      | manifest m => cases heq
    next => exact ⟨u, hu, hx, rfl⟩

theorem consistent_empty : ({} : Store).Consistent := by
  have hnone : ∀ x, ({} : Store).unit? x = none := fun x => rfl
  refine ⟨fun x unit hx => ?_, fun x b hb => ?_, fun x => ⟨?_, ?_⟩, fun x y hx => ?_, fun x u hu => ?_,
    fun x specifier y h => ?_⟩
  · cases hx
  · cases hb
  · simp [Store.status, hnone]
  · simp [Store.status, hnone]
  · simp [Store.status, hnone, Status.isBound] at hx
  · cases hu
  · obtain ⟨_, _, _, hshape, -⟩ := h
    cases hshape

end Store

end ModuleLoader
