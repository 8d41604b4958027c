import ModuleLoader.Proofs.Assembly
import ModuleLoader.Proofs.Bodies
/-!
# Who writes to a cell

Cells are shared between locals, exports, imports and namespaces. Only the unit that a cell was made
for writes to it: a script while its body runs, by a declaration or an assignment of the name that the
cell has there, and a bridge while its executor runs.

Results:
1. `Program.after`, `after_succ`: a body, one statement at a time.
2. `Owned`, `Owned.enact`: units have their cells to themselves.
3. `Moment`, `Passes`, `evaluate_passes`: an evaluation, one unit at a time.
4. `owner_writes`: which moments and which statements change the cell of a local.
-/
namespace ModuleLoader

/-! ## Bodies, statement by statement -/

namespace Script

variable {names : Bindings} {cells cells' : Cells} {p : Program} {i : Nat} {statement : Statement}

/-- The cells after the first statements of a body. -/
def Program.after (p : Program) (names : Bindings) (cells : Cells) (count : Nat) : Cells :=
  (runStatements names cells none (p.statements.take count)).1

theorem runStatements_append (names : Bindings) (cells : Cells) (completion : Option Value)
    (first rest : List Statement) : runStatements names cells completion (first ++ rest) =
      match runStatements names cells completion first with
      | (cells, .error fault) => (cells, .error fault)
      | (cells, .ok completion) => runStatements names cells completion rest := by
  induction first generalizing cells completion with
  | nil => rfl
  | cons statement first ih =>
    rw [List.cons_append, runStatements, runStatements]
    generalize statement.run names cells = ran
    obtain ⟨after, fault | v⟩ := ran
    · rfl
    · exact ih after _

/-- A body goes on by one statement, or it has ended. -/
theorem Program.after_succ (p : Program) (names : Bindings) (cells : Cells) (i : Nat) :
    p.after names cells (i + 1) = p.after names cells i ∨
      ∃ statement, p.statements[i]? = some statement ∧
        p.after names cells (i + 1) = (statement.run names (p.after names cells i)).1 := by
  unfold after
  rw [List.take_add_one]
  cases hstatement : p.statements[i]? with
  | none => exact .inl (by rw [Option.toList_none, List.append_nil])
  | some statement =>
    rw [Option.toList_some, runStatements_append]
    generalize runStatements names cells none (p.statements.take i) = ran
    obtain ⟨cells', fault | completion⟩ := ran
    · exact .inl rfl
    · refine .inr ⟨statement, rfl, ?_⟩
      dsimp only [runStatements]
      generalize statement.run names cells' = ran
      obtain ⟨after, fault | v⟩ := ran <;> rfl

/-- A statement that fails is the end of the body, with the cells as it leaves them. -/
theorem Program.run_of_fault (hstatement : p.statements[i]? = some statement)
    (hfault : ∀ cells, ∃ fault, (statement.run names cells).2 = .error fault ∧
      (statement.run names cells).1.values = cells.values) (cells : Cells) :
    ∃ fault, (p.run names cells).2 = .error fault ∧
      (p.run names cells).1.values = (p.after names cells i).values := by
  have hsplit : p.statements = p.statements.take i ++ statement :: p.statements.drop (i + 1) := by
    obtain ⟨hlt, hget⟩ := List.getElem?_eq_some_iff.mp hstatement
    rw [← hget, ← List.drop_eq_getElem_cons hlt, List.take_append_drop]
  unfold Program.run after
  rw [hsplit, runStatements_append, ← hsplit]
  generalize runStatements names cells none (p.statements.take i) = ran
  obtain ⟨cells', fault | completion⟩ := ran
  · exact ⟨fault, rfl, rfl⟩
  · obtain ⟨fault, hresult, hvalues⟩ := hfault cells'
    dsimp only [runStatements]
    generalize statement.run names cells' = ran at hresult hvalues ⊢
    obtain ⟨after, result⟩ := ran
    obtain rfl : result = .error fault := hresult
    exact ⟨fault, rfl, hvalues⟩

/-- A name that is not a local is not written to. -/
theorem Statement.run_hidden {name : String} (hhidden : names.locals.cell? name = none)
    (value : Expression) (span : Span) (cells : Cells) :
    ∃ fault, ((Statement.assign name value span).run names cells).2 = .error fault ∧
      ((Statement.assign name value span).run names cells).1.values = cells.values ∧
      ∀ v, (value.eval names cells).2 = .ok v → (names.imports.cell? name).isSome = true →
        fault = .readOnly name := by
  obtain ⟨calls, hcells⟩ := value.eval_cells names cells
  dsimp only [Statement.run]
  unfold Bindings.write
  generalize value.eval names cells = computed at hcells ⊢
  obtain ⟨after, result⟩ := computed
  obtain rfl : after = { cells with functions := cells.functions.after calls } := hcells
  cases result with
  | error fault => exact ⟨fault, rfl, rfl, nofun⟩
  | ok v =>
    unfold Bindings.assign
    rw [hhidden]
    cases names.imports.cell? name with
    | none => exact ⟨.undefinedName name, rfl, rfl, nofun⟩
    | some cell => exact ⟨.readOnly name, rfl, rfl, fun _ _ _ => rfl⟩

end Script

namespace ModuleUnit

/-- The names whose cells are for the unit alone to write to. -/
def own : ModuleUnit → Scope
  | script u => u.locals
  | bridge b => b.exports
  | manifest _ => []

theorem own_frame (unit : ModuleUnit) : unit.frame.own = unit.own := by cases unit <;> rfl

theorem Becomes.own {unit unit' : ModuleUnit} (h : unit.Becomes unit') : unit'.own = unit.own := by
  cases h with
  | script _ hlocals => exact hlocals
  | bridge hexports => exact hexports
  | manifest => rfl

end ModuleUnit

namespace Store

variable {s s' t : Store} {x y id : UnitId} {unit : ModuleUnit} {u : ScriptUnit} {b : Bridge}

/-! ## Units and their cells -/

/-- Units have their cells to themselves. -/
structure Owned (s : Store) : Prop where
  distinct : ∀ x unit, s.unit? x = some unit → (unit.own.map Prod.snd).Nodup
  there : ∀ x unit, s.unit? x = some unit → ∀ e ∈ unit.own, e.2.index < s.cells.values.size
  apart : ∀ x y unit other, x ≠ y → s.unit? x = some unit → s.unit? y = some other →
    ∀ cell ∈ unit.own.map Prod.snd, cell ∉ other.own.map Prod.snd

theorem owned_empty : ({} : Store).Owned where
  distinct x unit hunit := by cases hunit
  there x unit hunit := by cases hunit
  apart x y unit other _ hunit := by cases hunit

/-- Units keep their cells, or go. -/
theorem Owned.of_units (h : s.Owned)
    (hunits : ∀ x unit', s'.unit? x = some unit' → ∃ unit, s.unit? x = some unit ∧ unit.own = unit'.own)
    (hsize : s'.cells.values.size = s.cells.values.size) : s'.Owned where
  distinct x unit' hunit' := by
    obtain ⟨unit, hunit, hown⟩ := hunits x unit' hunit'
    exact hown ▸ h.distinct x unit hunit
  there x unit' hunit' e he := by
    obtain ⟨unit, hunit, hown⟩ := hunits x unit' hunit'
    rw [hsize]
    exact h.there x unit hunit e (hown ▸ he)
  apart x y unit' other' hne hunit' hother' := by
    obtain ⟨unit, hunit, hown⟩ := hunits x unit' hunit'
    obtain ⟨other, hother, hown'⟩ := hunits y other' hother'
    rw [← hown, ← hown']
    exact h.apart x y unit other hne hunit hother

theorem Owned.of_frames (h : s.Owned) (hframes : s.SameFrames s')
    (hsize : s'.cells.values.size = s.cells.values.size) : s'.Owned := by
  refine h.of_units (fun x unit' hunit' => ?_) hsize
  obtain ⟨unit, hunit, hframe⟩ := hframes.exists_unit hunit'
  exact ⟨unit, hunit, by rw [← unit.own_frame, hframe, unit'.own_frame]⟩

theorem Owned.of_becomes (h : s.Owned) (hbecomes : s.Becomes s')
    (hunits : s'.units.size = s.units.size) (hsize : s'.cells.values.size = s.cells.values.size) :
    s'.Owned := by
  refine h.of_units (fun x unit' hunit' => ?_) hsize
  have hlt : x.index < s.units.size := hunits ▸ Phase.lt_size_of_isSome (by rw [hunit']; rfl)
  obtain ⟨unit, hunit, hthen⟩ := hbecomes.units x unit' hlt hunit'
  exact ⟨unit, hunit, hthen.own.symm⟩

/-- A new unit gets new cells. -/
theorem Owned.add (h : s.Owned) {names : List String}
    (hown : unit.own = (Scope.fresh names s.cells).2) :
    ({ s with cells := (Scope.fresh names s.cells).1 }.add unit).1.Owned := by
  have hsize : s.cells.values.size ≤ (Scope.fresh names s.cells).1.values.size := by
    rw [Scope.size_fresh]
    exact Nat.le_add_right _ _
  have hold : ∀ {z other}, s.unit? z = some other → ∀ cell ∈ other.own.map Prod.snd,
      cell ∉ unit.own.map Prod.snd := by
    intro z other hz cell hcell hin
    obtain ⟨e, he, rfl⟩ := List.mem_map.mp hcell
    obtain ⟨e', he', heq⟩ := List.mem_map.mp hin
    rw [hown] at he'
    have hnew := (Scope.mem_fresh he').1
    rw [heq] at hnew
    exact absurd (h.there z other hz e he) (Nat.not_lt.mpr hnew)
  constructor
  case distinct =>
    intro z other hz
    obtain ⟨rfl, -⟩ | ⟨hz', -⟩ := unit?_add_cases hz
    · exact hown ▸ Scope.nodup_fresh names s.cells
    · exact h.distinct z other hz'
  case there =>
    intro z other hz e he
    obtain ⟨rfl, -⟩ | ⟨hz', -⟩ := unit?_add_cases hz
    · exact (Scope.mem_fresh (hown ▸ he)).2.1
    · exact Nat.lt_of_lt_of_le (h.there z other hz' e he) hsize
  case apart =>
    intro z y first second hne hz hy
    obtain ⟨rfl, hself⟩ | ⟨hz', -⟩ := unit?_add_cases hz
    · obtain ⟨-, hself'⟩ | ⟨hy', -⟩ := unit?_add_cases hy
      · exact absurd (hself.trans hself'.symm) hne
      · exact fun cell hcell hin => hold hy' cell hin hcell
    · obtain ⟨rfl, -⟩ | ⟨hy', -⟩ := unit?_add_cases hy
      · exact hold hz'
      · exact h.apart z y first second hne hz' hy'

/-! ## Moments of an evaluation -/

/-- What happens at one moment of an evaluation. -/
inductive Moment
  | begin (x : UnitId)
  | body (x : UnitId)
  | executor (x : UnitId)
  | finish (x : UnitId)

/-- What a moment makes of a store. -/
inductive Takes : Store → Moment → Store → Prop
  | begin {s : Store} {x : UnitId} : s.status x = .instantiated →
      s.Takes (.begin x) (s.setStatus x .evaluating)
  | body {s : Store} {x : UnitId} {u : ScriptUnit} :
      s.unit? x = some (.script { u with status := .evaluating }) →
      s.Takes (.body x) (s.runBody u).1
  | executor {s : Store} {x : UnitId} {b : Bridge} :
      s.unit? x = some (.bridge { b with status := .evaluating }) →
      s.Takes (.executor x) (s.runExecutor x b).1
  | finish {s : Store} {x : UnitId} (r : Except LoadError (Option Value)) :
      s.status x = .evaluating → s.Takes (.finish x) (s.setStatus x (completionStatus r))

/-- Moments one after the other. -/
inductive Passes : Store → List Moment → Store → Prop
  | none {s : Store} : s.Passes [] s
  | next {s t t' : Store} {moments : List Moment} {m : Moment} :
      s.Passes moments t → t.Takes m t' → s.Passes (moments ++ [m]) t'

variable {m : Moment} {moments : List Moment} {name : String} {cell : CellId}

theorem cell_of_exportCell (h : exportCell b name = .ok cell) : cell ∈ b.exports.map Prod.snd := by
  unfold exportCell at h
  split at h
  next hcell => cases h; exact List.mem_map_of_mem (Scope.mem_of_cell? hcell)
  next => cases h

theorem performEffect_keeps {tables : Tables} {slot slot' : Slot} {effect : Effect}
    (h : performEffect tables b slot effect = .ok slot') :
    Cells.KeptBut b.exports slot.cells slot'.cells := by
  cases effect with
  | set name v =>
    simp only [performEffect, bind, Except.bind] at h
    split at h
    next => cases h
    next cell hcell => cases h; exact Cells.keptBut_write (cell_of_exportCell hcell)
  | copy source target =>
    simp only [performEffect, bind, Except.bind] at h
    split at h
    next => cases h
    next cell _ =>
      split at h
      next => cases h
      next other hother => cases h; exact Cells.keptBut_write (cell_of_exportCell hother)
  | install effects => cases h; exact .refl _ _
  | fail message => cases h
  | fill table =>
    cases h
    exact b.exports.fill_keeps (fun name => ((tables.read table).get? name).getD .undefined) slot.cells

theorem perform_keeps (tables : Tables) (b : Bridge) (slot : Slot) (executor : Executor) :
    Cells.KeptBut b.exports slot.cells (perform tables b slot executor).1.cells := by
  induction executor generalizing slot with
  | nil => exact .refl _ _
  | cons effect rest ih =>
    unfold perform
    cases heffect : performEffect tables b slot effect with
    | ok slot' => exact (performEffect_keeps heffect).trans (ih slot')
    | error e => exact .refl _ _

/-- An executor writes to the exports of its bridge only. -/
theorem runExecutor_keeps (s : Store) (x : UnitId) (b : Bridge) :
    Cells.KeptBut b.exports s.cells (s.runExecutor x b).1.cells :=
  perform_keeps s.tables b ⟨s.cells, none⟩ (b.executor.getD [])

/-- A body writes to the locals of its script only. -/
theorem runBody_keeps (s : Store) (u : ScriptUnit) :
    Cells.KeptBut u.locals s.cells (s.runBody u).1.cells :=
  u.program.run_keeps ⟨u.locals, u.imports⟩ s.cells

namespace Takes

variable (h : s.Takes m t)

include h

theorem frames : s.SameFrames t := by
  cases h with
  | begin => exact sameFrames_setStatus s _ _
  | body => exact fun _ => rfl
  | executor => exact sameFrames_runExecutor s _ _
  | finish => exact sameFrames_setStatus s _ _

theorem owned (hs : s.Owned) : t.Owned := by
  refine hs.of_frames h.frames ?_
  cases h with
  | begin => rfl
  | @body _ u => exact (s.runBody_keeps u).size
  | @executor x b => exact (s.runExecutor_keeps x b).size
  | finish => rfl

theorem bound (hs : s.Bound) : t.Bound := by
  cases h with
  | begin hstatus => exact hs.setStatus fun _ => by rw [hstatus]; rfl
  | body => exact hs.of_frames (fun _ => rfl) fun x u hu hbound => ⟨u, hu, hbound, rfl⟩
  | executor hb => exact hs.runExecutor hb
  | finish r hstatus => exact hs.setStatus fun _ => by rw [hstatus]; rfl

/-- A moment gives a status to a unit only that is to run or runs. -/
theorem status (hx : s.status x ≠ .instantiated ∧ s.status x ≠ .evaluating) :
    t.status x = s.status x := by
  cases h with
  | @begin y hstatus =>
    have hne : y ≠ x := fun heq => hx.1 (heq ▸ hstatus)
    exact s.status_setStatus_of_ne _ hne
  | body => rfl
  | executor => exact s.status_runExecutor _ _ x
  | @finish y r hstatus =>
    have hne : y ≠ x := fun heq => hx.2 (heq ▸ hstatus)
    exact s.status_setStatus_of_ne _ hne

/-- The cells of a script change only at the moment when its body runs. -/
theorem read_local (hs : s.Owned) (hu : s.unit? x = some (.script u))
    (hcell : cell ∈ u.locals.map Prod.snd) (hne : t.cells.read cell ≠ s.cells.read cell) :
    m = .body x ∧ u.status = .evaluating := by
  cases h with
  | begin => exact absurd rfl hne
  | @body y v hv =>
    by_cases hxy : x = y
    · subst hxy
      cases hu.symm.trans hv
      exact ⟨rfl, rfl⟩
    · exact absurd ((s.runBody_keeps v).read cell (hs.apart x y _ _ hxy hu hv cell hcell)) hne
  | @executor y b hb =>
    have hxy : x ≠ y := by
      rintro rfl
      cases hu.symm.trans hb
    exact absurd ((s.runExecutor_keeps y b).read cell (hs.apart x y _ _ hxy hu hb cell hcell)) hne
  | finish => exact absurd rfl hne

end Takes

namespace Passes

variable (h : s.Passes moments t)

include h

theorem frames : s.SameFrames t := by
  induction h with
  | none => exact .refl _
  | next _ htakes ih => exact ih.trans htakes.frames

theorem owned (hs : s.Owned) : t.Owned := by
  induction h with
  | none => exact hs
  | next _ htakes ih => exact htakes.owned ih

theorem bound (hs : s.Bound) : t.Bound := by
  induction h with
  | none => exact hs
  | next _ htakes ih => exact htakes.bound ih

/-- The cells of a script that is not to run keep their values. -/
theorem read_local (hs : s.Owned) (hu : s.unit? x = some (.script u))
    (hx : u.status ≠ .instantiated ∧ u.status ≠ .evaluating)
    (hcell : cell ∈ u.locals.map Prod.snd) : t.cells.read cell = s.cells.read cell := by
  suffices hkept : t.status x = s.status x ∧ t.cells.read cell = s.cells.read cell from hkept.2
  induction h with
  | none => exact ⟨rfl, rfl⟩
  | @next t t' _ m hpasses htakes ih =>
    obtain ⟨hstatus, hread⟩ := ih
    have hrest : t.status x ≠ .instantiated ∧ t.status x ≠ .evaluating := by
      rw [hstatus, status_of_unit? hu]
      exact hx
    refine ⟨(htakes.status hrest).trans hstatus, ?_⟩
    by_contra hne
    obtain ⟨u', hu', hlocals⟩ : ∃ u', t.unit? x = some (.script u') ∧ u'.locals = u.locals := by
      obtain ⟨unit', hunit', hframe⟩ := hpasses.frames.symm.exists_unit hu
      cases unit' with
      | script u' =>
        simp only [ModuleUnit.frame, ModuleUnit.script.injEq, ScriptUnit.mk.injEq] at hframe
        exact ⟨u', hunit', hframe.2.2.1⟩
      | bridge b => cases hframe
      | manifest m => cases hframe
    have hran := (htakes.read_local (hpasses.owned hs) hu' (hlocals ▸ hcell)
      fun heq => hne (heq.trans hread)).2
    exact hrest.2 ((status_of_unit? hu').trans hran)

end Passes

/-- An evaluation goes from one unit to the next. -/
theorem evaluate_passes (hs : s.NoManifests) (id : UnitId) :
    ∃ moments, s.Passes moments (s.evaluate id).1 := by
  obtain ⟨log, hruns⟩ := evaluate_runs hs id
  refine hruns.preserve evaluation_lawful (P := fun t => ∃ moments, s.Passes moments t)
    ?_ ?_ ?_ ⟨[], .none⟩
  · rintro t x unit ⟨moments, hpasses⟩ hunit hanswer
    refine ⟨_, hpasses.next (.begin ?_)⟩
    rw [status_of_unit? hunit, status_of_answer_evaluation hanswer]
  · rintro t x unit t' r ⟨moments, hpasses⟩ hunit hanswer hturn
    -- a unit that has run is still marked as running when its outcome is kept
    obtain ⟨moments', hran, hrunning⟩ : ∃ moments', s.Passes moments' (evaluation.act t x unit).1 ∧
        (evaluation.act t x unit).1.status x = .evaluating := by
      have hstatus := status_of_unit? hunit
      cases unit with
      | script u => exact ⟨_, hpasses.next (.body hunit), hstatus⟩
      | bridge b =>
        exact ⟨_, hpasses.next (.executor hunit), (status_runExecutor t x b x).trans hstatus⟩
      | manifest m => cases hanswer
    rcases Phase.settle_cases hturn with ⟨status, hact, rfl, -⟩ | ⟨e, -, rfl, -⟩
    · obtain ⟨v, rfl⟩ := status_of_act_evaluation hact
      exact ⟨_, hran.next (.finish (.ok v) hrunning)⟩
    · exact ⟨_, hran.next (.finish (.error e) hrunning)⟩
  · rintro t x unit e ⟨moments, hpasses⟩ hunit
    refine ⟨_, hpasses.next (.finish (.error e) ?_)⟩
    rw [status_of_unit? hunit]
    cases unit with
    | script u => rfl
    | bridge b => rfl
    | manifest m => exact absurd hunit (hpasses.frames.shape.noManifests hs x m)

/-! ## What is done from outside -/

/-- Whether the deed neither runs units nor writes to a cell itself. -/
def Deed.isQuiet : Deed → Bool
  | .evaluate _ | .write .. => false
  | _ => true

/-- An instantiation touches no cell. -/
theorem cells_instantiate (hs : s.NoManifests) (id : UnitId) : (s.instantiate id).1.cells = s.cells := by
  obtain ⟨log, hruns⟩ := instantiate_runs hs id
  refine hruns.preserve instantiation_lawful (P := fun t => t.cells = s.cells) ?_ ?_ ?_ rfl
  · exact fun t x unit ht _ _ => ht
  · intro t x unit t' r ht _ _ hturn
    have hact : (instantiation.act t x unit).1.cells = t.cells := by
      cases unit with
      | script u =>
        dsimp only [instantiation, bindImports]
        split <;> rfl
      | bridge b => rfl
      | manifest m => rfl
    rcases Phase.settle_cases hturn with ⟨status, -, rfl, -⟩ | ⟨e, -, rfl, -⟩ <;>
      exact hact.trans ht
  · exact fun t x unit e ht _ => ht

theorem cells_link (s : Store) (x : UnitId) : (s.enact (.link x)).cells = s.cells := by
  dsimp only [enact]
  split
  next u hu =>
    split
    next =>
      unfold beginLink
      rw [hu]
      rfl
    next => rfl
  next => rfl

theorem cells_wire (s : Store) (x : UnitId) (specifier : String) (y : UnitId) :
    (s.enact (.wire x specifier y)).cells = s.cells := by
  dsimp only [enact]
  split
  next u hu => split <;> rfl
  next => rfl

/-- Cells that are there keep their values. -/
theorem read_enact (hs : s.NoManifests) {deed : Deed} (hquiet : deed.isQuiet = true)
    (hcell : cell.index < s.cells.values.size) :
    (s.enact deed).cells.read cell = s.cells.read cell := by
  cases deed with
  | script url source =>
    dsimp only [enact]
    split
    next cells u hu =>
      obtain ⟨program, names, -, -, rfl, -⟩ := compile_eq_ok hu
      exact Scope.read_fresh names.locals hcell
    next => rfl
  | bridge url names executor => exact Scope.read_fresh _ hcell
  | link x => rw [s.cells_link]
  | wire x specifier y => rw [s.cells_wire]
  | instantiate x => exact congrArg (fun cells => cells.read cell) (cells_instantiate hs x)
  | evaluate x => cases hquiet
  | write cell v => cases hquiet
  | install x executor => rfl
  | supply tables => rfl
  | provide functions => rfl
  | drop x => rfl

theorem Owned.enact (h : s.Owned) (hs : s.NoManifests) (deed : Deed) : (s.enact deed).Owned := by
  cases deed with
  | script url source =>
    dsimp only [Store.enact]
    split
    next cells u hu =>
      obtain ⟨program, names, -, -, rfl, rfl⟩ := compile_eq_ok hu
      exact h.add rfl
    next => exact h
  | bridge url names executor => exact h.add rfl
  | evaluate x =>
    obtain ⟨moments, hpasses⟩ := evaluate_passes hs x
    exact hpasses.owned h
  | write cell v => exact h.of_units (fun _ unit hunit => ⟨unit, hunit, rfl⟩) Cells.size_write
  | link x =>
    refine h.of_becomes (becomes_enact hs _) ?_ (congrArg (·.values.size) (s.cells_link x))
    dsimp only [Store.enact]
    split
    next u hu =>
      split
      next =>
        unfold beginLink
        rw [hu]
        exact s.size_setStatus x _
      next => rfl
    next => rfl
  | wire x specifier y =>
    refine h.of_becomes (becomes_enact hs _) ?_ (congrArg (·.values.size) (s.cells_wire x specifier y))
    dsimp only [Store.enact]
    split
    next u hu =>
      split
      next => exact s.size_change x _
      next => rfl
    next => rfl
  | instantiate x =>
    obtain ⟨log, hruns⟩ := instantiate_runs hs x
    exact h.of_frames (hruns.forth instantiation_lawful).frames
      (congrArg (·.values.size) (cells_instantiate hs x))
  | install x executor => exact h.of_becomes (becomes_enact hs _) (s.size_change x _) rfl
  | supply tables => exact h.of_units (fun _ unit hunit => ⟨unit, hunit, rfl⟩) rfl
  | provide functions => exact h.of_units (fun _ unit hunit => ⟨unit, hunit, rfl⟩) rfl
  | drop x => exact h.of_becomes (becomes_enact hs _) Array.size_mapIdx rfl

theorem Owned.enactAll (h : s.Owned) (hs : s.Consistent) (deeds : List Deed) :
    (s.enactAll deeds).Owned := by
  induction deeds generalizing s with
  | nil => exact h
  | cons deed deeds ih => exact ih (h.enact hs.noManifests deed) (hs.enact deed)

/-! ## Writers -/

/-- The cell that a script declares under a name. -/
def Declares (s : Store) (x : UnitId) (name : String) (cell : CellId) : Prop :=
  ∃ u, s.unit? x = some (.script u) ∧ u.locals.cell? name = some cell

/-- A statement of a body that changes the cell of a local is one of the script that declares it, and
writes to it by the name that it has there. -/
theorem Owned.changed_by_statement (h : s.Owned) (hu : s.unit? x = some (.script u))
    (hdeclares : s.Declares y name cell) (cells : Cells) (i : Nat)
    (hne : (u.program.after ⟨u.locals, u.imports⟩ cells (i + 1)).read cell ≠
      (u.program.after ⟨u.locals, u.imports⟩ cells i).read cell) :
    y = x ∧ ∃ statement, u.program.statements[i]? = some statement ∧
      statement.written = some name := by
  obtain ⟨other, hother, hcell⟩ := hdeclares
  have hown : cell ∈ (ModuleUnit.script other).own.map Prod.snd :=
    List.mem_map_of_mem (Scope.mem_of_cell? hcell)
  rcases u.program.after_succ ⟨u.locals, u.imports⟩ cells i with heq | ⟨statement, hi, hafter⟩
  · exact absurd (congrArg (·.read cell) heq) hne
  rw [hafter] at hne
  obtain ⟨calls, heq | ⟨written, target, value, hwritten, htarget, heq⟩⟩ :=
    statement.run_cases ⟨u.locals, u.imports⟩ (u.program.after ⟨u.locals, u.imports⟩ cells i)
  · exact absurd (congrArg (·.read cell) heq) hne
  -- the cell that is written is the one that changes
  obtain rfl : target = cell := by
    by_contra hother
    exact hne ((congrArg (·.read cell) heq).trans (Cells.read_write_of_ne hother))
  have htargets := Scope.mem_of_cell? htarget
  obtain rfl : y = x := by
    by_contra hyx
    exact h.apart y x _ _ hyx hother hu target hown (List.mem_map_of_mem htargets)
  cases hu.symm.trans hother
  have hentry := List.inj_on_of_nodup_map (h.distinct y _ hu) (Scope.mem_of_cell? hcell) htargets rfl
  cases hentry
  exact ⟨rfl, statement, hi, hwritten⟩

/-- Only the owner of a cell writes to it, whatever was done before.
* An evaluation goes through moments at which units begin, run and finish, and the body that runs at
  one of them goes from statement to statement.
* The cell that a script declares changes only at the moment when the body of that script runs. So it
  keeps its value in an evaluation if the script does not wait to be run.
* Of the statements of a body, only a declaration or an assignment by the name that the script itself
  gave to the cell changes it.
* An assignment to an imported name ends the body with all cells as they were, whatever functions of
  the host its right-hand side has called, and the error says that the name is only to be read.
* Nothing else that is done to units changes a cell that is there. -/
theorem owner_writes (deeds : List Deed) :
    let s := ({} : Store).enactAll deeds
    (∀ x, ∃ moments, s.Passes moments (s.evaluate x).1) ∧
    (∀ x y name cell, s.Declares y name cell →
      (s.evaluate x).1.cells.read cell ≠ s.cells.read cell → s.status y = .instantiated) ∧
    (∀ deed cell, deed.isQuiet = true → cell.index < s.cells.values.size →
      (s.enact deed).cells.read cell = s.cells.read cell) ∧
    ∀ moments t, s.Passes moments t →
      (∀ m t' y name cell, t.Takes m t' → t.Declares y name cell →
        t'.cells.read cell ≠ t.cells.read cell → m = .body y) ∧
      ∀ x u, t.unit? x = some (.script u) →
        let body := u.program.after ⟨u.locals, u.imports⟩ t.cells
        body 0 = t.cells ∧ body u.program.statements.length = (t.runBody u).1.cells ∧
        (∀ i y name cell, t.Declares y name cell →
          (body (i + 1)).read cell ≠ (body i).read cell → y = x ∧
            ∃ statement, u.program.statements[i]? = some statement ∧
              statement.written = some name) ∧
        ∀ i w value span, w ∈ u.program.wants →
          u.program.statements[i]? = some (.assign w.here value span) →
          (∃ fault, (t.runBody u).2 = .error (.evaluate u.url (.script fault)) ∧
            (t.runBody u).1.cells.values = (body i).values) ∧
          ∀ cells v, u.status.isBound = true → (t.source? x w.specifier).isSome = true →
            (value.eval ⟨u.locals, u.imports⟩ cells).2 = .ok v →
            ((Script.Statement.assign w.here value span).run ⟨u.locals, u.imports⟩ cells).2 =
              .error (.readOnly w.here) := by
  intro s
  have hs : s.Consistent := consistent_empty.enactAll deeds
  have howned : s.Owned := owned_empty.enactAll consistent_empty deeds
  refine ⟨evaluate_passes hs.noManifests, fun x y name cell hdeclares hne => ?_,
    fun deed cell => read_enact hs.noManifests, fun moments t hpasses => ?_⟩
  · obtain ⟨u, hu, hcell⟩ := hdeclares
    obtain ⟨moments, hpasses⟩ := evaluate_passes hs.noManifests x
    by_contra hwaits
    refine hne (hpasses.read_local howned hu ⟨?_, ?_⟩ (List.mem_map_of_mem (Scope.mem_of_cell? hcell)))
    · exact fun heq => hwaits ((status_of_unit? hu).trans heq)
    · exact fun heq => (hs.resting y).2 ((status_of_unit? hu).trans heq)
  · have ht : t.Owned := hpasses.owned howned
    refine ⟨fun m t' y name cell htakes hdeclares hne => ?_, fun x u hu => ?_⟩
    · obtain ⟨u, hu, hcell⟩ := hdeclares
      exact (htakes.read_local ht hu (List.mem_map_of_mem (Scope.mem_of_cell? hcell)) hne).1
    · have hnamed : u.Named := hpasses.frames.wellMade hs.made x _ hu
      have hhidden : ∀ w ∈ u.program.wants,
          (⟨u.locals, u.imports⟩ : Script.Bindings).locals.cell? w.here = none := hnamed.hidden
      refine ⟨rfl, ?_, fun i y name cell hdeclares => ht.changed_by_statement hu hdeclares _ i,
        fun i w value span hw hi => ⟨?_, fun cells v hbound hsource hv => ?_⟩⟩
      · unfold Script.Program.after
        rw [List.take_length]
        rfl
      · obtain ⟨fault, hfault, hvalues⟩ := u.program.run_of_fault hi (fun cells => by
          obtain ⟨fault, hfault, hvalues, -⟩ :=
            Script.Statement.run_hidden (hhidden w hw) value span cells
          exact ⟨fault, hfault, hvalues⟩) t.cells
        refine ⟨fault, ?_, hvalues⟩
        show Except.mapError _ (u.program.run ⟨u.locals, u.imports⟩ t.cells).2 = _
        rw [hfault]
        rfl
      · obtain ⟨fault, hfault, -, hreadOnly⟩ :=
          Script.Statement.run_hidden (hhidden w hw) value span cells
        obtain ⟨exporter, hexporter⟩ := Option.isSome_iff_exists.mp hsource
        obtain ⟨other, -, hother⟩ := ((hpasses.bound hs.bound x u hu hbound).2 w
          (wants_of_script hu ▸ hw) exporter hexporter)
        rw [hfault, hreadOnly v hv (Option.isSome_of_eq_some hother)]

end Store

end ModuleLoader
