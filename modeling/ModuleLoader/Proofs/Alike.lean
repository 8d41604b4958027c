import Mathlib.Data.List.Forall2
import Mathlib.Logic.Relator
import ModuleLoader.Proofs.Binding
import ModuleLoader.Proofs.Bodies
import ModuleLoader.Proofs.Searches
/-!
# Stores that are alike

Two stores can hold units that are made of the same but have other numbers and other cells, among
units that they do not share. To instantiate or to run such a unit does the same in both: step by step
the units stay alike, whatever cycles there are, and in the end the outcome is the same.

Results:
1. `Scope.Alike`, `Cells.Alike`: names and values over cells that belong together.
2. `paired_alike`, `perform_alike`: bodies and executors keep the cells alike.
3. `ModuleUnit.Alike`, `Store.Alike`: units that are made of the same.
4. `Phase.Parallel.within`: a search keeps stores alike if each turn does.
5. `Alike.instantiate`, `Alike.evaluate`: so do the calls on units.
-/
namespace ModuleLoader

open Relator (BiUnique)

variable {R : UnitId → UnitId → Prop} {C : CellId → CellId → Prop}

theorem both_mapM {ε α β γ : Type} {rel : β → γ → Prop} {f : α → Except ε β} {g : α → Except ε γ}
    {items : List α} (h : ∀ a ∈ items, Both rel (f a) (g a)) :
    Both (List.Forall₂ rel) (items.mapM f) (items.mapM g) := by
  induction items with
  | nil => exact .ok .nil
  | cons a rest ih =>
    have hfirst := h a List.mem_cons_self
    have hrest := ih fun b hb => h b (List.mem_cons_of_mem _ hb)
    rw [List.mapM_cons, List.mapM_cons]
    generalize f a = r at hfirst ⊢
    generalize g a = r' at hfirst ⊢
    cases hfirst with
    | error e => exact .error e
    | ok hvalue =>
      generalize rest.mapM f = r at hrest ⊢
      generalize rest.mapM g = r' at hrest ⊢
      cases hrest with
      | error e => exact .error e
      | ok hvalues => exact .ok (.cons hvalue hvalues)

/-! ## Names and cells -/

/-- The same names in the same order, over cells that belong together. -/
def Scope.Alike (C : CellId → CellId → Prop) (scope scope' : Scope) : Prop :=
  List.Forall₂ (fun e e' => e.1 = e'.1 ∧ C e.2 e'.2) scope scope'

/-- Cells that belong together hold the same values, and functions do the same from now on. -/
structure Cells.Alike (C : CellId → CellId → Prop) (cells cells' : Cells) : Prop where
  there : ∀ c c', C c c' → c.index < cells.values.size ∧ c'.index < cells'.values.size
  read : ∀ c c', C c c' → cells.read c = cells'.read c'
  functions : cells.functions = cells'.functions

section Cells

variable {scope scope' : Scope} {cells cells' : Cells}

theorem Scope.Alike.cell? (h : scope.Alike C scope') (name : String) :
    Option.Rel C (scope.cell? name) (scope'.cell? name) := by
  unfold Scope.cell?
  induction h with
  | nil => exact .none
  | cons he _ ih =>
    rw [List.lookup_cons, List.lookup_cons, he.1]
    split
    next => exact .some he.2
    next => exact ih

theorem Scope.Alike.read (h : scope.Alike C scope') (hcells : cells.Alike C cells') :
    scope.read cells = scope'.read cells' := by
  unfold Scope.read
  induction h with
  | nil => rfl
  | cons he _ ih =>
    rw [List.map_cons, List.map_cons, ih]
    exact congrArg (· :: _) (Prod.ext he.1 (hcells.read _ _ he.2))

/-- Cells belong together that stand under one name. -/
theorem Scope.alike_of_names (hnames : scope.map Prod.fst = scope'.map Prod.fst)
    (hcells : ∀ name c c', (name, c) ∈ scope → (name, c') ∈ scope' → C c c') :
    scope.Alike C scope' := by
  induction scope generalizing scope' with
  | nil =>
    obtain rfl := List.map_eq_nil_iff.mp hnames.symm
    exact .nil
  | cons e rest ih =>
    cases scope' with
    | nil => cases hnames
    | cons e' rest' =>
      obtain ⟨hname, hrest⟩ := List.cons.inj hnames
      obtain ⟨name, c⟩ := e
      obtain ⟨name', c'⟩ := e'
      obtain rfl : name = name' := hname
      exact .cons ⟨rfl, hcells name c c' List.mem_cons_self List.mem_cons_self⟩
        (ih hrest fun other d d' hd hd' =>
          hcells other d d' (List.mem_cons_of_mem _ hd) (List.mem_cons_of_mem _ hd'))

/-- What is exported under other names goes on to belong together. -/
theorem Scope.Alike.exported (h : scope.Alike C scope') (exports : List (String × String)) :
    Scope.Alike C
      (exports.filterMap fun (name, here) => (scope.cell? here).map fun cell => (name, cell))
      (exports.filterMap fun (name, here) => (scope'.cell? here).map fun cell => (name, cell)) := by
  induction exports with
  | nil => exact .nil
  | cons e rest ih =>
    obtain ⟨name, here⟩ := e
    rw [List.filterMap_cons, List.filterMap_cons]
    have hcell := h.cell? here
    dsimp only
    generalize scope.cell? here = found at hcell ⊢
    generalize scope'.cell? here = found' at hcell ⊢
    cases hcell with
    | some hc => exact .cons ⟨rfl, hc⟩ ih
    | none => exact ih

/-- The same value is written to cells that belong together. -/
theorem Cells.Alike.write (hC : BiUnique C) (h : cells.Alike C cells') {c c' : CellId} (hc : C c c')
    (v : Value) : (cells.write c v).Alike C (cells'.write c' v) where
  there a a' ha := by
    rw [Cells.size_write, Cells.size_write]
    exact h.there a a' ha
  read a a' ha := by
    by_cases hsame : c = a
    · subst hsame
      obtain rfl := hC.2 hc ha
      rw [Cells.read_write_self (h.there c c' hc).1, Cells.read_write_self (h.there c c' hc).2]
    · have hother : c' ≠ a' := fun heq => hsame (hC.1 hc (heq ▸ ha))
      rw [Cells.read_write_of_ne hsame, Cells.read_write_of_ne hother]
      exact h.read a a' ha
  functions := h.functions

/-- Names get the same values. -/
theorem Scope.Alike.fill (hC : BiUnique C) (h : scope.Alike C scope') (value : String → Value)
    (hcells : cells.Alike C cells') :
    (scope.fill value cells).Alike C (scope'.fill value cells') := by
  unfold Scope.fill
  induction h generalizing cells cells' with
  | nil => exact hcells
  | cons he _ ih =>
    rw [List.foldl_cons, List.foldl_cons]
    refine ih ?_
    dsimp only
    rw [he.1]
    exact hcells.write hC he.2 _

/-! ## Bodies and executors -/

/-- Bodies over cells that belong together go on alike. -/
theorem Script.paired_alike (hC : BiUnique C) {names names' : Script.Bindings}
    (hlocals : names.locals.Alike C names'.locals) (himports : names.imports.Alike C names'.imports) :
    Script.Paired (Cells.Alike C) names names' where
  same hcells := by
    refine Prod.ext (hlocals.read hcells) (funext fun name => ?_)
    show names.imported _ name = names'.imported _ name
    unfold Script.Bindings.imported
    have hcell := himports.cell? name
    generalize names.imports.cell? name = found at hcell ⊢
    generalize names'.imports.cell? name = found' at hcell ⊢
    cases hcell with
    | some hc => exact congrArg some (hcells.read _ _ hc)
    | none => rfl
  functions hcells := hcells.functions
  called hcells _ := ⟨hcells.there, hcells.read, rfl⟩
  assign hcells name v := by
    unfold Script.Bindings.assign
    have hcell := hlocals.cell? name
    generalize names.locals.cell? name = found at hcell ⊢
    generalize names'.locals.cell? name = found' at hcell ⊢
    cases hcell with
    | some hc => exact .ok (hcells.write hC hc v)
    | none =>
      have hforeign := himports.cell? name
      generalize names.imports.cell? name = found at hforeign ⊢
      generalize names'.imports.cell? name = found' at hforeign ⊢
      cases hforeign with
      | some => exact .error _
      | none => exact .error _

end Cells

/-- Two bridges to one library. -/
structure Bridge.Alike (C : CellId → CellId → Prop) (b b' : Bridge) : Prop where
  url : b.url = b'.url
  exports : b.exports.Alike C b'.exports
  executor : b.executor = b'.executor
  status : b.status = b'.status

namespace Store

/-- What executors have changed so far, in both of two stores. -/
def Slot.Alike (C : CellId → CellId → Prop) (slot slot' : Slot) : Prop :=
  slot.cells.Alike C slot'.cells ∧ slot.executor = slot'.executor

variable {b b' : Bridge} {slot slot' : Slot}

theorem exportCell_alike (hb : b.Alike C b') (name : String) :
    Both C (exportCell b name) (exportCell b' name) := by
  unfold exportCell
  have hcell := hb.exports.cell? name
  generalize b.exports.cell? name = found at hcell ⊢
  generalize b'.exports.cell? name = found' at hcell ⊢
  rw [hb.url]
  cases hcell with
  | some hc => exact .ok hc
  | none => exact .error _

theorem performEffect_alike (hC : BiUnique C) (hb : b.Alike C b') (hslot : slot.Alike C slot')
    (tables : Tables) (effect : Effect) :
    Both (Slot.Alike C) (performEffect tables b slot effect)
      (performEffect tables b' slot' effect) := by
  cases effect with
  | set name v =>
    have hcell := exportCell_alike hb name
    simp only [performEffect]
    generalize exportCell b name = found at hcell ⊢
    generalize exportCell b' name = found' at hcell ⊢
    cases hcell with
    | ok hc => exact .ok ⟨hslot.1.write hC hc v, hslot.2⟩
    | error e => exact .error e
  | copy source target =>
    have hsource := exportCell_alike hb source
    have htarget := exportCell_alike hb target
    simp only [performEffect]
    generalize exportCell b source = found at hsource ⊢
    generalize exportCell b' source = found' at hsource ⊢
    cases hsource with
    | error e => exact .error e
    | @ok c c' hc =>
      generalize exportCell b target = found at htarget ⊢
      generalize exportCell b' target = found' at htarget ⊢
      cases htarget with
      | error e => exact .error e
      | @ok other other' hother =>
        refine .ok ⟨?_, hslot.2⟩
        change (slot.cells.write other (slot.cells.read c)).Alike C
          (slot'.cells.write other' (slot'.cells.read c'))
        rw [hslot.1.read c c' hc]
        exact hslot.1.write hC hother _
  | install effects => exact .ok ⟨hslot.1, rfl⟩
  | fail message =>
    simp only [performEffect, hb.url]
    exact .error _
  | fill table =>
    let value (name : String) : Value := ((tables.read table).get? name).getD .undefined
    exact .ok ⟨hb.exports.fill hC value hslot.1, hslot.2⟩

theorem perform_alike (hC : BiUnique C) (hb : b.Alike C b') (hslot : slot.Alike C slot')
    (tables : Tables) (executor : Executor) :
    (perform tables b slot executor).1.Alike C (perform tables b' slot' executor).1 ∧
      (perform tables b slot executor).2 = (perform tables b' slot' executor).2 := by
  induction executor generalizing slot slot' with
  | nil => exact ⟨hslot, rfl⟩
  | cons effect rest ih =>
    have heffect := performEffect_alike hC hb hslot tables effect
    unfold perform
    generalize performEffect tables b slot effect = result at heffect
    generalize performEffect tables b' slot' effect = result' at heffect
    cases heffect with
    | ok hnext => exact ih hnext
    | error e => exact ⟨hslot, rfl⟩

end Store

/-! ## Units -/

/-- Two scripts of one program, linked to units that belong together. -/
structure ScriptUnit.Alike (R : UnitId → UnitId → Prop) (C : CellId → CellId → Prop)
    (u u' : ScriptUnit) : Prop where
  url : u.url = u'.url
  program : u.program = u'.program
  locals : u.locals.Alike C u'.locals
  exports : u.exports.Alike C u'.exports
  imports : u.imports.Alike C u'.imports
  linked : ∀ specifier ∈ u.program.specifiers, ∃ y y', R y y' ∧
    u.dependencies.lookup specifier = some y ∧ u'.dependencies.lookup specifier = some y'
  status : u.status = u'.status

/-- Two units that are made of the same. -/
inductive ModuleUnit.Alike (R : UnitId → UnitId → Prop) (C : CellId → CellId → Prop) :
    ModuleUnit → ModuleUnit → Prop
  | script {u u' : ScriptUnit} : u.Alike R C u' → Alike R C (.script u) (.script u')
  | bridge {b b' : Bridge} : b.Alike C b' → Alike R C (.bridge b) (.bridge b')

namespace ModuleUnit.Alike

variable {unit unit' : ModuleUnit} (h : unit.Alike R C unit')

include h

theorem url : unit.url = unit'.url := by
  cases h with
  | script hu => exact hu.url
  | bridge hb => exact hb.url

theorem status : unit.status = unit'.status := by
  cases h with
  | script hu => exact hu.status
  | bridge hb => exact hb.status

theorem exports : unit.exports.Alike C unit'.exports := by
  cases h with
  | script hu => exact hu.exports
  | bridge hb => exact hb.exports

theorem specifiers : unit.specifiers = unit'.specifiers := by
  cases h with
  | script hu => exact congrArg Script.Program.specifiers hu.program
  | bridge hb => rfl

theorem withStatus (status : Status) :
    (unit.withStatus status).Alike R C (unit'.withStatus status) := by
  cases h with
  | script hu => exact .script { hu with status := rfl }
  | bridge hb => exact .bridge { hb with status := rfl }

end ModuleUnit.Alike

namespace Store

/-- Units that belong together are made of the same, over cells that hold the same. -/
structure Alike (R : UnitId → UnitId → Prop) (C : CellId → CellId → Prop) (s s' : Store) : Prop where
  units : ∀ x x', R x x' → ∃ unit unit', s.unit? x = some unit ∧ s'.unit? x' = some unit' ∧
    unit.Alike R C unit'
  cells : s.cells.Alike C s'.cells
  tables : s.tables = s'.tables

/-- Two calls that end alike. -/
def EndAlike {α : Type} (R : UnitId → UnitId → Prop) (C : CellId → CellId → Prop)
    (r r' : Store × Except LoadError α) : Prop :=
  r.2 = r'.2 ∧ r.1.Alike R C r'.1

variable {s s' : Store} {x x' : UnitId} {unit unit' : ModuleUnit} {u u' : ScriptUnit}
  {b b' : Bridge}

/-- Two units that belong together are changed in the same way. -/
theorem Alike.change (h : s.Alike R C s') (hR : BiUnique R) (hx : R x x')
    {f f' : ModuleUnit → ModuleUnit}
    (hf : ∀ unit unit', unit.Alike R C unit' → (f unit).Alike R C (f' unit')) :
    (s.change x f).Alike R C (s'.change x' f') where
  units y y' hy := by
    obtain ⟨unit, unit', hunit, hunit', halike⟩ := h.units y y' hy
    have hsame : x = y ↔ x' = y' :=
      ⟨fun heq => hR.2 hx (heq ▸ hy), fun heq => hR.1 hx (heq ▸ hy)⟩
    rw [unit?_change, unit?_change, hunit, hunit']
    by_cases heq : x = y
    · rw [if_pos heq, if_pos (hsame.mp heq)]
      exact ⟨_, _, rfl, rfl, hf _ _ halike⟩
    · rw [if_neg heq, if_neg fun heq' => heq (hsame.mpr heq')]
      exact ⟨_, _, rfl, rfl, halike⟩
  cells := h.cells
  tables := h.tables

theorem Alike.setStatus (h : s.Alike R C s') (hR : BiUnique R) (hx : R x x') (status : Status) :
    (s.setStatus x status).Alike R C (s'.setStatus x' status) :=
  h.change hR hx fun _ _ halike => halike.withStatus status

theorem Alike.behind (h : s.Alike R C s') (hunit : unit.Alike R C unit') {specifier : String}
    (hin : specifier ∈ unit.specifiers) : ∃ y y', R y y' ∧ s.behind unit specifier = .ok y ∧
      s'.behind unit' specifier = .ok y' := by
  cases hunit with
  | script hu =>
    obtain ⟨y, y', hy, hlookup, hlookup'⟩ := hu.linked specifier hin
    obtain ⟨unit, unit', hthere, hthere', -⟩ := h.units y y' hy
    exact ⟨y, y', hy, dependency_of_lookup hlookup (by rw [hthere]; rfl),
      dependency_of_lookup hlookup' (by rw [hthere']; rfl)⟩
  | bridge hb => cases hin

/-! ### Turns -/

theorem Alike.importCells (h : s.Alike R C s') (hu : u.Alike R C u') {decl : Script.ImportDecl}
    (hin : decl ∈ u.program.imports) :
    Both (Scope.Alike C) (s.importCells u decl) (s'.importCells u' decl) := by
  have hspecifier : decl.specifier ∈ (ModuleUnit.script u).specifiers := specifier_of_import hin
  obtain ⟨y, y', hy, hbehind, hbehind'⟩ := h.behind (.script hu) hspecifier
  obtain ⟨unit, unit', hunit, hunit', halike⟩ := h.units y y' hy
  have hdependency : s.dependency u decl.specifier = .ok y := hbehind
  have hdependency' : s'.dependency u' decl.specifier = .ok y' := hbehind'
  unfold Store.importCells
  rw [hdependency, hdependency']
  simp only [bind, Except.bind, hunit, hunit']
  refine both_mapM fun binding _ => ?_
  have hcell := halike.exports.cell? binding.imported
  unfold ModuleUnit.export?
  generalize unit.exports.cell? binding.imported = found at hcell ⊢
  generalize unit'.exports.cell? binding.imported = found' at hcell ⊢
  rw [halike.url]
  cases hcell with
  | some hc => exact .ok ⟨rfl, hc⟩
  | none => exact .error _

theorem Alike.allImportCells (h : s.Alike R C s') (hu : u.Alike R C u') :
    Both (Scope.Alike C) (s.allImportCells u) (s'.allImportCells u') := by
  unfold Store.allImportCells
  rw [← hu.program]
  exact (both_mapM fun decl hin => h.importCells hu hin).map fun _ _ hscopes =>
    List.rel_flatten hscopes

theorem Alike.bindImports (h : s.Alike R C s') (hR : BiUnique R) (hx : R x x')
    (hu : u.Alike R C u') : EndAlike R C (s.bindImports x u) (s'.bindImports x' u') := by
  unfold Store.bindImports
  have hcells := h.allImportCells hu
  generalize s.allImportCells u = result at hcells
  generalize s'.allImportCells u' = result' at hcells
  cases hcells with
  | error e => exact ⟨rfl, h⟩
  | ok himports =>
    refine ⟨rfl, h.change hR hx fun unit unit' halike => ?_⟩
    cases halike with
    | script hu => exact .script { hu with imports := himports }
    | bridge hb => exact .bridge hb

theorem Alike.runBody (h : s.Alike R C s') (hC : BiUnique C) (hu : u.Alike R C u') :
    EndAlike R C (s.runBody u) (s'.runBody u') := by
  have hnames : Script.Paired (Cells.Alike C) ⟨u.locals, u.imports⟩ ⟨u'.locals, u'.imports⟩ :=
    Script.paired_alike hC hu.locals hu.imports
  obtain ⟨hresult, hcells⟩ :=
    Script.runStatements_paired hnames h.cells none u.program.statements
  refine ⟨?_, h.units, ?_, h.tables⟩
  · show Except.mapError _ (Script.runStatements _ _ _ _).2 =
      Except.mapError _ (Script.runStatements _ _ _ u'.program.statements).2
    rw [hresult, hu.program, hu.url]
  · show Cells.Alike C (Script.runStatements _ _ _ _).1
      (Script.runStatements _ _ _ u'.program.statements).1
    rw [← hu.program]
    exact hcells

theorem Alike.runExecutor (h : s.Alike R C s') (hR : BiUnique R) (hC : BiUnique C) (hx : R x x')
    (hb : b.Alike C b') : EndAlike R C (s.runExecutor x b) (s'.runExecutor x' b') := by
  unfold Store.runExecutor
  rw [← h.tables, ← hb.executor]
  have hempty : Slot.Alike C ⟨s.cells, none⟩ ⟨s'.cells, none⟩ := ⟨h.cells, rfl⟩
  obtain ⟨hslot, hresult⟩ := perform_alike hC hb hempty s.tables (b.executor.getD [])
  generalize perform s.tables b _ _ = done at hslot hresult ⊢
  generalize perform s.tables b' _ _ = done' at hslot hresult ⊢
  obtain ⟨slot, result⟩ := done
  obtain ⟨slot', result'⟩ := done'
  have hcells : Store.Alike R C { s with cells := slot.cells }
      { s' with cells := slot'.cells, tables := s.tables } := ⟨h.units, hslot.1, rfl⟩
  refine ⟨hresult, hcells.change hR hx fun unit unit' halike => ?_⟩
  cases halike with
  | script hu => exact .script hu
  | bridge hb => exact .bridge { hb with executor := hslot.2 }

end Store

/-! ## Searches -/

namespace Phase

open Store (EndAlike)

variable {phase : Phase} {s s' : Store} {x x' : UnitId} {unit unit' : ModuleUnit}

/-- A search that does the same to units that are made of the same. -/
structure Parallel (phase : Phase) (R : UnitId → UnitId → Prop) (C : CellId → CellId → Prop) :
    Prop where
  answer : ∀ {unit unit'}, unit.Alike R C unit' → phase.answer unit = phase.answer unit'
  act : ∀ {s s' x x' unit unit'}, s.Alike R C s' → R x x' → unit.Alike R C unit' →
    EndAlike R C (phase.act s x unit) (phase.act s' x' unit')

theorem endAlike_settle (hR : BiUnique R) (hx : R x x') {r r' : Store × Except LoadError Status}
    (h : EndAlike R C r r') : EndAlike R C (settle x r) (settle x' r') := by
  obtain ⟨s, result⟩ := r
  obtain ⟨s', result'⟩ := r'
  obtain ⟨rfl, halike⟩ := h
  cases result with
  | ok status => exact ⟨rfl, halike.setStatus hR hx status⟩
  | error e => exact ⟨rfl, halike.setStatus hR hx (.errored e)⟩

theorem Parallel.finish (h : phase.Parallel R C) (hR : BiUnique R) (hx : R x x')
    (hunit : unit.Alike R C unit') {r r' : Store × Except LoadError Unit} (hr : EndAlike R C r r') :
    EndAlike R C (phase.finish x unit r) (phase.finish x' unit' r') := by
  obtain ⟨s, result⟩ := r
  obtain ⟨s', result'⟩ := r'
  obtain ⟨rfl, halike⟩ := hr
  cases result with
  | ok => exact endAlike_settle hR hx (h.act halike hx hunit)
  | error e => exact endAlike_settle hR hx ⟨rfl, halike⟩

/-- Steps that keep stores alike do so one after the other. -/
theorem endAlike_forEach {α : Type} {step step' : Store → α → Store × Except LoadError Unit}
    {items : List α} (hstep : ∀ t t' a, a ∈ items → t.Alike R C t' →
      EndAlike R C (step t a) (step' t' a)) (hs : s.Alike R C s') :
    EndAlike R C (s.forEach step items) (s'.forEach step' items) := by
  induction items generalizing s s' with
  | nil => exact ⟨rfl, hs⟩
  | cons a rest ih =>
    have hfirst := hstep s s' a List.mem_cons_self hs
    unfold Store.forEach
    generalize step s a = r at hfirst ⊢
    generalize step' s' a = r' at hfirst ⊢
    obtain ⟨t, result⟩ := r
    obtain ⟨t', result'⟩ := r'
    obtain ⟨rfl, halike⟩ := hfirst
    cases result with
    | ok => exact ih (fun t t' b hb => hstep t t' b (List.mem_cons_of_mem _ hb)) halike
    | error e => exact ⟨rfl, halike⟩

/-- A search keeps stores alike, however deep it goes. -/
theorem Parallel.within (h : phase.Parallel R C) (hR : BiUnique R) (depth : Nat)
    (hs : s.Alike R C s') (hx : R x x') :
    EndAlike R C (phase.within depth s x) (phase.within depth s' x') := by
  induction depth generalizing s s' x x' with
  | zero => exact ⟨rfl, hs⟩
  | succ depth ih =>
    obtain ⟨unit, unit', hunit, hunit', halike⟩ := hs.units x x' hx
    have hanswer := h.answer halike
    cases hopen : phase.answer unit with
    | some r =>
      rw [within_answered depth hunit hopen, within_answered depth hunit' (hanswer ▸ hopen)]
      exact ⟨rfl, hs⟩
    | none =>
      rw [within_entered depth hunit hopen, within_entered depth hunit' (hanswer ▸ hopen)]
      refine h.finish hR hx halike ?_
      rw [← halike.specifiers]
      refine endAlike_forEach (fun t t' specifier hin ht => ?_) (hs.setStatus hR hx phase.during)
      -- both go on to units that belong together
      obtain ⟨y, y', hy, hbehind, hbehind'⟩ := ht.behind halike hin
      rw [follow_ok hbehind, follow_ok hbehind']
      exact ih ht hy

end Phase

theorem parallel_instantiation (hR : BiUnique R) : instantiation.Parallel R C where
  answer h := by
    cases h with
    | script hu => simp only [instantiation, hu.status, hu.url]
    | bridge hb => simp only [instantiation, hb.status]
  act h hx hunit := by
    cases hunit with
    | script hu =>
      obtain ⟨hresult, halike⟩ := h.bindImports hR hx hu
      exact ⟨congrArg (Except.map fun _ => Status.instantiated) hresult, halike⟩
    | bridge hb => exact ⟨rfl, h⟩

theorem parallel_evaluation (hR : BiUnique R) (hC : BiUnique C) : evaluation.Parallel R C where
  answer h := by
    cases h with
    | script hu => simp only [evaluation, hu.status, hu.url]
    | bridge hb => simp only [evaluation, hb.status, hb.url]
  act h hx hunit := by
    cases hunit with
    | script hu =>
      obtain ⟨hresult, halike⟩ := h.runBody hC hu
      exact ⟨congrArg (Except.map Status.evaluated) hresult, halike⟩
    | bridge hb =>
      obtain ⟨hresult, halike⟩ := h.runExecutor hR hC hx hb
      exact ⟨congrArg (Except.map fun _ => Status.evaluated none) hresult, halike⟩

namespace Store

variable {s s' : Store} {x x' : UnitId}

/-- To instantiate a unit does the same in stores that are alike. -/
theorem Alike.instantiate (h : s.Alike R C s') (hR : BiUnique R) (hs : s.NoManifests)
    (hs' : s'.NoManifests) (hx : R x x') :
    EndAlike R C (s.instantiate x) (s'.instantiate x') := by
  have hwithin := (parallel_instantiation hR).within hR (s.units.size + s'.units.size + 1) h hx
  rw [← instantiateWithin_eq hs, ← instantiateWithin_eq hs',
    instantiateWithin_of_size hs x (by omega), instantiateWithin_of_size hs' x' (by omega)] at hwithin
  exact hwithin

/-- So does to evaluate it. -/
theorem Alike.evaluate (h : s.Alike R C s') (hR : BiUnique R) (hC : BiUnique C) (hs : s.Plain)
    (hs' : s'.Plain) (hx : R x x') :
    EndAlike R C (forget (s.evaluate x)) (forget (s'.evaluate x')) := by
  have hwithin := (parallel_evaluation hR hC).within hR (s.units.size + s'.units.size + 1) h hx
  rw [← evaluateWithin_eq hs.noManifests, ← evaluateWithin_eq hs'.noManifests,
    evaluateWithin_of_size hs x (by omega), evaluateWithin_of_size hs' x' (by omega)] at hwithin
  exact hwithin

end Store

end ModuleLoader
