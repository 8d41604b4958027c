import Mathlib.Data.List.Nodup
import ModuleLoader.Graph.Store
/-!
# Names of units

A script that compiles uses every name for one thing: what it imports and what it declares are
distinct, and no name is exported twice. Its cells are new, one for each local, and its exports are
cells of locals.

Results:
1. `Declarations.Distinct`, `distinct_declarations`: what the rules for declarations amount to.
2. `fresh_eq`, `mem_fresh`: new cells for names, one after the other.
3. `ScriptUnit.Named`, `named_compile`: the names and cells of a script as it is made.
4. `cell?_ofScope`: a namespace shows the cells of the scope that it is made of.
-/
namespace ModuleLoader

theorem nodup_snoc {α : Type} {items : List α} {a : α} (h : items.Nodup) (ha : a ∉ items) :
    (items ++ [a]).Nodup := by
  rw [← List.concat_eq_append]
  exact h.concat ha

/-! ## Declarations -/

namespace Script

/-- A name that a script imports: from where, which one, and as what. -/
structure Want where
  specifier : String
  imported : String
  here : String
deriving DecidableEq, Repr

/-- All that a program imports, in source order. -/
def Program.wants (p : Program) : List Want :=
  p.imports.flatMap fun decl =>
    decl.bindings.map fun binding => ⟨decl.specifier, binding.imported, binding.here⟩

namespace Declarations

/-- Every name is declared once and exported once, and what is exported is a local. -/
structure Distinct (d : Declarations) : Prop where
  names : (d.imported ++ d.locals).Nodup
  exported : (d.exports.map Prod.fst).Nodup
  here : ∀ e ∈ d.exports, e.2 ∈ d.locals

/-- Before the export lists are read, a name is exported as itself. -/
structure Plain (d : Declarations) : Prop where
  distinct : d.Distinct
  same : ∀ e ∈ d.exports, e.1 = e.2

variable {d d' : Declarations} {name : String}

theorem not_mem_of_not_declares (h : ¬ d.declares name = true) :
    name ∉ d.imported ∧ name ∉ d.locals := by
  simpa [declares] using h

theorem addImport_ok {binding : ImportBinding} (h : d.addImport binding = .ok d') :
    binding.here ∉ d.imported ++ d.locals ∧
      d' = { d with imported := d.imported ++ [binding.here] } := by
  unfold addImport at h
  split at h
  next => cases h
  next hnew =>
    cases h
    obtain ⟨himported, hlocals⟩ := not_mem_of_not_declares hnew
    exact ⟨fun hin => (List.mem_append.mp hin).elim himported hlocals, rfl⟩

theorem Plain.addImport {binding : ImportBinding} (hd : d.Plain)
    (h : d.addImport binding = .ok d') : d'.Plain := by
  obtain ⟨hnew, rfl⟩ := addImport_ok h
  refine ⟨⟨?_, hd.distinct.exported, hd.distinct.here⟩, hd.same⟩
  have hperm : (d.imported ++ [binding.here] ++ d.locals).Perm
      (binding.here :: (d.imported ++ d.locals)) := by
    rw [List.append_assoc]
    exact List.perm_middle
  exact hperm.nodup_iff.mpr (List.nodup_cons.mpr ⟨hnew, hd.distinct.names⟩)

theorem Plain.addLocal {exported : Bool} (hd : d.Plain) (h : d.addLocal name exported = .ok d') :
    d'.Plain ∧ d'.imported = d.imported := by
  unfold Declarations.addLocal at h
  split at h
  next => cases h
  next hnew =>
    cases h
    obtain ⟨himported, hlocals⟩ := not_mem_of_not_declares hnew
    refine ⟨⟨⟨?_, ?_, fun e he => ?_⟩, fun e he => ?_⟩, rfl⟩
    · rw [← List.append_assoc]
      exact nodup_snoc hd.distinct.names fun hin => (List.mem_append.mp hin).elim himported hlocals
    · cases exported with
      | false => exact hd.distinct.exported
      | true =>
        simp only [if_true, List.map_append, List.map_cons, List.map_nil]
        refine nodup_snoc hd.distinct.exported fun hin => ?_
        -- a name that is exported already is a local already
        obtain ⟨e, he, rfl⟩ := List.mem_map.mp hin
        exact hlocals (hd.same e he ▸ hd.distinct.here e he)
    · cases exported with
      | false => exact List.mem_append_left _ (hd.distinct.here e he)
      | true =>
        rcases List.mem_append.mp he with he | he
        · exact List.mem_append_left _ (hd.distinct.here e he)
        · cases List.mem_singleton.mp he
          exact List.mem_append_right _ List.mem_cons_self
    · cases exported with
      | false => exact hd.same e he
      | true =>
        rcases List.mem_append.mp he with he | he
        · exact hd.same e he
        · cases List.mem_singleton.mp he
          rfl

theorem Distinct.addExport {binding : ExportBinding} (hd : d.Distinct)
    (h : d.addExport binding = .ok d') : d'.Distinct ∧ d'.imported = d.imported := by
  unfold Declarations.addExport at h
  split at h
  next hlocal =>
    split at h
    next => cases h
    next hnew =>
      cases h
      refine ⟨⟨hd.names, ?_, fun e he => ?_⟩, rfl⟩
      · rw [List.map_append]
        refine nodup_snoc hd.exported fun hin => ?_
        obtain ⟨e, he, heq⟩ := List.mem_map.mp hin
        exact hnew (List.any_eq_true.mpr ⟨e, he, decide_eq_true heq⟩)
      · rcases List.mem_append.mp he with he | he
        · exact hd.here e he
        · cases List.mem_singleton.mp he
          exact List.contains_iff_mem.mp hlocal
  next =>
    split at h
    next => cases h
    next => cases h

/-- The names that a statement imports under. -/
def importedBy : Statement → List String
  | .importFrom decl => decl.bindings.map ImportBinding.here
  | _ => []

theorem map_here_wants (p : Program) : p.wants.map Want.here = p.statements.flatMap importedBy := by
  unfold Program.wants Program.imports
  induction p.statements with
  | nil => rfl
  | cons statement rest ih =>
    rw [List.flatMap_cons, ← ih]
    cases statement with
    | importFrom decl =>
      simp only [List.filterMap_cons, List.flatMap_cons, List.map_append, List.map_map, importedBy]
      rfl
    | _ => rfl

theorem Plain.addImports {bindings : List ImportBinding} (hd : d.Plain)
    (h : bindings.foldlM Declarations.addImport d = .ok d') :
    d'.Plain ∧ d'.imported = d.imported ++ bindings.map ImportBinding.here := by
  induction bindings generalizing d with
  | nil => cases h; exact ⟨hd, by simp⟩
  | cons binding rest ih =>
    rw [List.foldlM_cons] at h
    cases hfirst : d.addImport binding with
    | error e => rw [hfirst] at h; cases h
    | ok d₁ =>
      rw [hfirst] at h
      obtain ⟨hplain, himported⟩ := ih (hd.addImport hfirst) h
      refine ⟨hplain, ?_⟩
      rw [himported, (addImport_ok hfirst).2]
      simp

theorem Plain.addDeclared {statements : List Statement} (hd : d.Plain)
    (h : statements.foldlM Declarations.addDeclared d = .ok d') :
    d'.Plain ∧ d'.imported = d.imported ++ statements.flatMap importedBy := by
  induction statements generalizing d with
  | nil => cases h; exact ⟨hd, by simp⟩
  | cons statement rest ih =>
    rw [List.foldlM_cons] at h
    cases hfirst : d.addDeclared statement with
    | error e => rw [hfirst] at h; cases h
    | ok d₁ =>
      rw [hfirst] at h
      have hstep : d₁.Plain ∧ d₁.imported = d.imported ++ importedBy statement := by
        cases statement with
        | importFrom decl => exact hd.addImports hfirst
        | declare name init exported span =>
          obtain ⟨hplain, himported⟩ := hd.addLocal hfirst
          exact ⟨hplain, by simp [himported, importedBy]⟩
        | _ => cases hfirst; exact ⟨hd, by simp [importedBy]⟩
      obtain ⟨hplain, himported⟩ := ih hstep.1 h
      refine ⟨hplain, ?_⟩
      rw [himported, hstep.2, List.flatMap_cons, List.append_assoc]

theorem Distinct.addExports {bindings : List ExportBinding} (hd : d.Distinct)
    (h : bindings.foldlM Declarations.addExport d = .ok d') :
    d'.Distinct ∧ d'.imported = d.imported := by
  induction bindings generalizing d with
  | nil => cases h; exact ⟨hd, rfl⟩
  | cons binding rest ih =>
    rw [List.foldlM_cons] at h
    cases hfirst : d.addExport binding with
    | error e => rw [hfirst] at h; cases h
    | ok d₁ =>
      rw [hfirst] at h
      obtain ⟨hdistinct, himported⟩ := hd.addExport hfirst
      obtain ⟨hrest, hrest'⟩ := ih hdistinct h
      exact ⟨hrest, hrest'.trans himported⟩

theorem Distinct.addListed {statements : List Statement} (hd : d.Distinct)
    (h : statements.foldlM Declarations.addListed d = .ok d') :
    d'.Distinct ∧ d'.imported = d.imported := by
  induction statements generalizing d with
  | nil => cases h; exact ⟨hd, rfl⟩
  | cons statement rest ih =>
    rw [List.foldlM_cons] at h
    cases hfirst : d.addListed statement with
    | error e => rw [hfirst] at h; cases h
    | ok d₁ =>
      rw [hfirst] at h
      have hstep : d₁.Distinct ∧ d₁.imported = d.imported := by
        cases statement with
        | exportList bindings => exact hd.addExports hfirst
        | _ => cases hfirst; exact ⟨hd, rfl⟩
      obtain ⟨hrest, hrest'⟩ := ih hstep.1 h
      exact ⟨hrest, hrest'.trans hstep.2⟩

/-- What the declarations of a program are if they break no rule. -/
theorem distinct_declarations {p : Program} (h : declarations p = .ok d) :
    d.Distinct ∧ d.imported = p.wants.map Want.here := by
  have hempty : Plain {} := ⟨⟨by simp, by simp, by simp⟩, by simp⟩
  unfold declarations at h
  cases hdeclared : p.statements.foldlM addDeclared {} with
  | error e => rw [hdeclared] at h; cases h
  | ok declared =>
    rw [hdeclared] at h
    obtain ⟨hplain, himported⟩ := hempty.addDeclared hdeclared
    obtain ⟨hdistinct, hsame⟩ := hplain.distinct.addListed h
    refine ⟨hdistinct, ?_⟩
    rw [hsame, himported, map_here_wants]
    rfl

end Declarations

end Script

/-! ## Cells for names -/

namespace Scope

variable {names : List String} {cells : Cells}

theorem foldl_alloc (names : List String) (cells : Cells) (scope : Scope) :
    names.foldl (fun (cells, scope) name =>
      let (cells, cell) := cells.alloc .undefined
      (cells, scope ++ [(name, cell)])) (cells, scope) =
    ({ cells with values := cells.values ++ Array.replicate names.length .undefined },
      scope ++ names.mapIdx fun i name => (name, ⟨cells.values.size + i⟩)) := by
  induction names generalizing cells scope with
  | nil => simp
  | cons name rest ih =>
    rw [List.foldl_cons]
    refine (ih (cells.alloc .undefined).1 (scope ++ [(name, ⟨cells.values.size⟩)])).trans ?_
    refine Prod.ext (congrArg (Cells.mk · cells.functions) ?_) ?_
    · apply Array.ext'
      simp [Cells.alloc, List.replicate_succ]
    · simp only [Cells.alloc, Array.size_push, List.mapIdx_cons, Nat.add_zero, List.append_assoc,
        List.cons_append, List.nil_append, Nat.add_assoc, Nat.add_comm 1]

/-- Each name gets the next cell after those that there were. -/
theorem fresh_eq (names : List String) (cells : Cells) : fresh names cells =
    ({ cells with values := cells.values ++ Array.replicate names.eraseDups.length .undefined },
      names.eraseDups.mapIdx fun i name => (name, ⟨cells.values.size + i⟩)) := by
  unfold fresh
  rw [foldl_alloc, List.nil_append]

theorem names_fresh (names : List String) (cells : Cells) :
    (fresh names cells).2.map Prod.fst = names.eraseDups := by
  rw [fresh_eq]
  apply List.ext_getElem
  · simp
  · intro i h _
    simp

/-- Old cells keep their values while new ones are made. -/
theorem read_fresh (names : List String) {cells : Cells} {cell : CellId}
    (h : cell.index < cells.values.size) : (fresh names cells).1.read cell = cells.read cell := by
  rw [fresh_eq]
  unfold Cells.read
  simp only [Array.getD_eq_getD_getElem?]
  rw [Array.getElem?_append_left h]

theorem functions_fresh (names : List String) (cells : Cells) :
    (fresh names cells).1.functions = cells.functions := by
  rw [fresh_eq]

theorem size_fresh (names : List String) (cells : Cells) :
    (fresh names cells).1.values.size = cells.values.size + names.eraseDups.length := by
  rw [fresh_eq]
  simp

/-- New cells stand behind the old ones, and hold nothing. -/
theorem mem_fresh {e : String × CellId} (h : e ∈ (fresh names cells).2) :
    cells.values.size ≤ e.2.index ∧ e.2.index < (fresh names cells).1.values.size ∧
      (fresh names cells).1.read e.2 = .undefined := by
  rw [size_fresh]
  rw [fresh_eq] at h ⊢
  obtain ⟨i, hi, rfl⟩ := List.mem_mapIdx.mp h
  refine ⟨Nat.le_add_right _ _, Nat.add_lt_add_left hi _, ?_⟩
  unfold Cells.read
  simp only [Array.getD_eq_getD_getElem?]
  rw [Array.getElem?_append_right (Nat.le_add_right _ _), Nat.add_sub_cancel_left,
    Array.getElem?_replicate]
  simp [hi]

theorem nodup_fresh (names : List String) (cells : Cells) :
    ((fresh names cells).2.map Prod.snd).Nodup := by
  rw [fresh_eq, List.nodup_iff_injective_get]
  intro i k h
  simp only [List.get_eq_getElem, List.getElem_map, List.getElem_mapIdx, CellId.mk.injEq,
    Nat.add_left_cancel_iff] at h
  exact Fin.ext h

theorem cell?_eq_none {scope : Scope} {name : String} :
    scope.cell? name = none ↔ name ∉ scope.map Prod.fst := by
  unfold cell?
  rw [List.lookup_eq_none_iff]
  simp only [List.mem_map, not_exists, not_and]
  constructor
  · rintro h e he rfl
    simpa using h e he
  · intro h e he
    simpa using fun heq => h e he heq.symm

theorem mem_of_cell? {scope : Scope} {name : String} {cell : CellId}
    (h : scope.cell? name = some cell) : (name, cell) ∈ scope := by
  unfold cell? at h
  obtain ⟨l₁, l₂, heq, -⟩ := List.lookup_eq_some_iff.mp h
  rw [heq]
  simp

theorem cell?_of_mem {scope : Scope} {name : String} {cell : CellId}
    (hnodup : (scope.map Prod.fst).Nodup) (h : (name, cell) ∈ scope) :
    scope.cell? name = some cell := by
  induction scope with
  | nil => cases h
  | cons entry rest ih =>
    rw [List.map_cons, List.nodup_cons] at hnodup
    unfold cell?
    rcases List.mem_cons.mp h with rfl | hrest
    · exact List.lookup_cons_self
    · have hne : name ≠ entry.1 := fun heq =>
        hnodup.1 (heq ▸ List.mem_map.mpr ⟨_, hrest, rfl⟩)
      rw [List.lookup_cons, beq_false_of_ne hne]
      exact ih hnodup.2 hrest

/-- A namespace shows the cells of the scope that it is made of. -/
theorem cell?_ofScope {scope : Scope} (hnodup : (scope.map Prod.fst).Nodup) (name : String) :
    (Namespace.ofScope scope).cell? name = scope.cell? name := by
  have hperm := List.mergeSort_perm scope fun a b => nameLe a.1 b.1
  have hsorted : ((Namespace.ofScope scope).entries.map Prod.fst).Nodup :=
    (hperm.map Prod.fst).nodup_iff.mpr hnodup
  unfold Namespace.cell?
  cases hcell : scope.cell? name with
  | none =>
    rw [cell?_eq_none] at hcell ⊢
    exact fun hin => hcell ((hperm.map Prod.fst).mem_iff.mp hin)
  | some cell => exact cell?_of_mem hsorted (hperm.mem_iff.mpr (mem_of_cell? hcell))

end Scope

/-! ## Scripts as they are made -/

/-- The names of a script stand for one thing each, and its exports are cells of its locals. -/
structure ScriptUnit.Named (u : ScriptUnit) : Prop where
  imported : (u.program.wants.map Script.Want.here).Nodup
  hidden : ∀ w ∈ u.program.wants, u.locals.cell? w.here = none
  exported : (u.exports.map Prod.fst).Nodup
  own : ∀ e ∈ u.exports, ∃ name, u.locals.cell? name = some e.2

variable {url : Url} {source : String} {cells cells' : Cells} {u : ScriptUnit}

theorem compile_eq_ok (h : ScriptUnit.compile url source cells = .ok (cells', u)) :
    ∃ program names, Script.parse source = .ok program ∧
      Script.declarations program = .ok names ∧
      cells' = (Scope.fresh names.locals cells).1 ∧
      u = { url, program, locals := (Scope.fresh names.locals cells).2, exports :=
        names.exports.filterMap fun (exported, here) =>
          ((Scope.fresh names.locals cells).2.cell? here).map fun cell => (exported, cell) } := by
  unfold ScriptUnit.compile at h
  cases hparse : Script.parse source with
  | error e => rw [hparse] at h; cases h
  | ok program =>
    rw [hparse] at h
    cases hnames : Script.declarations program with
    | error e =>
      simp only [Except.mapError, bind, Except.bind, hnames] at h
      cases h
    | ok names =>
      simp only [Except.mapError, bind, Except.bind, hnames] at h
      cases h
      exact ⟨program, names, rfl, hnames, rfl, rfl⟩

/-- A source without a mistake compiles. -/
theorem compile_of_declarations {program : Script.Program} {names : Script.Declarations}
    (hparse : Script.parse source = .ok program) (hnames : Script.declarations program = .ok names) :
    ∃ cells' u, ScriptUnit.compile url source cells = .ok (cells', u) := by
  unfold ScriptUnit.compile
  rw [hparse]
  simp only [Except.mapError, bind, Except.bind, hnames]
  exact ⟨_, _, rfl⟩

/-- Exports stand in the order in which they were declared. -/
theorem exported_sublist (exports : List (String × String)) (scope : Scope) :
    ((exports.filterMap fun (exported, here) =>
      (scope.cell? here).map fun cell => (exported, cell)).map Prod.fst).Sublist
      (exports.map Prod.fst) := by
  induction exports with
  | nil => exact List.nil_sublist []
  | cons e rest ih =>
    rw [List.filterMap_cons, List.map_cons]
    cases hcell : scope.cell? e.2 with
    | none => simpa [hcell] using ih.cons e.1
    | some cell => simpa [hcell] using ih.cons_cons e.1

theorem named_compile (h : ScriptUnit.compile url source cells = .ok (cells', u)) : u.Named := by
  obtain ⟨program, names, -, hnames, -, rfl⟩ := compile_eq_ok h
  obtain ⟨hdistinct, himported⟩ := Script.Declarations.distinct_declarations hnames
  obtain ⟨hnodup, -, hapart⟩ := List.nodup_append.mp hdistinct.names
  refine ⟨himported ▸ hnodup, fun w hw => ?_, ?_, fun e he => ?_⟩
  · rw [Scope.cell?_eq_none, Scope.names_fresh, List.mem_eraseDups]
    refine fun hlocal => hapart w.here ?_ w.here hlocal rfl
    rw [himported]
    exact List.mem_map_of_mem hw
  · exact hdistinct.exported.sublist (exported_sublist names.exports _)
  · obtain ⟨pair, -, heq⟩ := List.mem_filterMap.mp he
    obtain ⟨cell, hcell, rfl⟩ := Option.map_eq_some_iff.mp heq
    exact ⟨pair.2, hcell⟩

end ModuleLoader
