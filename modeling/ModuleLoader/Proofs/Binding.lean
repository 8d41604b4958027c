import ModuleLoader.Proofs.Names
import ModuleLoader.Proofs.Phases
/-!
# Binding imports

A script asks for names of the units behind its specifiers. Instantiating it binds each of them to
the cell that the other unit exports, or ends with the first that is not exported.

Results:
1. `wants`, `wanted?`, `lack?`: what a unit asks for, the cell behind it, and the error if it lacks.
2. `allImportCells_eq`, `import_of_ok`: binding goes through what is asked for in source order.
3. `Binds`: an imported name stands for the cell of the exporter.
4. `turn_instantiation`: the turn of a linked unit goes well exactly if it lacks nothing.
-/
namespace ModuleLoader

open Script (Want)

/-! ## Lists of results -/

/-- The first error, if there is any. -/
def okUnless {ε : Type} : Option ε → Except ε Unit
  | some e => .error e
  | none => .ok ()

section Results

variable {α β γ ε : Type} {f : α → Except ε β} {items : List α} {values : List β} {e : ε}

/-- Where a list is worked through without a failure, each item has its value. -/
theorem forall₂_of_mapM (h : items.mapM f = .ok values) :
    List.Forall₂ (fun a b => f a = .ok b) items values := by
  induction items generalizing values with
  | nil => cases h; exact .nil
  | cons a rest ih =>
    rw [List.mapM_cons] at h
    cases ha : f a with
    | error e => rw [ha] at h; cases h
    | ok b =>
      rw [ha] at h
      cases hrest : rest.mapM f with
      | error e => rw [hrest] at h; cases h
      | ok bs => rw [hrest] at h; cases h; exact .cons ha (ih hrest)

theorem ok_of_mapM (h : items.mapM f = .ok values) {a : α} (ha : a ∈ items) :
    ∃ b, f a = .ok b := by
  obtain ⟨b, -, hb⟩ := exists_of_forall₂ (forall₂_of_mapM h) ha
  exact ⟨b, hb⟩

theorem mapM_congr {g : α → Except ε β} (h : ∀ a ∈ items, f a = g a) :
    items.mapM f = items.mapM g := by
  induction items with
  | nil => rfl
  | cons a rest ih =>
    rw [List.mapM_cons, List.mapM_cons, h a List.mem_cons_self,
      ih fun b hb => h b (List.mem_cons_of_mem _ hb)]

/-- Working through lists one after the other is working through all of them at once. -/
theorem mapM_flatMap {groups : List γ} (inner : γ → List α) (f : α → Except ε β) :
    (groups.mapM fun g => (inner g).mapM f).map List.flatten = (groups.flatMap inner).mapM f := by
  induction groups with
  | nil => rfl
  | cons g rest ih =>
    rw [List.mapM_cons, List.flatMap_cons, List.mapM_append, ← ih]
    cases (inner g).mapM f with
    | error e => rfl
    | ok first =>
      cases rest.mapM fun g => (inner g).mapM f with
      | error e => rfl
      | ok later => rfl

/-- A list is worked through up to the first item that has an error. -/
theorem mapM_eq_findSome? {error? : α → Option ε}
    (h : ∀ a ∈ items, match error? a with
      | some e => f a = .error e
      | none => ∃ b, f a = .ok b) :
    (items.mapM f).map (fun _ => ()) = okUnless (items.findSome? error?) := by
  induction items with
  | nil => rfl
  | cons a rest ih =>
    have ha := h a List.mem_cons_self
    have hrest := ih fun b hb => h b (List.mem_cons_of_mem _ hb)
    rw [List.mapM_cons, List.findSome?_cons]
    cases herror : error? a with
    | some e =>
      rw [herror] at ha
      rw [ha]
      rfl
    | none =>
      rw [herror] at ha
      obtain ⟨b, hb⟩ := ha
      rw [hb]
      simp only
      rw [← hrest]
      cases rest.mapM f <;> rfl

end Results

namespace Store

variable {s s' t : Store} {x y id : UnitId} {w : Want} {u : ScriptUnit} {cell : CellId}

/-! ## What a unit asks for -/

/-- The names that a unit imports, in source order. -/
def wants (s : Store) (x : UnitId) : List Want :=
  match s.shape? x with
  | some (.script _ program _) => program.wants
  | _ => []

/-- The unit behind a specifier of another. -/
def source? (s : Store) (x : UnitId) (specifier : String) : Option ModuleUnit :=
  match s.shape? x with
  | some (.script _ _ dependencies) => (dependencies.lookup specifier).bind s.unit?
  | _ => none

/-- The cell that an imported name is to be bound to. -/
def wanted? (s : Store) (x : UnitId) (w : Want) : Option CellId :=
  (s.source? x w.specifier).bind fun exporter => exporter.export? w.imported

/-- The error for a name that the unit behind the specifier does not export. -/
def lack? (s : Store) (x : UnitId) (w : Want) : Option LoadError :=
  match s.source? x w.specifier with
  | some exporter =>
    if (exporter.export? w.imported).isNone then some (.unknownExport exporter.url w.imported)
    else none
  | none => none

/-- The first error for a name that one of some units lacks. -/
def firstLack? (s : Store) (units : List UnitId) : Option LoadError :=
  units.findSome? fun x => (s.wants x).findSome? (s.lack? x)

theorem wants_of_script (hu : s.unit? x = some (.script u)) : s.wants x = u.program.wants := by
  unfold wants shape?
  rw [hu]
  rfl

theorem script_of_wants (hw : w ∈ s.wants x) : ∃ u, s.unit? x = some (.script u) := by
  unfold wants shape? at hw
  cases hunit : s.unit? x with
  | none => rw [hunit] at hw; cases hw
  | some unit =>
    cases unit with
    | script u => exact ⟨u, rfl⟩
    | bridge b => rw [hunit] at hw; cases hw
    | manifest m => rw [hunit] at hw; cases hw

theorem source?_of_script (hu : s.unit? x = some (.script u)) (specifier : String) :
    s.source? x specifier = (u.dependencies.lookup specifier).bind s.unit? := by
  unfold source? shape?
  rw [hu]
  rfl

/-- The binding of one imported name. -/
def bindWant (s : Store) (u : ScriptUnit) (w : Want) : Except LoadError (String × CellId) := do
  let y ← s.dependency u w.specifier
  match s.unit? y with
  | none => throw (.link u.url (.unloaded w.specifier))
  | some exporter =>
    match exporter.export? w.imported with
    | some cell => .ok (w.here, cell)
    | none => .error (.unknownExport exporter.url w.imported)

/-- A specifier of a complete script has its unit behind it. -/
theorem Complete.source (h : s.Complete x) (hu : s.unit? x = some (.script u)) {specifier : String}
    (hin : specifier ∈ u.program.specifiers) : ∃ y exporter, s.dependency u specifier = .ok y ∧
      s.unit? y = some exporter ∧ s.source? x specifier = some exporter := by
  obtain ⟨y, hlookup, hy⟩ := h u hu specifier hin
  obtain ⟨exporter, hexporter⟩ := Option.isSome_iff_exists.mp hy
  refine ⟨y, exporter, dependency_of_lookup hlookup hy, hexporter, ?_⟩
  rw [source?_of_script hu, hlookup]
  exact hexporter

theorem specifier_of_import {p : Script.Program} {decl : Script.ImportDecl} (h : decl ∈ p.imports) :
    decl.specifier ∈ p.specifiers := by
  unfold Script.Program.specifiers
  rw [List.mem_eraseDups]
  exact List.mem_map_of_mem h

theorem specifier_of_want {p : Script.Program} (h : w ∈ p.wants) : w.specifier ∈ p.specifiers := by
  obtain ⟨decl, hdecl, hw⟩ := List.mem_flatMap.mp h
  obtain ⟨binding, -, rfl⟩ := List.mem_map.mp hw
  exact specifier_of_import hdecl

theorem allImportCells_eq (h : s.Complete x) (hu : s.unit? x = some (.script u)) :
    s.allImportCells u = u.program.wants.mapM (s.bindWant u) := by
  have hcells : ∀ decl ∈ u.program.imports, s.importCells u decl =
      (decl.bindings.map fun b => (⟨decl.specifier, b.imported, b.here⟩ : Want)).mapM
        (s.bindWant u) := by
    intro decl hdecl
    obtain ⟨y, exporter, hy, hexporter, -⟩ := h.source hu (specifier_of_import hdecl)
    unfold importCells
    rw [hy, List.mapM_map]
    simp only [bind, Except.bind, hexporter]
    congr 1
    funext binding
    cases hcell : exporter.export? binding.imported <;>
      simp only [bindWant, Function.comp_apply, hy, bind, Except.bind, hexporter, hcell]
  unfold allImportCells Script.Program.wants
  rw [← mapM_flatMap, mapM_congr hcells]

/-- What comes of binding one name follows from what the other unit exports. -/
theorem bindWant_eq (h : s.Complete x) (hu : s.unit? x = some (.script u))
    (hw : w ∈ u.program.wants) : match s.lack? x w with
      | some e => s.bindWant u w = .error e
      | none => ∃ cell, s.wanted? x w = some cell ∧ s.bindWant u w = .ok (w.here, cell) := by
  obtain ⟨y, exporter, hy, hexporter, hsource⟩ := h.source hu (specifier_of_want hw)
  unfold lack? wanted? bindWant
  rw [hsource, hy]
  simp only [bind, Except.bind, hexporter, Option.bind_some]
  cases exporter.export? w.imported with
  | none => rfl
  | some cell => exact ⟨cell, rfl, rfl⟩

theorem lack?_eq_none (h : s.Complete x) (hw : w ∈ s.wants x) :
    s.lack? x w = none ↔ (s.wanted? x w).isSome = true := by
  obtain ⟨u, hu⟩ := script_of_wants hw
  rw [wants_of_script hu] at hw
  obtain ⟨y, exporter, -, -, hsource⟩ := h.source hu (specifier_of_want hw)
  unfold lack? wanted?
  rw [hsource]
  cases hcell : exporter.export? w.imported <;> simp [hcell]

/-- The imports of a script if none of them lacks: one cell for each name, in source order. -/
theorem import_of_ok (h : s.Complete x) (hu : s.unit? x = some (.script u)) {imports : Scope}
    (hok : s.allImportCells u = .ok imports) :
    imports.map Prod.fst = u.program.wants.map Want.here ∧
      ∀ w ∈ u.program.wants, ∃ cell, s.wanted? x w = some cell ∧ (w.here, cell) ∈ imports := by
  rw [allImportCells_eq h hu] at hok
  have hall := forall₂_of_mapM hok
  have hbind : ∀ w ∈ u.program.wants, ∀ entry, s.bindWant u w = .ok entry →
      ∃ cell, s.wanted? x w = some cell ∧ entry = (w.here, cell) := by
    intro w hw entry hentry
    have heq := bindWant_eq h hu hw
    cases hlack : s.lack? x w with
    | some e => rw [hlack] at heq; cases heq.symm.trans hentry
    | none =>
      rw [hlack] at heq
      obtain ⟨cell, hcell, hw⟩ := heq
      cases hw.symm.trans hentry
      exact ⟨cell, hcell, rfl⟩
  clear hok
  generalize u.program.wants = wants at hall hbind
  induction hall with
  | nil => exact ⟨rfl, by simp⟩
  | @cons w entry rest entries hfirst _ ih =>
    obtain ⟨cell, hcell, rfl⟩ := hbind w List.mem_cons_self entry hfirst
    obtain ⟨hnames, hrest⟩ := ih fun w hw => hbind w (List.mem_cons_of_mem _ hw)
    refine ⟨by rw [List.map_cons, List.map_cons, hnames], fun w' hw' => ?_⟩
    rcases List.mem_cons.mp hw' with rfl | hin
    · exact ⟨cell, hcell, List.mem_cons_self⟩
    · obtain ⟨cell', hcell', hmem⟩ := hrest w' hin
      exact ⟨cell', hcell', List.mem_cons_of_mem _ hmem⟩

/-! ## Bound names -/

/-- Every imported name stands for the cell of the exporter, as long as that one is there. -/
def Binds (s : Store) (x : UnitId) (imports : Scope) : Prop :=
  ∀ w ∈ s.wants x, ∀ exporter, s.source? x w.specifier = some exporter →
    ∃ cell, exporter.export? w.imported = some cell ∧ imports.cell? w.here = some cell

theorem binds_of_ok (h : s.Complete x) (hu : s.unit? x = some (.script u)) (hnamed : u.Named)
    {imports : Scope} (hok : s.allImportCells u = .ok imports) : s.Binds x imports := by
  obtain ⟨hnames, hall⟩ := import_of_ok h hu hok
  intro w hw exporter hexporter
  rw [wants_of_script hu] at hw
  obtain ⟨cell, hcell, hin⟩ := hall w hw
  unfold wanted? at hcell
  rw [hexporter] at hcell
  exact ⟨cell, hcell, Scope.cell?_of_mem (hnames ▸ hnamed.imported) hin⟩

/-- A bound name reads the cell of the exporter, whatever is written to it. -/
theorem Binds.lookup {imports : Scope} (h : s.Binds x imports) (hu : s.unit? x = some (.script u))
    (hnamed : u.Named) (hw : w ∈ s.wants x) {exporter : ModuleUnit}
    (hexporter : s.source? x w.specifier = some exporter) :
    ∃ cell, exporter.export? w.imported = some cell ∧ ∀ cells : Cells,
      (⟨u.locals, imports⟩ : Script.Bindings).lookup cells w.here = .ok (cells.read cell) := by
  obtain ⟨cell, hcell, himport⟩ := h w hw exporter hexporter
  refine ⟨cell, hcell, fun cells => ?_⟩
  rw [wants_of_script hu] at hw
  unfold Script.Bindings.lookup
  rw [hnamed.hidden w hw, himport]
  rfl

/-! ## Turns -/

/-- What the turn of a unit comes to, by what it lacks. -/
def verdict (s : Store) (x : UnitId) : Except LoadError Unit :=
  okUnless ((s.wants x).findSome? (s.lack? x))

theorem verdict_of_script (h : s.Complete x) (hu : s.unit? x = some (.script u)) :
    (s.allImportCells u).map (fun _ => ()) = s.verdict x := by
  rw [allImportCells_eq h hu]
  unfold verdict
  rw [wants_of_script hu]
  refine mapM_eq_findSome? fun w hw => ?_
  have heq := bindWant_eq h hu hw
  cases hlack : s.lack? x w with
  | some e => rw [hlack] at heq; exact heq
  | none =>
    rw [hlack] at heq
    obtain ⟨cell, -, hw⟩ := heq
    exact ⟨_, hw⟩

/-- The turn of a linked unit goes well exactly if it lacks nothing. -/
theorem turn_instantiation (h : s.Complete x) (hopen : instantiation.Opens s x)
    (hsame : s.SameFrames t) (hunit : t.unit? x = s.unit? x) :
    (instantiation.turn t x).2 = s.verdict x := by
  obtain ⟨unit, hx, hanswer⟩ := hopen
  unfold Phase.turn
  rw [hunit, hx]
  simp only [hanswer]
  cases unit with
  | script u =>
    rw [← verdict_of_script h hx]
    change (Phase.settle x (t.bindImports x u |>.1, (t.bindImports x u).2.map fun _ => _)).2 = _
    unfold bindImports
    rw [hsame.allImportCells]
    cases s.allImportCells u <;> rfl
  | bridge b =>
    unfold verdict wants shape?
    rw [hx]
    rfl
  | manifest m => cases hanswer

end Store

end ModuleLoader
