import ModuleLoader.Proofs.Declaring
import ModuleLoader.Proofs.LifeCycle
import ModuleLoader.Proofs.Ownership

/-!
# Names while a body runs

The check of a script, its instantiation and its body have to agree about names. The check keeps what
is declared apart from what is imported, the instantiation binds everything that is imported, and so
the body finds a cell behind each of these names, whether anything was written to it or not.

Results:
1. `Bindings.Models`: the names of a body are those that its program declares and imports.
2. `Statement.run_fault`: which faults a statement ends with.
3. `Program.run_eq_error`: the statement that a body ends with.
4. `ScriptUnit.Scoped`, `Scoped.callAll`: what holds of the names of a script under any calls.
5. `names_bound`: what can become of a name while a body runs.
-/

namespace ModuleLoader

namespace Script

/-! ## Names by the program -/

namespace Bindings

/-- The names that a body can use are those that its program declares and those that it imports, and
no name is both. -/
structure Models (names : Bindings) (p : Program) : Prop where
  locals : ∀ name, (names.locals.cell? name).isSome ↔ name ∈ p.declared
  imports : ∀ name, (names.imports.cell? name).isSome ↔ name ∈ p.importedHere
  apart : ∀ name ∈ p.importedHere, name ∉ p.declared

variable {names : Bindings} {p : Program} {name : String}

/-- A name can be read if it is declared or imported, whatever the cells hold. -/
theorem Models.lookup (h : names.Models p) (hname : name ∈ p.declared ∨ name ∈ p.importedHere)
    (cells : Cells) : ∃ v, names.lookup cells name = .ok v := by
  have hcell : ((names.locals.cell? name).or (names.imports.cell? name)).isSome := by
    rw [Option.isSome_or, Bool.or_eq_true, h.locals, h.imports]
    exact hname
  obtain ⟨cell, hcell⟩ := Option.isSome_iff_exists.mp hcell
  unfold Bindings.lookup
  rw [hcell]
  exact ⟨_, rfl⟩

theorem Models.assign_declared (h : names.Models p) (hname : name ∈ p.declared) (cells : Cells)
    (v : Value) : ∃ cells', names.assign cells name v = .ok cells' := by
  obtain ⟨cell, hcell⟩ := Option.isSome_iff_exists.mp ((h.locals name).mpr hname)
  unfold Bindings.assign
  rw [hcell]
  exact ⟨_, rfl⟩

theorem Models.assign_imported (h : names.Models p) (hname : name ∈ p.importedHere) (cells : Cells)
    (v : Value) : names.assign cells name v = .error (.readOnly name) := by
  have hlocal : names.locals.cell? name = none := by
    rw [← Option.not_isSome_iff_eq_none, h.locals]
    exact h.apart name hname
  obtain ⟨cell, hcell⟩ := Option.isSome_iff_exists.mp ((h.imports name).mpr hname)
  unfold Bindings.assign
  rw [hlocal, hcell]

theorem Models.assign_unknown (h : names.Models p) (hlocal : name ∉ p.declared)
    (himport : name ∉ p.importedHere) (cells : Cells) (v : Value) :
    names.assign cells name v = .error (.undefinedName name) := by
  rw [← h.locals, Option.not_isSome_iff_eq_none] at hlocal
  rw [← h.imports, Option.not_isSome_iff_eq_none] at himport
  unfold Bindings.assign
  rw [hlocal, himport]

end Bindings

/-! ## Faults of statements -/

variable {names : Bindings} {cells : Cells} {p : Program} {fault : Fault} {name : String}

/-- A write ends with the fault of the expression, or with that of the assignment. -/
theorem Bindings.write_eq_error {e : Expression} :
    (names.write cells name e).2 = .error fault ↔ (e.eval names cells).2 = .error fault ∨
      ∃ v, (e.eval names cells).2 = .ok v ∧
        names.assign (e.eval names cells).1 name v = .error fault := by
  unfold write
  generalize e.eval names cells = computed
  obtain ⟨after, fault' | v⟩ := computed
  · simp
  · cases hassign : names.assign after name v <;> simp [hassign]

/-- A declaration ends with a fault only if its initializer does. -/
theorem Statement.declare_eq_error (h : names.Models p) (hname : name ∈ p.declared)
    {init : Expression} {exported : Bool} {span : Span} :
    ((Statement.declare name init exported span).run names cells).2 = .error fault ↔
      (init.eval names cells).2 = .error fault := by
  refine Bindings.write_eq_error.trans (or_iff_left ?_)
  rintro ⟨v, -, hfault⟩
  obtain ⟨cells', hassign⟩ := h.assign_declared hname (init.eval names cells).1 v
  cases hassign.symm.trans hfault

/-- An assignment ends with the fault of its right-hand side, or with that of its target. -/
theorem Statement.assign_eq_error (h : names.Models p) {value : Expression} {span : Span} :
    ((Statement.assign name value span).run names cells).2 = .error fault ↔
      (value.eval names cells).2 = .error fault ∨ ∃ v, (value.eval names cells).2 = .ok v ∧
        name ∉ p.declared ∧
        fault = if name ∈ p.importedHere then .readOnly name else .undefinedName name := by
  refine Bindings.write_eq_error.trans
    (or_congr_right (exists_congr fun v => and_congr_right fun _ => ?_))
  by_cases hlocal : name ∈ p.declared
  · obtain ⟨cells', hassign⟩ := h.assign_declared hlocal (value.eval names cells).1 v
    simp [hassign, hlocal]
  · by_cases himport : name ∈ p.importedHere
    · simp [h.assign_imported himport, hlocal, himport, eq_comm]
    · simp [h.assign_unknown hlocal himport, hlocal, himport, eq_comm]

/-! ## Faults of bodies -/

/-- The first statements of a body go well. -/
def Program.Reaches (p : Program) (names : Bindings) (cells : Cells) (count : Nat) : Prop :=
  ∃ completion, (runStatements names cells none (p.statements.take count)).2 = .ok completion

theorem runStatements_eq_error {statements : List Statement} {completion : Option Value} :
    (runStatements names cells completion statements).2 = .error fault ↔
      ∃ i statement completion', statements[i]? = some statement ∧
        (runStatements names cells completion (statements.take i)).2 = .ok completion' ∧
        (statement.run names (runStatements names cells completion (statements.take i)).1).2 =
          .error fault := by
  induction statements generalizing cells completion with
  | nil => simp [runStatements]
  | cons first rest ih =>
    constructor
    · intro h
      rw [runStatements] at h
      cases hrun : first.run names cells with
      | mk after result =>
        rw [hrun] at h
        cases result with
        | error fault' =>
          cases h
          exact ⟨0, first, completion, rfl, rfl, congrArg Prod.snd hrun⟩
        | ok v =>
          obtain ⟨i, statement, completion', hi, hreaches, hfault⟩ := ih.mp h
          refine ⟨i + 1, statement, completion', hi, ?_, ?_⟩ <;>
            rw [List.take_succ_cons, runStatements, hrun]
          · exact hreaches
          · exact hfault
    · rintro ⟨i, statement, completion', hi, hreaches, hfault⟩
      rw [runStatements]
      cases i with
      | zero =>
        cases hi
        have hrun : (first.run names cells).2 = .error fault := hfault
        generalize first.run names cells = ran at hrun ⊢
        obtain ⟨after, result⟩ := ran
        obtain rfl : result = .error fault := hrun
        rfl
      | succ i =>
        rw [List.take_succ_cons, runStatements] at hreaches hfault
        generalize first.run names cells = ran at hreaches hfault ⊢
        obtain ⟨after, fault' | v⟩ := ran
        · cases hreaches
        · exact ih.mpr ⟨i, statement, completion', hi, hreaches, hfault⟩

/-- A body ends with the fault of the first statement that has one. -/
theorem Program.run_eq_error : (p.run names cells).2 = .error fault ↔
    ∃ i statement, p.statements[i]? = some statement ∧ p.Reaches names cells i ∧
      (statement.run names (p.after names cells i)).2 = .error fault := by
  refine runStatements_eq_error.trans ⟨?_, ?_⟩
  · rintro ⟨i, statement, completion, hi, hreaches, hfault⟩
    exact ⟨i, statement, hi, ⟨completion, hreaches⟩, hfault⟩
  · rintro ⟨i, statement, hi, ⟨completion, hreaches⟩, hfault⟩
    exact ⟨i, statement, completion, hi, hreaches, hfault⟩

theorem Program.mem_declared {init : Expression} {exported : Bool} {span : Span}
    (h : .declare name init exported span ∈ p.statements) : name ∈ p.declared :=
  List.mem_filterMap.mpr ⟨_, h, rfl⟩

/-- Only a name that is neither declared nor imported is missing. -/
theorem Expression.eval_undefined (h : names.Models p) {e : Expression}
    (heval : (e.eval names cells).2 = .error (.undefinedName name)) :
    name ∉ p.declared ∧ name ∉ p.importedHere := by
  have hlookup : names.lookup cells name = .error (.undefinedName name) := Expression.eval_fault heval
  by_contra hknown
  rw [not_and_or, not_not, not_not] at hknown
  obtain ⟨v, hv⟩ := h.lookup hknown cells
  cases hlookup.symm.trans hv

/-- A fault that a statement of the program ends with, by its names: what is missing is neither
declared nor imported, and what is read-only is an import that is assigned to. -/
theorem Statement.run_fault (h : names.Models p) {statement : Statement}
    (hin : statement ∈ p.statements) :
    ((statement.run names cells).2 = .error (.undefinedName name) →
      name ∉ p.declared ∧ name ∉ p.importedHere) ∧
    ((statement.run names cells).2 = .error (.readOnly name) ↔
      ∃ value span v, statement = .assign name value span ∧ (value.eval names cells).2 = .ok v ∧
        name ∈ p.importedHere) := by
  cases statement with
  | importFrom decl => exact ⟨fun hrun => (by cases hrun), by simp [Statement.run]⟩
  | exportList bindings => exact ⟨fun hrun => (by cases hrun), by simp [Statement.run]⟩
  | declare target init exported span =>
    rw [Statement.declare_eq_error h (Program.mem_declared hin),
      Statement.declare_eq_error h (Program.mem_declared hin)]
    refine ⟨Expression.eval_undefined h, fun heval => (Expression.eval_fault heval).elim, ?_⟩
    rintro ⟨_, _, _, heq, -⟩
    cases heq
  | assign target value span =>
    rw [Statement.assign_eq_error h, Statement.assign_eq_error h]
    constructor
    · rintro (heval | ⟨v, -, hlocal, hfault⟩)
      · exact Expression.eval_undefined h heval
      · split at hfault
        next => cases hfault
        next himport => cases hfault; exact ⟨hlocal, himport⟩
    · constructor
      · rintro (heval | ⟨v, heval, -, hfault⟩)
        · exact (Expression.eval_fault heval).elim
        · split at hfault
          next himport => cases hfault; exact ⟨value, span, v, rfl, heval, himport⟩
          next => cases hfault
      · rintro ⟨_, _, v, heq, heval, himport⟩
        cases heq
        exact .inr ⟨v, heval, h.apart name himport, (if_pos himport).symm⟩
  | expression e =>
    have hrun : ∀ {fault}, ((Statement.expression e).run names cells).2 = .error fault →
        (e.eval names cells).2 = .error fault := by
      intro fault hrun
      change (e.eval names cells).2.map some = _ at hrun
      generalize (e.eval names cells).2 = result at hrun ⊢
      cases result with
      | error fault' => cases hrun; rfl
      | ok v => cases hrun
    refine ⟨fun hfault => Expression.eval_undefined h (hrun hfault),
      fun hfault => (Expression.eval_fault (hrun hfault)).elim, ?_⟩
    rintro ⟨_, _, _, heq, -⟩
    cases heq

end Script

/-! ## The names of a script -/

open Script (Program Statement Expression)

/-- What holds of the names of a script, however far it has come: its locals are what it declares, and
its imports are among what it imports, and all of that once it is instantiated. -/
structure ScriptUnit.Scoped (u : ScriptUnit) : Prop where
  locals : ∀ name, (u.locals.cell? name).isSome ↔ name ∈ u.program.declared
  apart : ∀ name ∈ u.program.importedHere, name ∉ u.program.declared
  foreign : ∀ name, (u.imports.cell? name).isSome → name ∈ u.program.importedHere
  bound : u.status.isBound = true → ∀ name ∈ u.program.importedHere, (u.imports.cell? name).isSome

namespace ScriptUnit.Scoped

variable {u u' : ScriptUnit} {name : String}

theorem models (h : u.Scoped) (hbound : u.status.isBound = true) :
    (⟨u.locals, u.imports⟩ : Script.Bindings).Models u.program where
  locals := h.locals
  imports name := ⟨h.foreign name, h.bound hbound name⟩
  apart := h.apart

/-- No name is found in both tables, so it makes no difference which is looked at first. -/
theorem either (h : u.Scoped) (name : String) :
    ¬ ((u.locals.cell? name).isSome ∧ (u.imports.cell? name).isSome) ∧
    (u.locals.cell? name).or (u.imports.cell? name) =
      (u.imports.cell? name).or (u.locals.cell? name) := by
  have hone : ¬ ((u.locals.cell? name).isSome ∧ (u.imports.cell? name).isSome) := fun hboth =>
    h.apart name (h.foreign name hboth.2) ((h.locals name).mp hboth.1)
  refine ⟨hone, ?_⟩
  cases hlocal : u.locals.cell? name with
  | none => simp
  | some cell =>
    cases himport : u.imports.cell? name with
    | none => rfl
    | some other => simp [hlocal, himport] at hone

/-- A change of nothing but the units behind the specifiers and the status. -/
theorem of_names (h : u.Scoped) (hprogram : u'.program = u.program) (hlocals : u'.locals = u.locals)
    (himports : u'.imports = u.imports)
    (hbound : u'.status.isBound = true → u.status.isBound = true) : u'.Scoped where
  locals := by rw [hlocals, hprogram]; exact h.locals
  apart := by rw [hprogram]; exact h.apart
  foreign := by rw [himports, hprogram]; exact h.foreign
  bound hstatus := by rw [himports, hprogram]; exact h.bound (hbound hstatus)

/-- The imports that are bound are all that the script imports. -/
theorem of_bound (h : u.Scoped) {imports : Scope} {status : Status}
    (himports : imports.map Prod.fst = u.program.importedHere) :
    ({ u with imports, status } : ScriptUnit).Scoped where
  locals := h.locals
  apart := h.apart
  foreign _ hname := himports ▸ Scope.isSome_cell?.mp hname
  bound _ _ hname := Scope.isSome_cell?.mpr (himports ▸ hname)

theorem of_compile {url : Url} {source : String} {cells cells' : Cells}
    (h : ScriptUnit.compile url source cells = .ok (cells', u)) : u.Scoped := by
  have hnamed := named_compile h
  obtain ⟨p, names, hparse, hnames, rfl, rfl⟩ := compile_eq_ok h
  have hlocals := (made_compile hparse h).locals
  refine ⟨fun name => ?_, fun name hname hlocal => ?_, fun name hname => ?_, fun hbound => ?_⟩
  · rw [Scope.isSome_cell?, hlocals]
  · obtain ⟨w, hw, rfl⟩ := List.mem_map.mp hname
    have hhidden := Scope.cell?_eq_none.mp (hnamed.hidden w hw)
    exact hhidden (hlocals ▸ hlocal)
  · cases hname
  · cases hbound

end ScriptUnit.Scoped

/-- Scripts have their names, and there are no manifests. -/
def ModuleUnit.Scoped : ModuleUnit → Prop
  | script u => u.Scoped
  | bridge _ => True
  | manifest _ => False

namespace Store

variable {s s' t : Store} {x y : UnitId} {u : ScriptUnit} {unit : ModuleUnit} {status : Status}
  {m : Moment} {moments : List Moment}

def Scoped (s : Store) : Prop := ∀ x unit, s.unit? x = some unit → unit.Scoped

theorem scoped_empty : ({} : Store).Scoped := fun _ _ hunit => by cases hunit

theorem Scoped.noManifests (h : s.Scoped) : s.NoManifests := fun x _ hm => h x _ hm

/-- Units may go, and all others stay as they are. -/
theorem Scoped.of_units (h : s.Scoped)
    (hunits : ∀ x unit, s'.unit? x = some unit → s.unit? x = some unit) : s'.Scoped :=
  fun x unit hunit => h x unit (hunits x unit hunit)

theorem Scoped.change (h : s.Scoped) {f : ModuleUnit → ModuleUnit}
    (hf : ∀ unit, s.unit? x = some unit → unit.Scoped → (f unit).Scoped) :
    (s.change x f).Scoped := by
  intro y unit' hunit'
  rw [unit?_change] at hunit'
  split at hunit'
  next heq =>
    subst heq
    obtain ⟨unit, hunit, rfl⟩ := Option.map_eq_some_iff.mp hunit'
    exact hf unit hunit (h x unit hunit)
  next => exact h y unit' hunit'

theorem Scoped.add (h : s.Scoped) (cells : Cells) (hunit : unit.Scoped) :
    ({ s with cells }.add unit).1.Scoped := by
  intro x other hother
  obtain ⟨rfl, -⟩ | ⟨hold, -⟩ := unit?_add_cases hother
  · exact hunit
  · exact h x other hold

/-- A status by which a script is bound is given to scripts only that are bound. -/
theorem Scoped.setStatus (h : s.Scoped)
    (hbound : status.isBound = true → (s.status x).isBound = true) :
    (s.setStatus x status).Scoped := by
  refine h.change fun unit hunit hself => ?_
  cases unit with
  | script u =>
    rw [status_of_unit? hunit] at hbound
    exact ScriptUnit.Scoped.of_names hself rfl rfl rfl hbound
  | bridge b => trivial
  | manifest m => exact hself.elim

theorem Scoped.changeBridge (h : s.Scoped) (f : Bridge → Bridge) : (s.changeBridge x f).Scoped :=
  h.change fun unit _ hself => by
    cases unit with
    | script u => exact hself
    | bridge b => trivial
    | manifest m => exact hself.elim

theorem Scoped.wire (h : s.Scoped) (x : UnitId) (specifier : String) (y : UnitId) :
    (s.wire x specifier y).Scoped :=
  h.change fun unit _ hself => by
    cases unit with
    | script u => exact ScriptUnit.Scoped.of_names hself rfl rfl rfl id
    | bridge b => trivial
    | manifest m => exact hself.elim

theorem Scoped.link (h : s.Scoped) (x : UnitId) : (s.operate (.link x)).Scoped := by
  rcases operate_link h.noManifests x with ⟨-, heq⟩ | ⟨-, heq⟩ <;> rw [heq]
  · exact h.setStatus fun hbound => by cases hbound
  · exact h

/-! ### Instantiation and evaluation -/

/-- All imports of a script get their cells at once. -/
theorem Scoped.bind (h : s.Scoped) (hu : s.unit? x = some (.script u)) {imports : Scope}
    (hok : s.allImportCells u = .ok imports) :
    ((s.changeScript x fun u => { u with imports }).setStatus x .instantiated).Scoped := by
  have hself : u.Scoped := h x _ hu
  have hnames := (import_of_ok (complete_of_ok hu hok) hu hok).1
  intro y unit' hunit'
  rw [Phase.unit?_setStatus] at hunit'
  unfold changeScript at hunit'
  rw [unit?_change] at hunit'
  by_cases hxy : x = y
  · subst hxy
    rw [if_pos rfl, if_pos rfl, hu] at hunit'
    cases hunit'
    exact hself.of_bound hnames
  · rw [if_neg hxy, if_neg hxy] at hunit'
    exact h y unit' hunit'

/-- An instantiation binds all imports of a script, or leaves it unbound. -/
theorem Scoped.instantiate (h : s.Scoped) (x : UnitId) : (s.instantiate x).1.Scoped := by
  obtain ⟨log, hruns⟩ := instantiate_runs h.noManifests x
  refine hruns.preserve instantiation_lawful (P := Scoped) ?_ ?_ ?_ h
  · exact fun t y unit ht _ _ => ht.setStatus fun hbound => by cases hbound
  · intro t y unit t' r ht hunit _ hturn
    cases unit with
    | script u =>
      simp only [instantiation, bindImports] at hturn
      cases hcells : t.allImportCells u with
      | error e =>
        rw [hcells] at hturn
        cases hturn
        exact ht.setStatus fun hbound => by cases hbound
      | ok imports =>
        rw [hcells] at hturn
        cases hturn
        exact ht.bind hunit hcells
    | bridge b =>
      cases hturn
      refine ht.change fun unit hb _ => ?_
      cases hunit.symm.trans hb
      trivial
    | manifest m => exact (ht y _ hunit).elim
  · exact fun t y unit e ht _ => ht.setStatus fun hbound => by cases hbound

theorem Takes.scoped (h : s.Takes m t) (hs : s.Scoped) : t.Scoped := by
  have hcells : ∀ cells, ({ s with cells } : Store).Scoped := fun cells =>
    hs.of_units fun _ _ hunit => hunit
  cases h with
  | begin hstatus => exact hs.setStatus fun _ => by rw [hstatus]; rfl
  | body => exact hcells _
  | executor => exact (hcells _).changeBridge _
  | finish r hstatus => exact hs.setStatus fun _ => by rw [hstatus]; rfl

theorem Passes.scoped (h : s.Passes moments t) (hs : s.Scoped) : t.Scoped := by
  induction h with
  | none => exact hs
  | next _ htakes ih => exact htakes.scoped ih

theorem Scoped.evaluate (h : s.Scoped) (x : UnitId) : (s.evaluate x).1.Scoped := by
  obtain ⟨moments, hpasses⟩ := evaluate_passes h.noManifests x
  exact hpasses.scoped h

/-! ### Any calls -/

/-- What is done from outside with units that go their way, or what is called on a script at any point
of its life. -/
def call (s : Store) : Deed ⊕ Operation → Store
  | .inl deed => s.enact deed
  | .inr op => s.operate op

def callAll (s : Store) (calls : List (Deed ⊕ Operation)) : Store := calls.foldl call s

theorem Scoped.operate (h : s.Scoped) (op : Operation) : (s.operate op).Scoped := by
  cases op with
  | link x => exact h.link x
  | wire x specifier y => exact h.wire x specifier y
  | instantiate x => exact h.instantiate x
  | evaluate x => exact h.evaluate x

theorem Scoped.enact (h : s.Scoped) (deed : Deed) : (s.enact deed).Scoped := by
  cases deed with
  | script url source =>
    dsimp only [Store.enact]
    split
    next cells u hu => exact h.add cells (ScriptUnit.Scoped.of_compile hu)
    next => exact h
  | bridge url names executor => exact h.add _ trivial
  | link x =>
    dsimp only [Store.enact]
    split
    next =>
      split
      next => exact h.link x
      next => exact h
    next => exact h
  | wire x specifier y =>
    dsimp only [Store.enact]
    split
    next =>
      split
      next => exact h.wire x specifier y
      next => exact h
    next => exact h
  | instantiate x => exact h.instantiate x
  | evaluate x => exact h.evaluate x
  | write cell v => exact h.of_units fun _ _ hunit => hunit
  | install x executor => exact h.changeBridge _
  | supply tables => exact h.of_units fun _ _ hunit => hunit
  | provide functions => exact h.of_units fun _ _ hunit => hunit
  | drop x =>
    refine h.of_units fun y unit hunit => ?_
    dsimp only [Store.enact, Store.drop] at hunit
    rw [unit?_retain] at hunit
    split at hunit
    next => exact hunit
    next => cases hunit

theorem Scoped.callAll (h : s.Scoped) (calls : List (Deed ⊕ Operation)) :
    (s.callAll calls).Scoped := by
  induction calls generalizing s with
  | nil => exact h
  | cons first rest ih =>
    refine ih (s := s.call first) ?_
    cases first with
    | inl deed => exact h.enact deed
    | inr op => exact h.operate op

/-! ## While a body runs -/

/-- What becomes of names, for any scripts and after any calls.
* An evaluation goes through moments, and a body runs at one of them only if its script is
  instantiated.
* No name of a script is both a local and an import, so it makes no difference which is looked at
  first.
* Once a script is instantiated, every name that it declares or imports can be read, whatever the
  cells hold. An expression and a body fail for a missing name only if that is neither.
* A declaration fails exactly if its initializer does.
* A body fails for a read-only name exactly if it gets to an assignment to an import whose right-hand
  side has a value. -/
theorem names_bound (calls : List (Deed ⊕ Operation)) :
    let s := ({} : Store).callAll calls
    (∀ x, ∃ moments, s.Passes moments (s.evaluate x).1) ∧
    ∀ moments t x u, s.Passes moments t → t.unit? x = some (.script u) →
      let names : Script.Bindings := ⟨u.locals, u.imports⟩
      let p := u.program
      (∀ t', t.Takes (.body x) t' → u.status.isBound = true ∧
        t' = { t with cells := (p.run names t.cells).1 }) ∧
      (∀ name, ¬ ((u.locals.cell? name).isSome ∧ (u.imports.cell? name).isSome) ∧
        (u.locals.cell? name).or (u.imports.cell? name) =
          (u.imports.cell? name).or (u.locals.cell? name)) ∧
      (u.status.isBound = true → ∀ (cells : Cells) (name : String),
        (name ∈ p.declared ∨ name ∈ p.importedHere → ∃ v, names.lookup cells name = .ok v) ∧
        (∀ e : Expression, (e.eval names cells).2 = .error (.undefinedName name) →
          name ∉ p.declared ∧ name ∉ p.importedHere) ∧
        ((p.run names cells).2 = .error (.undefinedName name) →
          name ∉ p.declared ∧ name ∉ p.importedHere) ∧
        (∀ init exported span fault, .declare name init exported span ∈ p.statements →
          (((Statement.declare name init exported span).run names cells).2 = .error fault ↔
            (init.eval names cells).2 = .error fault)) ∧
        ((p.run names cells).2 = .error (.readOnly name) ↔
          ∃ i value span v, p.statements[i]? = some (.assign name value span) ∧
            p.Reaches names cells i ∧ (value.eval names (p.after names cells i)).2 = .ok v ∧
            name ∈ p.importedHere)) := by
  intro s
  have hs : s.Scoped := scoped_empty.callAll calls
  refine ⟨evaluate_passes hs.noManifests, fun moments t x u hpasses hu => ?_⟩
  intro names p
  have hscoped : u.Scoped := hpasses.scoped hs x _ hu
  refine ⟨fun t' htakes => ?_, hscoped.either, fun hbound cells name => ?_⟩
  · cases htakes with
    | body hrunning =>
      cases hu.symm.trans hrunning
      exact ⟨rfl, rfl⟩
  · have hmodels : names.Models p := hscoped.models hbound
    refine ⟨fun hname => hmodels.lookup hname cells, fun e => Expression.eval_undefined hmodels,
      fun hrun => ?_, fun init exported span fault hin =>
        Statement.declare_eq_error hmodels (Program.mem_declared hin), ?_⟩
    · obtain ⟨i, statement, hi, -, hfault⟩ := Program.run_eq_error.mp hrun
      exact (Statement.run_fault hmodels (List.mem_of_getElem? hi)).1 hfault
    · rw [Program.run_eq_error]
      constructor
      · rintro ⟨i, statement, hi, hreaches, hfault⟩
        obtain ⟨value, span, v, rfl, hv, himport⟩ :=
          (Statement.run_fault hmodels (List.mem_of_getElem? hi)).2.mp hfault
        exact ⟨i, value, span, v, hi, hreaches, hv, himport⟩
      · rintro ⟨i, value, span, v, hi, hreaches, hv, himport⟩
        exact ⟨i, _, hi, hreaches, (Statement.run_fault hmodels (List.mem_of_getElem? hi)).2.mpr
          ⟨value, span, v, rfl, hv, himport⟩⟩

end Store

end ModuleLoader
