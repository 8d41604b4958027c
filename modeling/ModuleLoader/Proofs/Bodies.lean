import ModuleLoader.Graph.Evaluate
import ModuleLoader.Proofs.Names
/-!
# Bodies by the values of their names

What a body does follows from the values of the names that it can use and from what the functions of
the host do. Which cells hold the values makes no difference, as long as each local has a cell of its
own.

Results:
1. `Scope.read`, `Bindings.values`: the values behind names.
2. `Expression.compute_agree`: an expression looks at values of names only.
3. `runStatements_paired`: two bodies go on alike as long as their names show the same values.
4. `Program.run_agree`: a body ends as the values say, and leaves the same values behind.
5. `Expression.compute_readsOnly`, `Expression.eval_cells`: an expression writes nothing.
6. `runStatements_induction`: what each statement does to the cells, a body does.
7. `Program.run_keeps`, `Program.functions_run`: a body writes to the cells of its locals only, and
   leaves functions alone that remember nothing.
8. `read_fill`: what an executor writes that fills the exports of a bridge from a table.
-/
namespace ModuleLoader

/-! ## Functions of the host -/

namespace HostFunctions

/-- The answers depend on the function and its arguments only. -/
def Steady (functions : HostFunctions) : Prop :=
  ∀ count f args, functions.answer count f args = functions.answer 0 f args

theorem after_zero (functions : HostFunctions) : functions.after 0 = functions := by
  simp [after]

theorem after_after (functions : HostFunctions) (m n : Nat) :
    (functions.after m).after n = functions.after (m + n) := by
  simp [after, Nat.add_assoc]

theorem Steady.after {functions : HostFunctions} (h : functions.Steady) (calls : Nat) :
    functions.after calls = functions := by
  refine congrArg mk (funext fun count => funext fun f => funext fun args => ?_)
  rw [h, h count]

end HostFunctions

/-! ## Cells -/

namespace Cells

variable {cells : Cells} {cell other : CellId} {v : Value}

theorem read_write_self (h : cell.index < cells.values.size) : (cells.write cell v).read cell = v := by
  unfold read write
  simp [Array.getD, h]

theorem read_write_of_ne (h : cell ≠ other) : (cells.write cell v).read other = cells.read other := by
  have hindex : cell.index ≠ other.index := fun heq => h (by cases cell; cases other; simp_all)
  unfold read write
  simp [hindex]

theorem size_write : (cells.write cell v).values.size = cells.values.size := by
  simp [write]

/-- Cells that are the same but for those of a scope. -/
structure KeptBut (scope : Scope) (cells cells' : Cells) : Prop where
  size : cells'.values.size = cells.values.size
  read : ∀ cell, cell ∉ scope.map Prod.snd → cells'.read cell = cells.read cell

theorem KeptBut.refl (scope : Scope) (cells : Cells) : KeptBut scope cells cells :=
  ⟨rfl, fun _ _ => rfl⟩

theorem KeptBut.trans {scope : Scope} {cells' cells'' : Cells} (h : KeptBut scope cells cells')
    (h' : KeptBut scope cells' cells'') : KeptBut scope cells cells'' :=
  ⟨h'.size.trans h.size, fun cell hcell => (h'.read cell hcell).trans (h.read cell hcell)⟩

theorem KeptBut.of_values {scope : Scope} {cells' : Cells} (h : cells'.values = cells.values) :
    KeptBut scope cells cells' :=
  ⟨congrArg Array.size h, fun cell _ => congrArg (·.getD cell.index .undefined) h⟩

theorem keptBut_write {scope : Scope} (h : cell ∈ scope.map Prod.snd) :
    KeptBut scope cells (cells.write cell v) :=
  ⟨size_write, fun _ hother => read_write_of_ne fun heq => hother (heq ▸ h)⟩

end Cells

namespace Scope

variable {scope : Scope} {cells cells' : Cells} {name : String}

/-- Every name with the value that its cell holds. -/
def read (scope : Scope) (cells : Cells) : List (String × Value) :=
  scope.map fun (name, cell) => (name, cells.read cell)

theorem map_fst_read (scope : Scope) (cells : Cells) :
    (scope.read cells).map Prod.fst = scope.map Prod.fst := by
  unfold read
  rw [List.map_map]
  rfl

theorem lookup_read (scope : Scope) (cells : Cells) (name : String) :
    (scope.read cells).lookup name = (scope.cell? name).map cells.read := by
  unfold read cell?
  induction scope with
  | nil => rfl
  | cons entry rest ih =>
    rw [List.map_cons, List.lookup_cons, List.lookup_cons, ih]
    cases name == entry.1 <;> rfl

theorem read_congr (h : ∀ e ∈ scope, cells'.read e.2 = cells.read e.2) :
    scope.read cells' = scope.read cells :=
  List.map_congr_left fun e he => congrArg (Prod.mk e.1) (h e he)

/-- Where no two names share a cell, a write to the cell of one name is seen under that name. -/
theorem read_write {cell : CellId} {v : Value} (hnames : (scope.map Prod.fst).Nodup)
    (hcells : (scope.map Prod.snd).Nodup) (hcell : scope.cell? name = some cell)
    (hthere : cell.index < cells.values.size) : scope.read (cells.write cell v) =
      (scope.read cells).map fun e => if e.1 = name then (name, v) else e := by
  have hin := mem_of_cell? hcell
  unfold read
  rw [List.map_map]
  refine List.map_congr_left fun e he => ?_
  by_cases hname : e.1 = name
  · have hself := cell?_of_mem hnames (show (e.1, e.2) ∈ scope from he)
    rw [hname, hcell] at hself
    simp only [Function.comp_apply, hname, if_true, ← Option.some.inj hself,
      Cells.read_write_self hthere]
  · have hne : cell ≠ e.2 := fun heq =>
      hname (congrArg Prod.fst (List.inj_on_of_nodup_map hcells he hin heq.symm))
    simp only [Function.comp_apply, hname, if_false, Cells.read_write_of_ne hne]

end Scope

/-! ## Names of a body -/

namespace Script

namespace Bindings

variable {names names' : Bindings} {cells cells' : Cells} {name : String} {v : Value}

/-- Each local has a cell of its own, which is there and which no import shares. -/
structure Apart (names : Bindings) (cells : Cells) : Prop where
  named : (names.locals.map Prod.fst).Nodup
  distinct : (names.locals.map Prod.snd).Nodup
  there : ∀ e ∈ names.locals, e.2.index < cells.values.size
  foreign : ∀ e ∈ names.imports, e.2 ∉ names.locals.map Prod.snd

/-- The value of an imported name. -/
def imported (names : Bindings) (cells : Cells) (name : String) : Option Value :=
  (names.imports.cell? name).map cells.read

/-- The values of all names. -/
def values (names : Bindings) (cells : Cells) : List (String × Value) × (String → Option Value) :=
  (names.locals.read cells, names.imported cells)

theorem Apart.of_size (h : names.Apart cells) (hsize : cells'.values.size = cells.values.size) :
    names.Apart cells' :=
  ⟨h.named, h.distinct, fun e he => hsize ▸ h.there e he, h.foreign⟩

theorem lookup_eq (names : Bindings) (cells : Cells) (name : String) : names.lookup cells name =
    match ((names.values cells).1.lookup name).or ((names.values cells).2 name) with
    | some v => .ok v
    | none => .error (.undefinedName name) := by
  unfold lookup values imported
  rw [Scope.lookup_read]
  dsimp only
  cases names.locals.cell? name <;> cases names.imports.cell? name <;> rfl

theorem lookup_agree (h : names.values cells = names'.values cells') (name : String) :
    names.lookup cells name = names'.lookup cells' name := by
  rw [lookup_eq, lookup_eq, h]

theorem assign_keeps (h : names.assign cells name v = .ok cells') :
    Cells.KeptBut names.locals cells cells' := by
  unfold assign at h
  split at h
  next cell hcell =>
    cases h
    exact Cells.keptBut_write (List.mem_map_of_mem (Scope.mem_of_cell? hcell))
  next => split at h <;> cases h

theorem functions_assign (h : names.assign cells name v = .ok cells') :
    cells'.functions = cells.functions := by
  unfold assign at h
  split at h
  next => cases h; rfl
  next => split at h <;> cases h

/-- The values behind the names after an assignment. -/
theorem Apart.assign_eq (h : names.Apart cells) (name : String) (v : Value) :
    (names.assign cells name v).map names.values =
      match (names.values cells).1.lookup name with
      | some _ => .ok ((names.values cells).1.map fun e => if e.1 = name then (name, v) else e,
          (names.values cells).2)
      | none =>
        match (names.values cells).2 name with
        | some _ => .error (.readOnly name)
        | none => .error (.undefinedName name) := by
  unfold assign values
  rw [Scope.lookup_read]
  cases hcell : names.locals.cell? name with
  | some cell =>
    have hin := Scope.mem_of_cell? hcell
    have hown : cell ∈ names.locals.map Prod.snd := List.mem_map_of_mem hin
    have hlocals := Scope.read_write (v := v) h.named h.distinct hcell (h.there _ hin)
    have himports : names.imported (cells.write cell v) = names.imported cells := by
      funext other
      unfold imported
      refine Option.map_congr fun foreign hforeign => Cells.read_write_of_ne fun heq => ?_
      exact h.foreign _ (Scope.mem_of_cell? hforeign) (heq ▸ hown)
    exact congrArg Except.ok (Prod.ext hlocals himports)
  | none =>
    unfold imported
    dsimp only
    cases names.imports.cell? name <;> rfl

end Bindings

end Script

/-! ## Runs that agree -/

/-- Two results that are the same error, or whose values are in a relation. -/
inductive Both {ε α β : Type} (rel : α → β → Prop) : Except ε α → Except ε β → Prop
  | ok {a : α} {b : β} : rel a b → Both rel (.ok a) (.ok b)
  | error (e : ε) : Both rel (.error e) (.error e)

theorem Both.map {ε α β γ δ : Type} {rel : α → β → Prop} {rel' : γ → δ → Prop} {r : Except ε α}
    {r' : Except ε β} (h : Both rel r r') {f : α → γ} {g : β → δ}
    (hmaps : ∀ a b, rel a b → rel' (f a) (g b)) : Both rel' (r.map f) (r'.map g) := by
  cases h with
  | ok hvalues => exact .ok (hmaps _ _ hvalues)
  | error e => exact .error e

namespace Script

section Agreement

variable {names names' : Bindings} {cells cells' : Cells}

mutual

/-- An expression looks at the values of names only. -/
theorem Expression.compute_agree (h : names.values cells = names'.values cells') (e : Expression) :
    e.compute names cells = e.compute names' cells' := by
  match e with
  | .number _ => rfl
  | .string _ => rfl
  | .boolean _ => rfl
  | .null => rfl
  | .identifier name _ => simp only [Expression.compute, Bindings.lookup_agree h name]
  | .negate operand => simp only [Expression.compute, Expression.compute_agree h operand]
  | .binary op left right =>
    simp only [Expression.compute, Expression.compute_agree h left, Expression.compute_agree h right]
  | .call callee args span =>
    simp only [Expression.compute, Expression.compute_agree h callee, computeAll_agree h args]

theorem computeAll_agree (h : names.values cells = names'.values cells') (es : List Expression) :
    computeAll names cells es = computeAll names' cells' es := by
  match es with
  | [] => rfl
  | e :: es => simp only [computeAll, Expression.compute_agree h e, computeAll_agree h es]

end

/-- Names that show the same values where their cells are in a relation, and keep them in it. -/
structure Paired (S : Cells → Cells → Prop) (names names' : Bindings) : Prop where
  same : ∀ {cells cells'}, S cells cells' → names.values cells = names'.values cells'
  functions : ∀ {cells cells'}, S cells cells' → cells.functions = cells'.functions
  called : ∀ {cells cells'}, S cells cells' → ∀ functions,
    S { cells with functions } { cells' with functions }
  assign : ∀ {cells cells'}, S cells cells' → ∀ (name : String) (v : Value),
    Both S (names.assign cells name v) (names'.assign cells' name v)

/-- Runs that end in the same way, with cells that are in a relation. -/
structure EndPaired (S : Cells → Cells → Prop) {α : Type} (r r' : Cells × Except Fault α) : Prop where
  result : r.2 = r'.2
  cells : S r.1 r'.1

variable {S : Cells → Cells → Prop}

theorem Expression.eval_paired (h : Paired S names names') (hcells : S cells cells')
    (e : Expression) : EndPaired S (e.eval names cells) (e.eval names' cells') := by
  unfold eval
  rw [compute_agree (h.same hcells) e, h.functions hcells]
  cases e.compute names' cells' cells'.functions with
  | ok v functions => exact ⟨rfl, h.called hcells functions⟩
  | error fault functions => exact ⟨rfl, h.called hcells functions⟩

theorem Bindings.write_paired (h : Paired S names names') (hcells : S cells cells') (name : String)
    (e : Expression) : EndPaired S (names.write cells name e) (names'.write cells' name e) := by
  have hvalue := e.eval_paired h hcells
  unfold write
  generalize e.eval names cells = r at hvalue ⊢
  generalize e.eval names' cells' = r' at hvalue ⊢
  obtain ⟨after, result⟩ := r
  obtain ⟨after', result'⟩ := r'
  obtain ⟨rfl, hafter⟩ : result = result' ∧ S after after' := ⟨hvalue.result, hvalue.cells⟩
  cases result with
  | error fault => exact ⟨rfl, hafter⟩
  | ok v =>
    have hassigned := h.assign hafter name v
    dsimp only
    generalize names.assign after name v = assigned at hassigned ⊢
    generalize names'.assign after' name v = assigned' at hassigned ⊢
    cases hassigned with
    | error fault => exact ⟨rfl, hafter⟩
    | ok hwritten => exact ⟨rfl, hwritten⟩

theorem Statement.run_paired (h : Paired S names names') (hcells : S cells cells')
    (statement : Statement) :
    EndPaired S (statement.run names cells) (statement.run names' cells') := by
  cases statement with
  | importFrom decl => exact ⟨rfl, hcells⟩
  | exportList bindings => exact ⟨rfl, hcells⟩
  | declare name init exported span => exact Bindings.write_paired h hcells name init
  | assign name value span => exact Bindings.write_paired h hcells name value
  | expression e =>
    have hvalue := e.eval_paired h hcells
    exact ⟨congrArg (Except.map some) hvalue.result, hvalue.cells⟩

theorem runStatements_paired (h : Paired S names names') (hcells : S cells cells')
    (completion : Option Value) (statements : List Statement) :
    EndPaired S (runStatements names cells completion statements)
      (runStatements names' cells' completion statements) := by
  induction statements generalizing cells cells' completion with
  | nil => exact ⟨rfl, hcells⟩
  | cons statement rest ih =>
    have hran := statement.run_paired h hcells
    unfold runStatements
    generalize statement.run names cells = r at hran ⊢
    generalize statement.run names' cells' = r' at hran ⊢
    obtain ⟨after, result⟩ := r
    obtain ⟨after', result'⟩ := r'
    obtain ⟨rfl, hafter⟩ : result = result' ∧ S after after' := ⟨hran.result, hran.cells⟩
    cases result with
    | error fault => exact ⟨rfl, hafter⟩
    | ok v => exact ih hafter _

/-- Two bodies with the same values behind their names, on one host. -/
structure Agree (names : Bindings) (cells : Cells) (names' : Bindings) (cells' : Cells) : Prop where
  first : names.Apart cells
  second : names'.Apart cells'
  same : names.values cells = names'.values cells'
  functions : cells.functions = cells'.functions

/-- The values are all that matters to an assignment where each local has a cell of its own. -/
theorem paired_agree (names names' : Bindings) :
    Paired (fun cells cells' => Agree names cells names' cells') names names' where
  same h := h.same
  functions h := h.functions
  called h _ := ⟨h.first.of_size rfl, h.second.of_size rfl, h.same, rfl⟩
  assign {cells cells'} h name v := by
    have hfirst := h.first.assign_eq name v
    rw [h.same, ← h.second.assign_eq name v] at hfirst
    cases hassign : names.assign cells name v with
    | error fault =>
      cases hassign' : names'.assign cells' name v with
      | error fault' => rw [hassign, hassign'] at hfirst; cases hfirst; exact .error fault
      | ok after' => rw [hassign, hassign'] at hfirst; cases hfirst
    | ok after =>
      cases hassign' : names'.assign cells' name v with
      | error fault' => rw [hassign, hassign'] at hfirst; cases hfirst
      | ok after' =>
        rw [hassign, hassign'] at hfirst
        refine .ok ⟨h.first.of_size (Bindings.assign_keeps hassign).size,
          h.second.of_size (Bindings.assign_keeps hassign').size, Except.ok.inj hfirst, ?_⟩
        rw [Bindings.functions_assign hassign, Bindings.functions_assign hassign', h.functions]

/-- Bodies that begin with the same values end in the same way and with the same values. -/
theorem Program.run_agree (h : Agree names cells names' cells') (p : Program) :
    (p.run names cells).2 = (p.run names' cells').2 ∧
      names.values (p.run names cells).1 = names'.values (p.run names' cells').1 := by
  have hends := runStatements_paired (paired_agree names names') h none p.statements
  exact ⟨hends.result, hends.cells.same⟩

end Agreement

/-! ## Expressions write nothing -/

section Expressions

variable {names : Bindings} {cells : Cells} {fault : Fault} {name : String} {α β : Type}

/-- A fault that reading can end with: a name is missing only if no cell is found for it, and nothing
is read-only to a reader. -/
def Fault.OfReading (names : Bindings) (cells : Cells) : Fault → Prop
  | .undefinedName name => names.lookup cells name = .error (.undefinedName name)
  | .readOnly _ => False
  | _ => True

theorem Bindings.lookup_fault (h : names.lookup cells name = .error fault) :
    fault.OfReading names cells := by
  have hsame := h
  unfold Bindings.lookup at h
  split at h
  next => cases h
  next => cases h; exact hsame

theorem Operator.apply_fault {op : Operator} {left right : Value}
    (h : op.apply left right = .error fault) : fault.OfReading names cells := by
  unfold Operator.apply at h
  split at h <;> cases h
  trivial

/-- What reads names and calls functions and does no more: however it ends, some calls were made, and
a fault is one of reading. -/
def ReadsOnly (names : Bindings) (cells : Cells) (run : EStateM Fault HostFunctions α) : Prop :=
  ∀ functions, match run functions with
    | .ok _ later => ∃ calls, later = functions.after calls
    | .error fault later => fault.OfReading names cells ∧ ∃ calls, later = functions.after calls

theorem readsOnly_pure (a : α) : ReadsOnly names cells (pure a) :=
  fun functions => ⟨0, functions.after_zero.symm⟩

theorem readsOnly_throw (h : fault.OfReading names cells) :
    ReadsOnly names cells (throw fault : EStateM Fault HostFunctions α) :=
  fun functions => ⟨h, 0, functions.after_zero.symm⟩

theorem readsOnly_ofExcept {r : Except Fault α}
    (h : ∀ fault, r = .error fault → fault.OfReading names cells) :
    ReadsOnly names cells (MonadExcept.ofExcept r : EStateM Fault HostFunctions α) := by
  cases r with
  | ok a => exact readsOnly_pure a
  | error fault => exact readsOnly_throw (h fault rfl)

theorem readsOnly_call (f : HostFunction) (args : List Value) :
    ReadsOnly names cells (modifyGet fun functions => functions.call f args) :=
  fun _ => ⟨1, rfl⟩

theorem ReadsOnly.bind {run : EStateM Fault HostFunctions α}
    {next : α → EStateM Fault HostFunctions β} (h : ReadsOnly names cells run)
    (hnext : ∀ a, ReadsOnly names cells (next a)) : ReadsOnly names cells (run >>= next) := by
  intro functions
  have hrun := h functions
  show match EStateM.bind run next functions with
    | .ok _ later => ∃ calls, later = functions.after calls
    | .error fault later => fault.OfReading names cells ∧ ∃ calls, later = functions.after calls
  unfold EStateM.bind
  cases hfirst : run functions with
  | error fault later =>
    rw [hfirst] at hrun
    exact hrun
  | ok a middle =>
    rw [hfirst] at hrun
    obtain ⟨calls, rfl⟩ := hrun
    have hrest := hnext a (functions.after calls)
    dsimp only
    cases hsecond : next a (functions.after calls) with
    | ok b later =>
      rw [hsecond] at hrest
      obtain ⟨more, rfl⟩ := hrest
      exact ⟨_, functions.after_after calls more⟩
    | error fault later =>
      rw [hsecond] at hrest
      obtain ⟨hfault, more, rfl⟩ := hrest
      exact ⟨hfault, _, functions.after_after calls more⟩

mutual

theorem Expression.compute_readsOnly (e : Expression) :
    ReadsOnly names cells (e.compute names cells) := by
  match e with
  | .number x => exact readsOnly_pure _
  | .string s => exact readsOnly_pure _
  | .boolean b => exact readsOnly_pure _
  | .null => exact readsOnly_pure _
  | .identifier name _ =>
    rw [Expression.compute]
    exact readsOnly_ofExcept fun _ hfault => Bindings.lookup_fault hfault
  | .negate operand =>
    rw [Expression.compute]
    refine (Expression.compute_readsOnly operand).bind fun v => ?_
    cases v with
    | number x => exact readsOnly_pure _
    | _ => exact readsOnly_throw trivial
  | .binary op left right =>
    rw [Expression.compute]
    refine (Expression.compute_readsOnly left).bind fun l =>
      (Expression.compute_readsOnly right).bind fun r => ?_
    exact readsOnly_ofExcept fun _ hfault => Operator.apply_fault hfault
  | .call callee args span =>
    rw [Expression.compute]
    refine (Expression.compute_readsOnly callee).bind fun v => ?_
    cases v with
    | function f =>
      refine (computeAll_readsOnly args).bind fun values =>
        (readsOnly_call f values).bind fun answer => ?_
      cases answer with
      | ok v => exact readsOnly_pure _
      | error message => exact readsOnly_throw trivial
    | _ => exact readsOnly_throw trivial

theorem computeAll_readsOnly (es : List Expression) :
    ReadsOnly names cells (computeAll names cells es) := by
  match es with
  | [] => exact readsOnly_pure _
  | e :: rest =>
    rw [computeAll]
    exact (Expression.compute_readsOnly e).bind fun v =>
      (computeAll_readsOnly rest).bind fun vs => readsOnly_pure _

end

/-- An evaluation leaves the cells as they are, and some calls were made. -/
theorem Expression.eval_cells (names : Bindings) (cells : Cells) (e : Expression) :
    ∃ calls, (e.eval names cells).1 =
      { cells with functions := cells.functions.after calls } := by
  have hreads : ReadsOnly names cells (e.compute names cells) := e.compute_readsOnly
  have hread := hreads cells.functions
  unfold eval
  generalize e.compute names cells cells.functions = result at hread ⊢
  cases result with
  | ok v functions =>
    obtain ⟨calls, rfl⟩ := hread
    exact ⟨calls, rfl⟩
  | error fault functions =>
    obtain ⟨-, calls, rfl⟩ := hread
    exact ⟨calls, rfl⟩

theorem Expression.eval_fault {e : Expression} (h : (e.eval names cells).2 = .error fault) :
    fault.OfReading names cells := by
  have hreads : ReadsOnly names cells (e.compute names cells) := e.compute_readsOnly
  have hread := hreads cells.functions
  unfold eval at h
  generalize e.compute names cells cells.functions = result at hread h
  cases result with
  | ok v functions => cases h
  | error fault' functions =>
    cases h
    exact hread.1

end Expressions

/-! ## What a body writes to -/

variable {names : Bindings} {cells cells' : Cells}

/-- The name that a statement writes to. -/
def Statement.written : Statement → Option String
  | .declare name .. | .assign name .. => some name
  | _ => none

/-- Some calls were made, and one local at most was written to, under a certain name. -/
def Bindings.Writes (names : Bindings) (cells : Cells) (written : Option String)
    (cells' : Cells) : Prop :=
  ∃ calls, cells' = { cells with functions := cells.functions.after calls } ∨
    ∃ name cell value, written = some name ∧ names.locals.cell? name = some cell ∧
      cells' = { cells.write cell value with functions := cells.functions.after calls }

theorem Bindings.write_cases (names : Bindings) (cells : Cells) (name : String) (e : Expression) :
    names.Writes cells (some name) (names.write cells name e).1 := by
  obtain ⟨calls, hcells⟩ := e.eval_cells names cells
  refine ⟨calls, ?_⟩
  unfold write
  generalize e.eval names cells = r at hcells ⊢
  obtain ⟨after, fault | v⟩ := r
  · exact .inl hcells
  · obtain rfl : after = _ := hcells
    dsimp only
    cases hassign : names.assign { cells with functions := cells.functions.after calls } name v with
    | error fault => exact .inl rfl
    | ok written =>
      unfold assign at hassign
      split at hassign
      next cell hcell => cases hassign; exact .inr ⟨name, cell, v, rfl, hcell, rfl⟩
      next => split at hassign <;> cases hassign

/-- A statement makes some calls, and writes to one local at most, under its name. -/
theorem Statement.run_cases (names : Bindings) (cells : Cells) (statement : Statement) :
    names.Writes cells statement.written (statement.run names cells).1 := by
  have hidle : cells = { cells with functions := cells.functions.after 0 } := by
    rw [HostFunctions.after_zero]
  cases statement with
  | importFrom decl => exact ⟨0, .inl hidle⟩
  | exportList bindings => exact ⟨0, .inl hidle⟩
  | declare name init exported span => exact names.write_cases cells name init
  | assign name value span => exact names.write_cases cells name value
  | expression e => exact (e.eval_cells names cells).imp fun _ heq => .inl heq

theorem Statement.run_keeps (names : Bindings) (cells : Cells) (statement : Statement) :
    Cells.KeptBut names.locals cells (statement.run names cells).1 := by
  obtain ⟨calls, heq | ⟨name, cell, value, -, hcell, heq⟩⟩ := statement.run_cases names cells
  · exact .of_values (by rw [heq])
  · refine (Cells.keptBut_write (v := value)
      (List.mem_map_of_mem (Scope.mem_of_cell? hcell))).trans (.of_values ?_)
    rw [heq]

theorem Statement.run_functions (names : Bindings) (cells : Cells) (statement : Statement) :
    ∃ calls, (statement.run names cells).1.functions = cells.functions.after calls := by
  obtain ⟨calls, heq | ⟨name, cell, value, -, -, heq⟩⟩ := statement.run_cases names cells
  · exact ⟨calls, congrArg Cells.functions heq⟩
  · exact ⟨calls, congrArg Cells.functions heq⟩

/-- What each statement does to the cells, if it goes on from one statement to the next, is done by a
body. -/
theorem runStatements_induction {R : Cells → Cells → Prop} (refl : ∀ cells, R cells cells)
    (trans : ∀ {a b c}, R a b → R b c → R a c)
    (step : ∀ cells (statement : Statement), R cells (statement.run names cells).1) (cells : Cells)
    (completion : Option Value) (statements : List Statement) :
    R cells (runStatements names cells completion statements).1 := by
  induction statements generalizing cells completion with
  | nil => exact refl cells
  | cons statement rest ih =>
    have hfirst := step cells statement
    unfold runStatements
    generalize statement.run names cells = r at hfirst ⊢
    obtain ⟨after, fault | v⟩ := r
    · exact hfirst
    · exact trans hfirst (ih after _)

/-- A body writes to the cells of its locals only. -/
theorem Program.run_keeps (p : Program) (names : Bindings) (cells : Cells) :
    Cells.KeptBut names.locals cells (p.run names cells).1 :=
  runStatements_induction (.refl names.locals) .trans (Statement.run_keeps names) cells none
    p.statements

/-- Functions that remember nothing are the same after a body has run. -/
theorem Program.functions_run (p : Program) (h : cells.functions.Steady) :
    (p.run names cells).1.functions = cells.functions := by
  have hcalls : ∃ calls, (p.run names cells).1.functions = cells.functions.after calls := by
    refine runStatements_induction
      (R := fun cells cells' => ∃ calls, cells'.functions = cells.functions.after calls)
      (fun cells => ⟨0, cells.functions.after_zero.symm⟩) ?_ (Statement.run_functions names) cells none
      p.statements
    rintro a b c ⟨calls, hb⟩ ⟨more, hc⟩
    exact ⟨calls + more, by rw [hc, hb, HostFunctions.after_after]⟩
  obtain ⟨calls, hsame⟩ := hcalls
  exact hsame.trans (h.after calls)

end Script

/-! ## Filling a bridge -/

namespace Scope

/-- The cells after every name of a scope got a value. -/
def fill (scope : Scope) (f : String → Value) (cells : Cells) : Cells :=
  scope.foldl (fun cells (name, cell) => cells.write cell (f name)) cells

theorem fill_keeps (scope : Scope) (f : String → Value) (cells : Cells) :
    Cells.KeptBut scope cells (scope.fill f cells) := by
  unfold fill
  suffices h : ∀ entries : Scope, (∀ e ∈ entries, e ∈ scope) → ∀ cells, Cells.KeptBut scope cells
      (entries.foldl (fun cells (name, cell) => cells.write cell (f name)) cells) from
    h scope (fun _ h => h) cells
  intro entries
  induction entries with
  | nil => exact fun _ cells => .refl scope cells
  | cons entry rest ih =>
    intro hin cells
    exact (Cells.keptBut_write (List.mem_map_of_mem (hin entry List.mem_cons_self))).trans
      (ih (fun e he => hin e (List.mem_cons_of_mem _ he)) _)

theorem functions_fill (scope : Scope) (f : String → Value) (cells : Cells) :
    (scope.fill f cells).functions = cells.functions := by
  unfold fill
  induction scope generalizing cells with
  | nil => rfl
  | cons entry rest ih => exact ih (cells.write entry.2 (f entry.1))

/-- Where no two names share a cell, each of them has its value afterwards. -/
theorem read_fill {scope : Scope} {cells : Cells} (f : String → Value)
    (hcells : (scope.map Prod.snd).Nodup) (hthere : ∀ e ∈ scope, e.2.index < cells.values.size) :
    scope.read (scope.fill f cells) = scope.map fun e => (e.1, f e.1) := by
  induction scope generalizing cells with
  | nil => rfl
  | cons entry rest ih =>
    rw [List.map_cons, List.nodup_cons] at hcells
    have hself := hthere entry List.mem_cons_self
    have hkept := (fill_keeps rest f (cells.write entry.2 (f entry.1))).read entry.2 hcells.1
    have hrest := @ih (cells.write entry.2 (f entry.1)) hcells.2 fun e he => by
      rw [Cells.size_write]
      exact hthere e (List.mem_cons_of_mem _ he)
    rw [List.map_cons]
    refine List.cons_eq_cons.mpr ⟨?_, hrest⟩
    exact congrArg (Prod.mk entry.1) (hkept.trans (Cells.read_write_self hself))

end Scope

end ModuleLoader
