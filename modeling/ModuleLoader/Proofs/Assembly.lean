import ModuleLoader.Proofs.Consistency
/-!
# Stores that are reached

Units are made, linked once, wired, instantiated, evaluated, written to and dropped in any order. What
is reached in this way is consistent, and what is bound stays bound to the same cells.

Results:
1. `Deed`, `enact`, `enactAll`: what can be done from outside, and the stores that it leads to.
2. `Consistent.enact`: all of them are consistent.
3. `Becomes`, `becomes_enact`: what becomes of a unit.
4. `Shares`, `Shares.later`: an imported name goes on to share the cell of the exporter.
-/
namespace ModuleLoader

def Status.isUnlinked : Status → Bool
  | unlinked => true
  | _ => false

/-- Whether the script was linked and has no unit yet for one of its specifiers. -/
def ScriptUnit.lacks (u : ScriptUnit) (specifier : String) : Bool :=
  !u.status.isUnlinked && u.program.specifiers.contains specifier &&
    (u.dependencies.lookup specifier).isNone

/-- A unit keeps its names and what is recorded, and its imports once it was entered. -/
inductive ModuleUnit.Becomes : ModuleUnit → ModuleUnit → Prop
  | script {u u' : ScriptUnit} : u'.program = u.program → u'.locals = u.locals →
      u'.exports = u.exports →
      (∀ specifier y, u.dependencies.lookup specifier = some y →
        u'.dependencies.lookup specifier = some y) →
      (u.status.isEntered = true → u'.status.isEntered = true ∧ u'.imports = u.imports) →
      Becomes (.script u) (.script u')
  | bridge {b b' : Bridge} : b'.exports = b.exports → Becomes (.bridge b) (.bridge b')
  | manifest {m : Manifest} : Becomes (.manifest m) (.manifest m)

namespace ModuleUnit.Becomes

variable {unit unit' unit'' : ModuleUnit}

theorem refl (unit : ModuleUnit) : unit.Becomes unit := by
  cases unit with
  | script u => exact .script rfl rfl rfl (fun _ _ h => h) fun h => ⟨h, rfl⟩
  | bridge b => exact .bridge rfl
  | manifest m => exact .manifest

theorem trans (h : unit.Becomes unit') (h' : unit'.Becomes unit'') : unit.Becomes unit'' := by
  cases h with
  | script hprogram hlocals hexports hdependencies himports =>
    cases h' with
    | script hprogram' hlocals' hexports' hdependencies' himports' =>
      refine .script (hprogram'.trans hprogram) (hlocals'.trans hlocals) (hexports'.trans hexports)
        (fun specifier y hy => hdependencies' specifier y (hdependencies specifier y hy)) fun hu => ?_
      obtain ⟨hentered, hsame⟩ := himports hu
      obtain ⟨hentered', hsame'⟩ := himports' hentered
      exact ⟨hentered', hsame'.trans hsame⟩
  | bridge hexports =>
    cases h' with
    | bridge hexports' => exact .bridge (hexports'.trans hexports)
  | manifest => exact h'

theorem exports (h : unit.Becomes unit') : unit'.exports = unit.exports := by
  cases h with
  | script _ _ hexports => exact hexports
  | bridge hexports => exact hexports
  | manifest => rfl

end ModuleUnit.Becomes

namespace Store

open Script (Want)

/-- What can be done to units from outside. -/
inductive Deed
  | script (url : Url) (source : String)
  | bridge (url : Url) (names : List String) (executor : Option Executor)
  | link (x : UnitId)
  | wire (x : UnitId) (specifier : String) (y : UnitId)
  | instantiate (x : UnitId)
  | evaluate (x : UnitId)
  | write (cell : CellId) (v : Value)
  | install (x : UnitId) (executor : Option Executor)
  | supply (tables : Tables)
  | provide (functions : HostFunctions)
  | drop (x : UnitId)

/-- Does what can be done. A script is linked once, and each of its specifiers gets its unit at most
once, at any time after that. -/
def enact (s : Store) : Deed → Store
  | .script url source =>
    match ScriptUnit.compile url source s.cells with
    | .ok (cells, u) => ({ s with cells }.add (.script u)).1
    | .error _ => s
  | .bridge url names executor =>
    let (cells, b) := Bridge.make url names executor s.cells
    ({ s with cells }.add (.bridge b)).1
  | .link x =>
    match s.unit? x with
    | some (.script u) => if u.status.isUnlinked then (s.beginLink x).1 else s
    | _ => s
  | .wire x specifier y =>
    match s.unit? x with
    | some (.script u) =>
      if u.lacks specifier && (s.unit? y).isSome then s.wire x specifier y else s
    | _ => s
  | .instantiate x => (s.instantiate x).1
  | .evaluate x => (s.evaluate x).1
  | .write cell v => { s with cells := s.cells.write cell v }
  | .install x executor => s.changeBridge x fun b => { b with executor }
  | .supply tables => { s with tables }
  | .provide functions => { s with cells := { s.cells with functions } }
  | .drop x => s.drop x

def enactAll (s : Store) (deeds : List Deed) : Store := deeds.foldl enact s

variable {s s' t : Store} {x y id : UnitId} {w : Want} {u u' : ScriptUnit} {b b' : Bridge}
  {unit unit' : ModuleUnit} {specifier : String}

/-! ## Single steps -/

theorem unit?_retain (s : Store) (keep : UnitId → Bool) (x : UnitId) :
    (s.retain keep).unit? x = if keep x then s.unit? x else none := by
  unfold unit? retain
  rw [Array.getElem?_mapIdx]
  cases s.units[x.index]? with
  | none => simp
  | some unit => simp

theorem size_add (s : Store) (unit : ModuleUnit) :
    (s.add unit).1.units.size = s.units.size + 1 := Array.size_push _

/-- A new unit that is well made and has nothing recorded. -/
theorem Consistent.add (h : s.Consistent) (cells : Cells) (hmade : unit.WellMade)
    (hbridge : ∀ b, unit = .bridge b → b.status ≠ .unlinked)
    (hrest : unit.status.isBound = false ∧ unit.status ≠ .instantiating)
    (hnew : ∀ u, unit = .script u → u.dependencies = []) :
    ({ s with cells }.add unit).1.Consistent := by
  have hnone : s.unit? ⟨s.units.size⟩ = none := unit?_add_self s unit
  have hself : ({ s with cells }.add unit).1.unit? ⟨s.units.size⟩ = some unit :=
    unit?_add_new { s with cells } unit
  refine h.change (fun x hne => ?_) hself ?_ hmade hbridge hrest (fun hentered => ?_)
    (fun x specifier himports => ?_) (fun specifier y himports => ?_)
  · exact (unit?_add { s with cells } unit x).trans (if_neg (Ne.symm hne))
  · exact (size_add { s with cells } unit).symm ▸ Nat.le_succ _
  · unfold Store.status at hentered
    rw [hnone] at hentered
    cases hentered
  · exact absurd (h.known x specifier _ himports) (Nat.lt_irrefl _)
  · obtain ⟨url, program, dependencies, hshape, hlookup⟩ := himports
    unfold shape? at hshape
    rw [hself] at hshape
    cases unit with
    | script u => cases hshape; rw [hnew u rfl] at hlookup; cases hlookup
    | bridge b => cases hshape
    | manifest m => cases hshape

theorem Consistent.script (h : s.Consistent) {url : Url} {source : String} {cells : Cells}
    (hu : ScriptUnit.compile url source s.cells = .ok (cells, u)) :
    ({ s with cells }.add (.script u)).1.Consistent := by
  have hnamed := named_compile hu
  obtain ⟨program, names, -, -, -, rfl⟩ := compile_eq_ok hu
  exact h.add cells hnamed (fun b hb => by cases hb) ⟨rfl, fun he => by cases he⟩
    fun u hu => by cases hu; rfl

theorem Consistent.bridge (h : s.Consistent) {url : Url} {names : List String}
    {executor : Option Executor} {cells : Cells}
    (hb : Bridge.make url names executor s.cells = (cells, b)) :
    ({ s with cells }.add (.bridge b)).1.Consistent := by
  cases hb
  refine h.add _ ?_ (fun b hb => by cases hb; simp) ⟨rfl, fun he => by cases he⟩
    fun u hu => by cases hu
  change ((Scope.fresh _ s.cells).2.map Prod.fst).Nodup
  rw [Scope.names_fresh]
  exact nodup_eraseDups _

/-- A script that is not bound gets another status or more dependencies. -/
theorem Consistent.script_change (h : s.Consistent) (u' : ScriptUnit) {f : ModuleUnit → ModuleUnit}
    (hu : s.unit? x = some (.script u)) (hf : f (.script u) = .script u') (hmade : u'.Named)
    (hrest : u'.status.isBound = false ∧ u'.status ≠ .instantiating)
    (hkeeps : u.status.isEntered = true → u'.status.isEntered = true)
    (hexports : u.exports = u'.exports)
    (hknown : ∀ specifier y, u'.dependencies.lookup specifier = some y → y.index < s.units.size) :
    (s.change x f).Consistent := by
  have hself : (s.change x f).unit? x = some (.script u') := by
    rw [unit?_change, if_pos rfl, hu, Option.map_some, hf]
  refine h.change (fun z hne => ?_) hself (s.size_change x f).ge hmade (fun b hb => by cases hb)
    hrest (fun hentered => ?_) (fun z specifier _ => ⟨.script u, hu, hexports⟩)
    (fun specifier y himports => ?_)
  · rw [unit?_change, if_neg hne]
  · rw [status_of_unit? hu] at hentered
    exact hkeeps hentered
  · rw [s.size_change]
    obtain ⟨url, program, dependencies, hshape, hlookup⟩ := himports
    unfold shape? at hshape
    rw [hself] at hshape
    cases hshape
    exact hknown specifier y hlookup

theorem Consistent.link (h : s.Consistent) (hu : s.unit? x = some (.script u))
    (hunlinked : u.status.isUnlinked = true) : (s.beginLink x).1.Consistent := by
  have hnamed : u.Named := h.made x _ hu
  unfold beginLink
  rw [hu]
  refine h.script_change { u with status := .linked } hu rfl
    ⟨hnamed.1, hnamed.2, hnamed.3, hnamed.4⟩ ⟨rfl, fun he => by cases he⟩ (fun he => ?_) rfl
    fun specifier y hlookup => ?_
  · cases hstatus : u.status <;> simp_all [Status.isUnlinked, Status.isEntered]
  · refine h.known x specifier y ⟨u.url, u.program, u.dependencies, ?_, hlookup⟩
    unfold shape?
    rw [hu]
    rfl

theorem Consistent.wire (h : s.Consistent) (hu : s.unit? x = some (.script u))
    (hin : specifier ∈ u.program.specifiers) (hnew : u.dependencies.lookup specifier = none)
    (hy : (s.unit? y).isSome = true) : (s.wire x specifier y).Consistent := by
  have hnamed : u.Named := h.made x _ hu
  refine h.script_change { u with
    dependencies := u.dependencies.filter (·.1 ≠ specifier) ++ [(specifier, y)] } hu rfl
    ⟨hnamed.1, hnamed.2, hnamed.3, hnamed.4⟩ ⟨?_, fun he => ?_⟩ (fun he => he) rfl
    fun other z hlookup => ?_
  · -- a bound script has a unit for each of its specifiers already
    by_contra hbound
    rw [Bool.not_eq_false] at hbound
    obtain ⟨z, hz⟩ := (h.bound x u hu hbound).1 specifier hin
    rw [hnew] at hz
    cases hz
  · have hrest := (h.resting x).1
    rw [status_of_unit? hu] at hrest
    exact hrest he
  · rw [lookup_wire] at hlookup
    split at hlookup
    next =>
      cases hlookup
      exact Phase.lt_size_of_isSome hy
    next =>
      refine h.known x other z ⟨u.url, u.program, u.dependencies, ?_, hlookup⟩
      unfold shape?
      rw [hu]
      rfl

theorem Consistent.drop (h : s.Consistent) (x : UnitId) : (s.drop x).Consistent := by
  refine h.of_units (fun z unit hz => ?_) Array.size_mapIdx
  unfold Store.drop at hz
  rw [unit?_retain] at hz
  split at hz
  next => exact hz
  next => cases hz

theorem lacks_iff : u.lacks specifier = true ↔ u.status.isUnlinked = false ∧
    specifier ∈ u.program.specifiers ∧ u.dependencies.lookup specifier = none := by
  unfold ScriptUnit.lacks
  simp [and_assoc]

/-- Whatever is done from outside keeps a store consistent. -/
theorem Consistent.enact (h : s.Consistent) (deed : Deed) : (s.enact deed).Consistent := by
  cases deed with
  | script url source =>
    dsimp only [Store.enact]
    split
    next cells u hu => exact h.script hu
    next => exact h
  | bridge url names executor => exact h.bridge rfl
  | link x =>
    dsimp only [Store.enact]
    split
    next u hu =>
      split
      next hunlinked => exact h.link hu hunlinked
      next => exact h
    next => exact h
  | wire x specifier y =>
    dsimp only [Store.enact]
    split
    next u hu =>
      split
      next hlacks =>
        obtain ⟨hlacks, hy⟩ := Bool.and_eq_true_iff.mp hlacks
        obtain ⟨-, hin, hnew⟩ := lacks_iff.mp hlacks
        exact h.wire hu hin hnew hy
      next => exact h
    next => exact h
  | instantiate x => exact h.instantiate x
  | evaluate x => exact h.evaluate x
  | write cell v => exact h.of_units (fun _ _ h => h) rfl
  | install x executor => exact h.of_executor x executor
  | supply tables => exact h.of_units (fun _ _ h => h) rfl
  | provide functions => exact h.of_units (fun _ _ h => h) rfl
  | drop x => exact h.drop x

theorem Consistent.enactAll (h : s.Consistent) (deeds : List Deed) :
    (s.enactAll deeds).Consistent := by
  induction deeds generalizing s with
  | nil => exact h
  | cons deed deeds ih => exact ih (h.enact deed)

/-! ## What becomes of a unit -/

/-- The units that were there and still are. -/
structure Becomes (s t : Store) : Prop where
  size : s.units.size ≤ t.units.size
  units : ∀ x unit', x.index < s.units.size → t.unit? x = some unit' →
    ∃ unit, s.unit? x = some unit ∧ unit.Becomes unit'

theorem Becomes.refl (s : Store) : s.Becomes s :=
  ⟨Nat.le_refl _, fun _ unit _ hunit => ⟨unit, hunit, .refl unit⟩⟩

theorem Becomes.trans (h : s.Becomes s') (h' : s'.Becomes t) : s.Becomes t := by
  refine ⟨h.size.trans h'.size, fun x unit'' hlt hunit'' => ?_⟩
  obtain ⟨unit', hunit', hlater⟩ := h'.units x unit'' (Nat.lt_of_lt_of_le hlt h.size) hunit''
  obtain ⟨unit, hunit, hfirst⟩ := h.units x unit' hlt hunit'
  exact ⟨unit, hunit, hfirst.trans hlater⟩

theorem becomes_of_units (hunits : ∀ x unit, s'.unit? x = some unit → s.unit? x = some unit)
    (hsize : s'.units.size = s.units.size) : s.Becomes s' :=
  ⟨hsize.ge, fun x unit _ hunit => ⟨unit, hunits x unit hunit, .refl unit⟩⟩

theorem becomes_change (s : Store) (id : UnitId) {f : ModuleUnit → ModuleUnit}
    (hf : ∀ unit, s.unit? id = some unit → unit.Becomes (f unit)) : s.Becomes (s.change id f) := by
  refine ⟨(s.size_change id f).ge, fun x unit' _ hunit' => ?_⟩
  rw [unit?_change] at hunit'
  split at hunit'
  next hid =>
    subst hid
    obtain ⟨unit, hunit, rfl⟩ := Option.map_eq_some_iff.mp hunit'
    exact ⟨unit, hunit, hf unit hunit⟩
  next => exact ⟨unit', hunit', .refl unit'⟩

/-- A unit that is entered has its imports kept from then on. -/
theorem becomes_setStatus (s : Store) (id : UnitId) {status : Status}
    (h : status.isEntered = true) : s.Becomes (s.setStatus id status) :=
  s.becomes_change id fun unit _ => by
    cases unit with
    | script u => exact .script rfl rfl rfl (fun _ _ h => h) fun _ => ⟨h, rfl⟩
    | bridge b => exact .bridge rfl
    | manifest m => exact .manifest

theorem becomes_changeBridge (s : Store) (id : UnitId) {f : Bridge → Bridge}
    (h : ∀ b, (f b).exports = b.exports) : s.Becomes (s.changeBridge id f) :=
  s.becomes_change id fun unit _ => by
    cases unit with
    | script u => exact .refl _
    | bridge b => exact .bridge (h b)
    | manifest m => exact .refl _

theorem becomes_add (s : Store) (cells : Cells) (unit : ModuleUnit) :
    s.Becomes ({ s with cells }.add unit).1 := by
  refine ⟨(size_add { s with cells } unit).symm ▸ Nat.le_succ _, fun x unit' hlt hunit' => ?_⟩
  have hne : x ≠ ({ s with cells }.add unit).2 := by
    rintro rfl
    exact Nat.lt_irrefl _ hlt
  have hsame := unit?_add { s with cells } unit x
  rw [if_neg hne] at hsame
  exact ⟨unit', hsame.symm.trans hunit', .refl unit'⟩

theorem becomes_instantiate (hs : s.NoManifests) (id : UnitId) :
    s.Becomes (s.instantiate id).1 := by
  obtain ⟨log, hruns⟩ := instantiate_runs hs id
  have hframes := (hruns.forth instantiation_lawful).frames
  refine ⟨(hruns.size instantiation_lawful).ge, fun x unit' _ hunit' => ?_⟩
  obtain ⟨unit, hunit, hframe⟩ := hframes.exists_unit hunit'
  refine ⟨unit, hunit, ?_⟩
  cases unit with
  | manifest m => exact absurd hunit (hs x m)
  | bridge b =>
    cases unit' with
    | bridge b' =>
      simp only [ModuleUnit.frame, ModuleUnit.bridge.injEq, Bridge.mk.injEq] at hframe
      exact .bridge hframe.2.1.symm
    | script u' => cases hframe
    | manifest m => cases hframe
  | script u =>
    by_cases hentered : u.status.isEntered = true
    · -- a script that was entered before is left as it is
      have hshut : ¬ instantiation.Opens s x := by
        rintro ⟨other, hother, hanswer⟩
        cases hunit.symm.trans hother
        cases hstatus : u.status <;> simp_all [instantiation, Status.isEntered]
      rw [hruns.kept instantiation_lawful hshut, hunit] at hunit'
      cases hunit'
      exact .refl _
    · cases unit' with
      | script u' =>
        simp only [ModuleUnit.frame, ModuleUnit.script.injEq, ScriptUnit.mk.injEq] at hframe
        obtain ⟨-, hprogram, hlocals, hexports, -, hdependencies, -⟩ := hframe
        exact .script hprogram.symm hlocals.symm hexports.symm
          (fun _ _ h => hdependencies ▸ h) fun h => absurd h hentered
      | bridge b => cases hframe
      | manifest m => cases hframe

theorem becomes_runExecutor (s : Store) (id : UnitId) (b : Bridge) :
    s.Becomes (s.runExecutor id b).1 := by
  unfold runExecutor
  obtain ⟨slot, r⟩ := perform s.tables b ⟨s.cells, none⟩ (b.executor.getD [])
  have hcells : s.Becomes { s with cells := slot.cells } := becomes_of_units (fun _ _ h => h) rfl
  exact hcells.trans (becomes_changeBridge _ id fun _ => rfl)

theorem becomes_evaluate (hs : s.NoManifests) (id : UnitId) : s.Becomes (s.evaluate id).1 := by
  obtain ⟨log, hruns⟩ := evaluate_runs hs id
  refine hruns.preserve evaluation_lawful (P := fun t => s.Becomes t) ?_ ?_ ?_ (.refl s)
  · exact fun t x _ ht _ _ => ht.trans (t.becomes_setStatus x rfl)
  · intro t x unit t' r ht _ _ hturn
    have hact : t.Becomes (evaluation.act t x unit).1 := by
      cases unit with
      | script u => exact becomes_of_units (fun _ _ h => h) rfl
      | bridge b => exact t.becomes_runExecutor x b
      | manifest m => exact .refl t
    rcases Phase.settle_cases hturn with ⟨status, hstatus, rfl, -⟩ | ⟨e, -, rfl, -⟩
    · refine ht.trans (hact.trans (becomes_setStatus _ x ?_))
      -- a status that comes of a turn is one that answers
      have hanswer := evaluation_lawful.settled t x unit _ status (Prod.ext rfl hstatus)
        (.bridge ⟨unit.url, [], none, status⟩)
      cases status with
      | unlinked => cases hanswer
      | linked => cases hanswer
      | _ => rfl
    · exact ht.trans (hact.trans (becomes_setStatus _ x rfl))
  · exact fun t x _ _ ht _ => ht.trans (t.becomes_setStatus x rfl)

theorem becomes_enact (hs : s.NoManifests) (deed : Deed) : s.Becomes (s.enact deed) := by
  cases deed with
  | script url source =>
    dsimp only [enact]
    split
    next cells u _ => exact s.becomes_add cells (.script u)
    next => exact .refl s
  | bridge url names executor => exact s.becomes_add _ _
  | link x =>
    dsimp only [enact, beginLink]
    split
    next u hu =>
      split
      next hunlinked =>
        rw [hu]
        refine s.becomes_change x fun unit hunit => ?_
        cases hu.symm.trans hunit
        refine .script rfl rfl rfl (fun _ _ h => h) fun h => ?_
        cases hstatus : u.status <;> simp_all [Status.isUnlinked, Status.isEntered]
      next => exact .refl s
    next => exact .refl s
  | wire x specifier y =>
    dsimp only [enact]
    split
    next u hu =>
      split
      next hlacks =>
        obtain ⟨hlacks, -⟩ := Bool.and_eq_true_iff.mp hlacks
        obtain ⟨-, -, hnew⟩ := lacks_iff.mp hlacks
        refine s.becomes_change x fun unit hunit => ?_
        cases hu.symm.trans hunit
        refine .script rfl rfl rfl (fun other z hz => ?_) fun h => ⟨h, rfl⟩
        rw [lookup_wire, if_neg fun heq => ?_]
        · exact hz
        · rw [heq, hnew] at hz
          cases hz
      next => exact .refl s
    next => exact .refl s
  | instantiate x => exact becomes_instantiate hs x
  | evaluate x => exact becomes_evaluate hs x
  | write cell v => exact becomes_of_units (fun _ _ h => h) rfl
  | install x executor => exact s.becomes_changeBridge x fun _ => rfl
  | supply tables => exact becomes_of_units (fun _ _ h => h) rfl
  | provide functions => exact becomes_of_units (fun _ _ h => h) rfl
  | drop x =>
    refine becomes_of_units (fun z unit hz => ?_) Array.size_mapIdx
    dsimp only [Store.enact, Store.drop] at hz
    rw [unit?_retain] at hz
    split at hz
    next => exact hz
    next => cases hz

theorem becomes_enactAll (h : s.Consistent) (deeds : List Deed) :
    s.Becomes (s.enactAll deeds) := by
  induction deeds generalizing s with
  | nil => exact .refl s
  | cons deed deeds ih =>
    exact (becomes_enact h.noManifests deed).trans (ih (h.enact deed))

/-! ## Shared cells -/

/-- The cell behind an export is the one that the unit writes and that its namespace shows. -/
structure Offers (unit : ModuleUnit) (name : String) (cell : CellId) : Prop where
  exported : unit.export? name = some cell
  shown : ∃ ns, unit.namespace? = .ok ns ∧ ns.cell? name = some cell
  script : ∀ u, unit = .script u → ∃ here, ∀ cells v,
    (⟨u.locals, u.imports⟩ : Script.Bindings).assign cells here v = .ok (cells.write cell v)
  bridge : ∀ b, unit = .bridge b → exportCell b name = .ok cell

/-- An imported name reads the cell that the unit behind the specifier offers. -/
def Shares (s : Store) (x : UnitId) (w : Want) : Prop :=
  ∃ u exporter cell, s.unit? x = some (.script u) ∧ s.source? x w.specifier = some exporter ∧
    Offers exporter w.imported cell ∧ ∀ cells : Cells,
      (⟨u.locals, u.imports⟩ : Script.Bindings).lookup cells w.here = .ok (cells.read cell)

theorem offers_of_export {name : String} {cell : CellId} (hmade : unit.WellMade)
    (h : unit.export? name = some cell) : Offers unit name cell where
  exported := h
  shown := by
    refine ⟨.ofScope unit.exports, ?_, (Scope.cell?_ofScope hmade.exported name).trans h⟩
    cases unit with
    | script u => rfl
    | bridge b => rfl
    | manifest m => exact hmade.elim
  script u hu := by
    subst hu
    obtain ⟨here, hhere⟩ := ScriptUnit.Named.own hmade _ (Scope.mem_of_cell? h)
    refine ⟨here, fun cells v => ?_⟩
    unfold Script.Bindings.assign
    rw [hhere]
  bridge b hb := by
    subst hb
    unfold exportCell
    rw [show b.exports.cell? name = some cell from h]

theorem Consistent.shares (h : s.Consistent) (hu : s.unit? x = some (.script u))
    (hbound : u.status.isBound = true) (hw : w ∈ s.wants x)
    (hsource : (s.source? x w.specifier).isSome = true) : s.Shares x w := by
  obtain ⟨exporter, hexporter⟩ := Option.isSome_iff_exists.mp hsource
  obtain ⟨cell, hcell, hlookup⟩ := (h.bound x u hu hbound).2.lookup hu (h.made x _ hu) hw hexporter
  have hmade : exporter.WellMade := by
    rw [source?_of_script hu] at hexporter
    obtain ⟨y, -, hy⟩ := Option.bind_eq_some_iff.mp hexporter
    exact h.made y exporter hy
  exact ⟨u, exporter, cell, hu, hexporter, offers_of_export hmade hcell, hlookup⟩

/-- A shared cell stays shared as long as both units are there. -/
theorem Shares.later (h : s.Shares x w) (hentered : (s.status x).isEntered = true)
    (hbecomes : s.Becomes t) (ht : t.Consistent) (hx : (t.unit? x).isSome = true)
    (hsource : (t.source? x w.specifier).isSome = true) : t.Shares x w := by
  obtain ⟨u, exporter, cell, hu, hexporter, hoffers, hlookup⟩ := h
  obtain ⟨unit', hunit'⟩ := Option.isSome_iff_exists.mp hx
  obtain ⟨exporter', hexporter'⟩ := Option.isSome_iff_exists.mp hsource
  rw [source?_of_script hu] at hexporter
  obtain ⟨y, hy, hyunit⟩ := Option.bind_eq_some_iff.mp hexporter
  have hlt : ∀ {z} {unit : ModuleUnit}, s.unit? z = some unit → z.index < s.units.size :=
    fun hz => Phase.lt_size_of_isSome (by rw [hz]; rfl)
  obtain ⟨unit, hunit, hself⟩ := hbecomes.units x unit' (hlt hu) hunit'
  cases hu.symm.trans hunit
  cases hself with
  | @script _ u' hprogram hlocals hexports hdependencies himports =>
    rw [status_of_unit? hu] at hentered
    rw [source?_of_script hunit', hdependencies _ y hy] at hexporter'
    obtain ⟨old, hold, hother⟩ := hbecomes.units y exporter' (hlt hyunit) hexporter'
    cases hyunit.symm.trans hold
    refine ⟨u', exporter', cell, hunit', ?_, offers_of_export (ht.made y _ hexporter') ?_, ?_⟩
    · rw [source?_of_script hunit', hdependencies _ y hy]
      exact hexporter'
    · unfold ModuleUnit.export?
      rw [hother.exports]
      exact hoffers.exported
    · rw [hlocals, (himports hentered).2]
      exact hlookup

end Store

end ModuleLoader
