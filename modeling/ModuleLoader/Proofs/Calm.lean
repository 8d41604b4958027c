import ModuleLoader.Proofs.Following
import ModuleLoader.Proofs.LifeCycle
import ModuleLoader.Proofs.Links
import ModuleLoader.Proofs.Lives
/-!
# Units that are left alone

While modules are loaded, units are made, linked and wired, and all of that is done to units that
nobody has entered. A unit that was entered is changed by instantiations and evaluations only, and
these take it further along its life.

Results:
1. `Onward`: what all that a loader does to units has in common.
2. `Calm`: what making, linking and wiring units has in common; it leaves entered ones alone.
3. `Prepares.calm`: what a loader does to units before it instantiates them is of this kind.
-/
namespace ModuleLoader

namespace Store

variable {p : Project} {s s' t : Store} {x y id : UnitId} {unit : ModuleUnit} {u : ScriptUnit}

/-! ## Units that get further -/

/-- Units that were entered stay so, with what they depend on and the errors that they keep. -/
structure Onward (s s' : Store) : Prop where
  entered : ∀ x, (s.status x).isEntered = true → (s'.status x).isEntered = true
  depends : ∀ x y, (s.status x).isEntered = true → s'.DependsOn x y → s.DependsOn x y
  errored : ∀ x e, s.status x = .errored e → s'.status x = .errored e

theorem Onward.of_advances (h : s.Advances s') (hshape : s.SameShape s') : s.Onward s' where
  entered x hx := (h.forward x).isEntered hx
  depends x y _ := hshape.dependsOn.mp
  errored x e hx := by
    have hforward := h.forward x
    rw [hx] at hforward
    exact Status.Forward.of_outcome (r := .error e) hforward

theorem onward_instantiate (hs : s.NoManifests) (id : UnitId) : s.Onward (s.instantiate id).1 := by
  obtain ⟨log, hruns⟩ := instantiate_runs hs id
  exact .of_advances (advances_instantiate hs id) (hruns.forth instantiation_lawful).frames.shape

theorem onward_evaluate (hs : s.NoManifests) (id : UnitId) : s.Onward (s.evaluate id).1 := by
  obtain ⟨log, hruns⟩ := evaluate_runs hs id
  exact .of_advances (advances_evaluate hs id) (hruns.forth evaluation_lawful).frames.shape

/-! ## Units that are left alone -/

/-- Units that nobody has entered are as they were made. -/
def AllFresh (s : Store) (p : Project) : Prop :=
  ∀ x unit, s.unit? x = some unit → unit.status.isEntered = false → unit.Fresh p s.cells

/-- Units that nobody has entered are bound to nothing. -/
def Unbound (s : Store) : Prop :=
  ∀ x u, s.unit? x = some (.script u) → u.status.isEntered = false → u.imports = []

/-- A change that leaves entered units, all values and the functions of the host alone. -/
structure Calm (p : Project) (s s' : Store) : Prop where
  spares : ∀ x, s'.unit? x = s.unit? x ∨ (s.status x).isEntered = false ∧
    ∃ unit, s'.unit? x = some unit ∧ unit.status.isEntered = false ∧
      (s.AllFresh p → unit.Fresh p s'.cells)
  size : s.cells.values.size ≤ s'.cells.values.size
  cells : ∀ cell, cell.index < s.cells.values.size → s'.cells.read cell = s.cells.read cell
  functions : s'.cells.functions = s.cells.functions
  unbound : s.Unbound → s'.Unbound

theorem Calm.refl (p : Project) (s : Store) : s.Calm p s :=
  ⟨fun _ => .inl rfl, Nat.le_refl _, fun _ _ => rfl, rfl, id⟩

namespace Calm

variable (h : s.Calm p s')

include h

theorem unit? (hx : (s.status x).isEntered = true) : s'.unit? x = s.unit? x := by
  refine (h.spares x).resolve_right fun hopen => ?_
  rw [hopen.1] at hx
  cases hx

theorem unit?_of_after (hx : (s'.status x).isEntered = true) : s'.unit? x = s.unit? x := by
  refine (h.spares x).resolve_right fun hopen => ?_
  obtain ⟨-, unit, hunit, hfresh, -⟩ := hopen
  rw [status_of_unit? hunit, hfresh] at hx
  cases hx

theorem onward : s.Onward s' where
  entered x hx := by rw [status_of_unit?_eq (h.unit? hx)]; exact hx
  depends x y hx := (dependsOn_of_shape (shape?_of_unit? (h.unit? hx))).mp
  errored x e hx := by
    rw [status_of_unit?_eq (h.unit? (by rw [hx]; rfl))]
    exact hx

theorem bound (hx : (s'.status x).isBound = true) : (s.status x).isBound = true := by
  rw [status_of_unit?_eq (h.unit?_of_after (Status.isEntered_of_isBound hx))] at hx
  exact hx

/-- Cells of units keep their values. -/
theorem kept (howned : s.Owned) (hunit : s.unit? x = some unit) {cell : CellId}
    (hcell : cell ∈ unit.own.map Prod.snd) : s'.cells.read cell = s.cells.read cell := by
  obtain ⟨e, he, rfl⟩ := List.mem_map.mp hcell
  exact h.cells e.2 (howned.there x unit hunit e he)

theorem allFresh (howned : s.Owned) (hfresh : s.AllFresh p) : s'.AllFresh p := by
  intro x unit hunit hopen
  rcases h.spares x with hsame | ⟨-, other, hother, -, hnew⟩
  · rw [hsame] at hunit
    exact (hfresh x unit hunit hopen).of_cells fun _ hcell => h.kept howned hunit hcell
  · cases hunit.symm.trans hother
    exact hnew hfresh

/-- One calm change after the other. -/
theorem trans {s'' : Store} (h' : s'.Calm p s'') (howned : s.Owned) (howned' : s'.Owned) :
    s.Calm p s'' where
  spares x := by
    rcases h'.spares x with hsame | ⟨hopen', unit, hunit, hopen, hfresh⟩
    · rw [hsame]
      refine (h.spares x).imp id fun ⟨hbefore, unit, hunit, hopen, hfresh⟩ =>
        ⟨hbefore, unit, hunit, hopen, fun hall => ?_⟩
      exact (hfresh hall).of_cells fun _ hcell => h'.kept howned' hunit hcell
    · refine .inr ⟨?_, unit, hunit, hopen, fun hall => hfresh (h.allFresh howned hall)⟩
      by_contra hentered
      rw [status_of_unit?_eq (h.unit? (Bool.not_eq_false _ ▸ hentered))] at hopen'
      exact hentered hopen'
  size := Nat.le_trans h.size h'.size
  cells cell hcell := (h'.cells cell (Nat.lt_of_lt_of_le hcell h.size)).trans (h.cells cell hcell)
  functions := h'.functions.trans h.functions
  unbound hs := h'.unbound (h.unbound hs)

end Calm

/-- A unit is added that nobody has entered. -/
theorem calm_add {names : List String} (hentered : unit.status.isEntered = false)
    (hfresh : unit.Fresh p (Scope.fresh names s.cells).1)
    (hbare : ∀ u, unit = .script u → u.imports = []) :
    s.Calm p ({ s with cells := (Scope.fresh names s.cells).1 }.add unit).1 where
  spares x := by
    rw [unit?_add]
    split
    next hx =>
      have hnone : s.unit? x = none :=
        hx ▸ unit?_add_self { s with cells := (Scope.fresh names s.cells).1 } unit
      refine .inr ⟨?_, unit, rfl, hentered, fun _ => hfresh⟩
      unfold Store.status
      rw [hnone]
      rfl
    next => exact .inl rfl
  size := (Scope.size_fresh names s.cells).symm ▸ Nat.le_add_right _ _
  cells _ hcell := Scope.read_fresh names hcell
  functions := Scope.functions_fresh names s.cells
  unbound hs x u hu hopen := by
    obtain ⟨hnew, -⟩ | ⟨hold, -⟩ := unit?_add_cases hu
    · exact hbare u hnew.symm
    · exact hs x u hold hopen

/-- A script that nobody has entered is changed, and stays as it was made. -/
theorem calm_change {f : ModuleUnit → ModuleUnit} {u' : ScriptUnit}
    (hu : s.unit? id = some (.script u)) (hf : f (.script u) = .script u')
    (hopen : u.status.isEntered = false) (hentered : u'.status.isEntered = false)
    (hlocals : u'.locals = u.locals) (himports : u'.imports = u.imports) :
    s.Calm p (s.change id f) where
  spares x := by
    rw [unit?_change]
    split
    next hx =>
      subst hx
      rw [status_of_unit? hu, hu]
      refine .inr ⟨hopen, .script u', congrArg some hf, hentered, fun hfresh => ?_⟩
      show ∀ e ∈ u'.locals, _
      rw [hlocals]
      exact hfresh _ _ hu hopen
    next => exact .inl rfl
  size := Nat.le_refl _
  cells _ _ := rfl
  functions := rfl
  unbound hs x v hv hopen' := by
    rw [unit?_change] at hv
    split at hv
    next hx =>
      subst hx
      rw [hu, Option.map_some, hf] at hv
      cases hv
      rw [himports]
      exact hs _ _ hu hopen
    next => exact hs x v hv hopen'

end Store

namespace Machine

variable {p : Project} {G : Resolved → Prop} {Q : String × Option Url → Prop} {m m' : Machine}
  {action : Action}

/-- Where a loader prepares units, it leaves alone those that were entered. -/
theorem Prepares.calm {deed : Store.Deed} (h : m.Prepares deed) (hm : m.Regular)
    (hf : m.Follows p G Q) : m.host.store.Calm p (m.host.store.enact deed) := by
  cases h with
  | script url source =>
    dsimp only [Store.enact]
    split
    next cells u hu =>
      obtain ⟨program, names, -, -, rfl, rfl⟩ := compile_eq_ok hu
      exact Store.calm_add rfl (fun e he => (Scope.mem_fresh he).2.2) fun u hu => by cases hu; rfl
    next => exact .refl p _
  | @bridge url id library hid hlibrary =>
    obtain ⟨log, hlog⟩ := hf.queries
    rw [hlog.asked.configured] at hid
    rw [hf.registry, hf.store.tables] at hlibrary
    refine Store.calm_add rfl ⟨fun e he => (Scope.mem_fresh he).2.2, library, ?_, rfl⟩
      fun u hu => by cases hu
    simp [Project.library?, hid, hlibrary]
  | @link _ x _ =>
    dsimp only [Store.enact]
    split
    next u hu =>
      split
      next hunlinked =>
        unfold Store.beginLink
        rw [hu]
        have hopen : u.status.isEntered = false := by
          cases hstatus : u.status <;> rw [hstatus] at hunlinked <;> first | rfl | cases hunlinked
        exact Store.calm_change hu rfl hopen rfl rfl rfl
      next => exact .refl p _
    next => exact .refl p _
  | @wire _ _ x y specifier hx hy =>
    dsimp only [Store.enact]
    split
    next u hu =>
      split
      next hlacks =>
        have hopen : u.status.isEntered = false := by
          by_contra hentered
          -- a unit that was entered has all its dependencies
          obtain ⟨-, hin, hnone⟩ := Store.lacks_iff.mp (Bool.and_eq_true_iff.mp hlacks).1
          obtain ⟨jobs, hlinked⟩ := hm.linked_of_entered hx
            ((congrArg Status.isEntered (Store.status_of_unit? hu)).trans
              (Bool.not_eq_false _ ▸ hentered))
          obtain ⟨y, hlookup, -⟩ := hm.complete hlinked hx u hu specifier hin
          rw [hnone] at hlookup
          cases hlookup
        exact Store.calm_change hu rfl hopen hopen rfl rfl
      next => exact .refl p _
    next => exact .refl p _

theorem Treats.calm {s : Store} (h : m.Treats s) (hm : m.Regular) (hf : m.Follows p G Q) :
    m.host.store.Calm p s := by
  rcases h with rfl | ⟨deed, hdeed, rfl⟩
  · exact .refl p _
  · exact hdeed.calm hm hf

end Machine

end ModuleLoader
