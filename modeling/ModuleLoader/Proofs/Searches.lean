import Mathlib.Data.Set.Card
import ModuleLoader.Proofs.Phases
/-!
# Searches

The search of a phase by its rules. It needs one level for each unit that is to be entered, so calls
from outside are never cut short, and it enters each unit at most once.

Results:
1. `Phase.Runs`: the search by its rules, with the units that took a turn in the order they did.
2. `Runs.forth`, `Runs.once`: what a search keeps, and that no unit takes its turn twice.
3. `Runs.preserve`: what every single change keeps holds after a search.
4. `runs_within`: the search follows the rules when it is given a level for each unit to be entered.
5. `within_eq`: any further levels make no difference.
6. `instantiate_runs`, `evaluate_runs`: so it does when it is called from outside.
-/
namespace ModuleLoader

namespace Phase

variable {p : Phase} {s s' s₁ s₂ t : Store} {x y : UnitId} {targets rest : List (Except LoadError UnitId)}
  {log inner outer : List UnitId} {r : Except LoadError Unit} {e : LoadError} {unit : ModuleUnit}
  {depth : Nat}

/-! ## The rules of the search -/

/-- What is said at a place where no unit is to be entered. -/
def answer? (p : Phase) (s : Store) (x : UnitId) : Option (Except LoadError Unit) :=
  match s.unit? x with
  | none => some (.ok ())
  | some unit => p.answer unit

/-- The search over some targets, with the units that took their turn, in the order in which they
did. -/
inductive Runs (p : Phase) :
    Store → List (Except LoadError UnitId) → List UnitId → Store → Except LoadError Unit → Prop
  | done {s : Store} : p.Runs s [] [] s (.ok ())
  | broken {s : Store} {e : LoadError} {rest : List (Except LoadError UnitId)} :
      p.Runs s (.error e :: rest) [] s (.error e)
  | pass {s s' : Store} {x : UnitId} {rest : List (Except LoadError UnitId)} {log : List UnitId}
      {r : Except LoadError Unit} :
      p.answer? s x = some (.ok ()) → p.Runs s rest log s' r → p.Runs s (.ok x :: rest) log s' r
  | refuse {s : Store} {x : UnitId} {e : LoadError} {rest : List (Except LoadError UnitId)} :
      p.answer? s x = some (.error e) → p.Runs s (.ok x :: rest) [] s (.error e)
  | enter {s s₁ s₂ s' : Store} {x : UnitId} {unit : ModuleUnit}
      {rest : List (Except LoadError UnitId)} {inner outer : List UnitId}
      {r : Except LoadError Unit} :
      s.unit? x = some unit → p.answer unit = none →
      p.Runs (s.setStatus x p.during) (s.targets unit) inner s₁ (.ok ()) →
      settle x (p.act s₁ x unit) = (s₂, .ok ()) → p.Runs s₂ rest outer s' r →
      p.Runs s (.ok x :: rest) (inner ++ x :: outer) s' r
  | fail {s s₁ s₂ : Store} {x : UnitId} {unit : ModuleUnit}
      {rest : List (Except LoadError UnitId)} {inner : List UnitId} {e : LoadError} :
      s.unit? x = some unit → p.answer unit = none →
      p.Runs (s.setStatus x p.during) (s.targets unit) inner s₁ (.ok ()) →
      settle x (p.act s₁ x unit) = (s₂, .error e) →
      p.Runs s (.ok x :: rest) (inner ++ [x]) s₂ (.error e)
  | abort {s s₁ : Store} {x : UnitId} {unit : ModuleUnit}
      {rest : List (Except LoadError UnitId)} {inner : List UnitId} {e : LoadError} :
      s.unit? x = some unit → p.answer unit = none →
      p.Runs (s.setStatus x p.during) (s.targets unit) inner s₁ (.error e) →
      p.Runs s (.ok x :: rest) inner (s₁.setStatus x (.errored e)) (.error e)

namespace Runs

/-- One target after another that went well. -/
theorem append {target : Except LoadError UnitId} (h : p.Runs s [target] inner s₁ (.ok ()))
    (h' : p.Runs s₁ rest outer s' r) : p.Runs s (target :: rest) (inner ++ outer) s' r := by
  cases h with
  | pass hanswer hrest => cases hrest; exact .pass hanswer h'
  | enter hunit hanswer hinner hturn hrest =>
    cases hrest
    rw [List.append_assoc]
    exact .enter hunit hanswer hinner hturn h'

/-- Nothing comes after a failure. -/
theorem stop {target : Except LoadError UnitId} (h : p.Runs s [target] log s' (.error e)) :
    p.Runs s (target :: rest) log s' (.error e) := by
  cases h with
  | broken => exact .broken
  | pass _ hrest => cases hrest
  | refuse hanswer => exact .refuse hanswer
  | enter _ _ _ _ hrest => cases hrest
  | fail hunit hanswer hinner hturn => exact .fail hunit hanswer hinner hturn
  | abort hunit hanswer hinner => exact .abort hunit hanswer hinner

end Runs

/-! ### What the search keeps -/

/-- A store in which the same units stand, and no other is to be entered. -/
structure Forth (p : Phase) (s s' : Store) : Prop where
  frames : s.SameFrames s'
  /-- What is still to be entered is as it was. -/
  still : ∀ x unit, s'.unit? x = some unit → p.answer unit = none → s.unit? x = some unit

theorem Forth.refl (p : Phase) (s : Store) : p.Forth s s := ⟨.refl s, fun _ _ h _ => h⟩

theorem Forth.trans (h : p.Forth s s') (h' : p.Forth s' t) : p.Forth s t :=
  ⟨h.frames.trans h'.frames,
    fun x unit hunit hanswer => h.still x unit (h'.still x unit hunit hanswer) hanswer⟩

theorem Forth.opens (h : p.Forth s s') (x : UnitId) (hx : p.Opens s' x) : p.Opens s x := by
  obtain ⟨unit, hunit, hanswer⟩ := hx
  exact ⟨unit, h.still x unit hunit hanswer, hanswer⟩

theorem Forth.shape (h : p.Forth s s') : s.SameShape s' := h.frames.shape

theorem unit?_setStatus (s : Store) (id : UnitId) (status : Status) (x : UnitId) :
    (s.setStatus id status).unit? x =
      if id = x then (s.unit? x).map (ModuleUnit.withStatus status) else s.unit? x :=
  Store.unit?_change s id _ x

/-- A unit that gets a status that it answers by is not to be entered any more. -/
theorem forth_setStatus {status : Status} (s : Store) (x : UnitId)
    (h : ∀ unit : ModuleUnit, p.answer (unit.withStatus status) ≠ none) :
    p.Forth s (s.setStatus x status) := by
  refine ⟨Store.sameFrames_setStatus s x status, fun y unit hunit hanswer => ?_⟩
  rw [unit?_setStatus] at hunit
  split at hunit
  next =>
    obtain ⟨old, -, rfl⟩ := Option.map_eq_some_iff.mp hunit
    exact absurd hanswer (h old)
  next => exact hunit

theorem settle_cases {result : Store × Except LoadError Status} (h : settle x result = (s', r)) :
    (∃ status, result.2 = .ok status ∧ s' = result.1.setStatus x status ∧ r = .ok ()) ∨
      ∃ e, result.2 = .error e ∧ s' = result.1.setStatus x (.errored e) ∧ r = .error e := by
  obtain ⟨s, outcome⟩ := result
  cases outcome with
  | ok status => cases h; exact .inl ⟨status, rfl, rfl, rfl⟩
  | error e => cases h; exact .inr ⟨e, rfl, rfl, rfl⟩

namespace Lawful

variable (hp : p.Lawful)

include hp

theorem forth_begin (s : Store) (x : UnitId) : p.Forth s (s.setStatus x p.during) :=
  forth_setStatus s x fun unit h => by rw [hp.during] at h; cases h

theorem forth_errored (s : Store) (x : UnitId) (e : LoadError) :
    p.Forth s (s.setStatus x (.errored e)) :=
  forth_setStatus s x fun unit => hp.errored unit e

theorem forth_turn (h : settle x (p.act s x unit) = (s', r)) : p.Forth s s' := by
  have hframes := frames_settle x (p.act s x unit)
  rw [h] at hframes
  refine ⟨(hp.frames s x unit).trans hframes, fun y unit' hunit' hanswer => ?_⟩
  have hshut : ∀ status, (∀ unit : ModuleUnit, p.answer (unit.withStatus status) ≠ none) →
      s' = (p.act s x unit).1.setStatus x status → s.unit? y = some unit' := by
    rintro status hstatus rfl
    rw [unit?_setStatus] at hunit'
    split at hunit'
    next =>
      obtain ⟨old, -, rfl⟩ := Option.map_eq_some_iff.mp hunit'
      exact absurd hanswer (hstatus old)
    next hne =>
      rw [hp.others s x unit y hne] at hunit'
      exact hunit'
  rcases settle_cases h with ⟨status, hact, hs', -⟩ | ⟨e, -, hs', -⟩
  · refine hshut status (fun other hnone => ?_) hs'
    rw [hp.settled s x unit _ status (Prod.ext rfl hact)] at hnone
    cases hnone
  · exact hshut _ (fun other => hp.errored other e) hs'

end Lawful

theorem Runs.forth (hp : p.Lawful) (h : p.Runs s targets log s' r) : p.Forth s s' := by
  induction h with
  | done => exact .refl p _
  | broken => exact .refl p _
  | pass _ _ ih => exact ih
  | refuse => exact .refl p _
  | enter _ _ _ hturn _ ihinner ihouter =>
    exact (hp.forth_begin _ _).trans (ihinner.trans ((hp.forth_turn hturn).trans ihouter))
  | fail _ _ _ hturn ihinner =>
    exact (hp.forth_begin _ _).trans (ihinner.trans (hp.forth_turn hturn))
  | abort _ _ _ ihinner =>
    exact (hp.forth_begin _ _).trans (ihinner.trans (hp.forth_errored _ _ _))

theorem Lawful.shut_begin (hp : p.Lawful) : ¬ p.Opens (s.setStatus x p.during) x := by
  rintro ⟨unit, hunit, hanswer⟩
  rw [unit?_setStatus, if_pos rfl] at hunit
  obtain ⟨old, -, rfl⟩ := Option.map_eq_some_iff.mp hunit
  rw [hp.during] at hanswer
  cases hanswer

theorem Lawful.unit?_turn (hp : p.Lawful) (h : settle x (p.act s x unit) = (s', r)) (hne : x ≠ y) :
    s'.unit? y = s.unit? y := by
  rcases settle_cases h with ⟨status, -, rfl, -⟩ | ⟨e, -, rfl, -⟩
  · rw [unit?_setStatus, if_neg hne, hp.others s x unit y hne]
  · rw [unit?_setStatus, if_neg hne, hp.others s x unit y hne]

/-- A unit that was not to be entered is left as it is. -/
theorem Runs.kept (hp : p.Lawful) (h : p.Runs s targets log s' r) (hy : ¬ p.Opens s y) :
    s'.unit? y = s.unit? y := by
  induction h with
  | done => rfl
  | broken => rfl
  | pass _ _ ih => exact ih hy
  | refuse => rfl
  | @enter s s₁ s₂ s' x unit rest inner outer r hunit hanswer hinner hturn houter ihinner ihouter =>
    have hne : x ≠ y := fun heq => hy (heq ▸ ⟨unit, hunit, hanswer⟩)
    have hbegin := fun hopen => hy ((hp.forth_begin s x).opens y hopen)
    have hmid := fun hopen => hbegin ((hinner.forth hp).opens y hopen)
    rw [ihouter fun hopen => hmid ((hp.forth_turn hturn).opens y hopen), hp.unit?_turn hturn hne,
      ihinner hbegin, unit?_setStatus, if_neg hne]
  | @fail s s₁ s₂ x unit rest inner e hunit hanswer hinner hturn ih =>
    have hne : x ≠ y := fun heq => hy (heq ▸ ⟨unit, hunit, hanswer⟩)
    rw [hp.unit?_turn hturn hne, ih fun hopen => hy ((hp.forth_begin s x).opens y hopen),
      unit?_setStatus, if_neg hne]
  | @abort s s₁ x unit rest inner e hunit hanswer hinner ih =>
    have hne : x ≠ y := fun heq => hy (heq ▸ ⟨unit, hunit, hanswer⟩)
    rw [unit?_setStatus, if_neg hne, ih fun hopen => hy ((hp.forth_begin s x).opens y hopen),
      unit?_setStatus, if_neg hne]

/-- What is kept by beginning with a unit, by its turn and by giving it up holds after a search. -/
theorem Runs.preserve (hp : p.Lawful) {P : Store → Prop}
    (hbegin : ∀ s x unit, P s → s.unit? x = some unit → p.answer unit = none →
      P (s.setStatus x p.during))
    (hturn : ∀ s x (unit : ModuleUnit) s' r, P s → s.unit? x = some (unit.withStatus p.during) →
      p.answer unit = none → settle x (p.act s x unit) = (s', r) → P s')
    (herror : ∀ s x (unit : ModuleUnit) e, P s → s.unit? x = some (unit.withStatus p.during) →
      P (s.setStatus x (.errored e)))
    (h : p.Runs s targets log s' r) (hs : P s) : P s' := by
  have hback : ∀ {s s₁ : Store} {x unit targets log r}, s.unit? x = some unit →
      p.Runs (s.setStatus x p.during) targets log s₁ r →
      s₁.unit? x = some (unit.withStatus p.during) := by
    intro s s₁ x unit targets log r hunit hinner
    rw [hinner.kept hp hp.shut_begin, unit?_setStatus, if_pos rfl, hunit]
    rfl
  induction h with
  | done => exact hs
  | broken => exact hs
  | pass _ _ ih => exact ih hs
  | refuse => exact hs
  | enter hunit hanswer hinner hset _ ihinner ihouter =>
    exact ihouter (hturn _ _ _ _ _ (ihinner (hbegin _ _ _ hs hunit hanswer)) (hback hunit hinner)
      hanswer hset)
  | fail hunit hanswer hinner hset ih =>
    exact hturn _ _ _ _ _ (ih (hbegin _ _ _ hs hunit hanswer)) (hback hunit hinner) hanswer hset
  | abort hunit hanswer hinner ih =>
    exact herror _ _ _ _ (ih (hbegin _ _ _ hs hunit hanswer)) (hback hunit hinner)

/-- A search makes no units. -/
theorem Runs.size (hp : p.Lawful) (h : p.Runs s targets log s' r) :
    s'.units.size = s.units.size := by
  refine h.preserve hp (P := fun t => t.units.size = s.units.size) ?_ ?_ ?_ rfl
  · intro t x unit ht _ _
    rw [Store.size_setStatus, ht]
  · intro t x unit t' r ht _ _ hturn
    rcases settle_cases hturn with ⟨status, -, rfl, -⟩ | ⟨e, -, rfl, -⟩
    · rw [Store.size_setStatus, hp.size, ht]
    · rw [Store.size_setStatus, hp.size, ht]
  · intro t x unit e ht _
    rw [Store.size_setStatus, ht]

theorem Lawful.shut_turn (hp : p.Lawful) (h : settle x (p.act s x unit) = (s', r)) :
    ¬ p.Opens s' x := by
  rintro ⟨unit', hunit', hanswer⟩
  rcases settle_cases h with ⟨status, hact, rfl, -⟩ | ⟨e, -, rfl, -⟩
  · rw [unit?_setStatus, if_pos rfl] at hunit'
    obtain ⟨old, -, rfl⟩ := Option.map_eq_some_iff.mp hunit'
    rw [hp.settled s x unit _ status (Prod.ext rfl hact)] at hanswer
    cases hanswer
  · rw [unit?_setStatus, if_pos rfl] at hunit'
    obtain ⟨old, -, rfl⟩ := Option.map_eq_some_iff.mp hunit'
    exact hp.errored old e hanswer

/-- A unit takes its turn once: before it is to be entered, and after it is not any more. -/
structure Once (p : Phase) (s s' : Store) (log : List UnitId) : Prop where
  nodup : log.Nodup
  before : ∀ x ∈ log, p.Opens s x
  after : ∀ x ∈ log, ¬ p.Opens s' x

theorem Once.append (h : p.Once s s₁ log) (h' : p.Once s₁ s' outer) (hforth : p.Forth s s₁)
    (hlater : p.Forth s₁ s') : p.Once s s' (log ++ outer) where
  nodup := List.nodup_append.mpr
    ⟨h.nodup, h'.nodup, fun x hx y hy heq => h.after x hx (heq ▸ h'.before y hy)⟩
  before x hx := (List.mem_append.mp hx).elim (h.before x) fun hx => hforth.opens x (h'.before x hx)
  after x hx := (List.mem_append.mp hx).elim (fun hx hopen => h.after x hx (hlater.opens x hopen))
    (h'.after x)

/-- The turn of a unit comes after those of the units that it leads to. -/
theorem Once.turn (hp : p.Lawful) (h : p.Once (s.setStatus x p.during) s₁ log)
    (hopen : p.Opens s x) (hturn : settle x (p.act s₁ x unit) = (s', r)) :
    p.Once s s' (log ++ [x]) where
  nodup := by
    refine List.nodup_append.mpr ⟨h.nodup, List.nodup_singleton x, fun y hy z hz heq => ?_⟩
    cases List.mem_singleton.mp hz
    exact hp.shut_begin (heq ▸ h.before y hy)
  before y hy := by
    rcases List.mem_append.mp hy with hy | hy
    · exact (hp.forth_begin s x).opens y (h.before y hy)
    · exact List.mem_singleton.mp hy ▸ hopen
  after y hy := by
    rcases List.mem_append.mp hy with hy | hy
    · exact fun hopen => h.after y hy ((hp.forth_turn hturn).opens y hopen)
    · exact List.mem_singleton.mp hy ▸ hp.shut_turn hturn

theorem Runs.once (hp : p.Lawful) (h : p.Runs s targets log s' r) : p.Once s s' log := by
  induction h with
  | done => exact ⟨List.nodup_nil, by simp, by simp⟩
  | broken => exact ⟨List.nodup_nil, by simp, by simp⟩
  | pass _ _ ih => exact ih
  | refuse => exact ⟨List.nodup_nil, by simp, by simp⟩
  | @enter s s₁ s₂ s' x unit rest inner outer r hunit hanswer hinner hturn houter ihinner ihouter =>
    have hforth := (hp.forth_begin s x).trans ((hinner.forth hp).trans (hp.forth_turn hturn))
    rw [List.append_cons]
    exact (ihinner.turn hp ⟨unit, hunit, hanswer⟩ hturn).append ihouter hforth (houter.forth hp)
  | fail hunit hanswer _ hturn ih => exact ih.turn hp ⟨_, hunit, hanswer⟩ hturn
  | @abort s s₁ x unit rest inner e hunit hanswer hinner ih =>
    have hbegin := hp.forth_begin s x
    have hend := hp.forth_errored s₁ x e
    exact ⟨ih.nodup, fun y hy => hbegin.opens y (ih.before y hy),
      fun y hy hopen => ih.after y hy (hend.opens y hopen)⟩

/-! ### Depth -/

/-- There is a level for each unit that is to be entered, and one more. -/
structure Ready (p : Phase) (depth : Nat) (s : Store) : Prop where
  finite : {x | p.Opens s x}.Finite
  depth : {x | p.Opens s x}.ncard < depth

theorem Ready.forth (hs : p.Ready depth s) (h : p.Forth s s') : p.Ready depth s' where
  finite := hs.finite.subset h.opens
  depth := Nat.lt_of_le_of_lt (Set.ncard_le_ncard h.opens hs.finite) hs.depth

/-- A unit that is entered takes one level. -/
theorem Ready.enter (hp : p.Lawful) (hs : p.Ready (depth + 1) s) (hunit : s.unit? x = some unit)
    (hanswer : p.answer unit = none) : p.Ready depth (s.setStatus x p.during) := by
  have hforth := hp.forth_begin s x
  refine ⟨hs.finite.subset hforth.opens, Nat.lt_of_lt_of_le ?_ (Nat.le_of_lt_succ hs.depth)⟩
  refine Set.ncard_lt_ncard ⟨hforth.opens, fun hback => ?_⟩ hs.finite
  obtain ⟨other, hother, hnone⟩ := hback (show p.Opens s x from ⟨unit, hunit, hanswer⟩)
  rw [unit?_setStatus, if_pos rfl, hunit] at hother
  cases hother
  rw [hp.during] at hnone
  cases hnone

theorem lt_size_of_isSome (hx : (s.unit? x).isSome = true) : x.index < s.units.size := by
  by_contra hout
  have hnone : s.unit? x = none := by
    unfold Store.unit?
    rw [Array.getElem?_eq_none (Nat.le_of_not_lt hout)]
    rfl
  rw [hnone] at hx
  cases hx

/-- The units of a store are among the first ones, as many as there are places. -/
theorem subset_units (s : Store) :
    {x | (s.unit? x).isSome = true} ⊆ ((Finset.range s.units.size).image UnitId.mk : Set UnitId) := by
  intro x hx
  exact Finset.mem_image_of_mem UnitId.mk (Finset.mem_range.mpr (lt_size_of_isSome hx))

theorem finite_units (s : Store) : {x | (s.unit? x).isSome = true}.Finite :=
  (Finset.finite_toSet _).subset (subset_units s)

theorem ready_size (p : Phase) (s : Store) (h : s.units.size < depth) : p.Ready depth s := by
  have hsub : {x | p.Opens s x} ⊆ ((Finset.range s.units.size).image UnitId.mk : Set UnitId) := by
    rintro x ⟨unit, hunit, -⟩
    exact subset_units s (show (s.unit? x).isSome = true by rw [hunit]; rfl)
  have hfinite := Finset.finite_toSet ((Finset.range s.units.size).image UnitId.mk)
  refine ⟨hfinite.subset hsub, Nat.lt_of_le_of_lt (Set.ncard_le_ncard hsub hfinite) ?_⟩
  rw [Set.ncard_coe_finset]
  have hcard := Finset.card_image_le (s := Finset.range s.units.size) (f := UnitId.mk)
  rw [Finset.card_range] at hcard
  exact Nat.lt_of_le_of_lt hcard h

theorem runs_forEach (hp : p.Lawful) {enter : Store → UnitId → Store × Except LoadError Unit}
    (h : ∀ s y, p.Ready depth s →
      ∃ log, p.Runs s [.ok y] log (enter s y).1 (enter s y).2)
    (unit : ModuleUnit) (specifiers : List String) (hs : p.Ready depth s) :
    ∃ log, p.Runs s (specifiers.map (s.behind unit)) log
      (s.forEach (follow enter unit) specifiers).1 (s.forEach (follow enter unit) specifiers).2 := by
  induction specifiers generalizing s with
  | nil => exact ⟨[], .done⟩
  | cons specifier rest ih =>
    unfold Store.forEach
    rw [List.map_cons]
    cases hbehind : s.behind unit specifier with
    | error e =>
      rw [follow_error hbehind]
      exact ⟨[], .broken⟩
    | ok y =>
      rw [follow_ok hbehind]
      obtain ⟨first, hfirst⟩ := h s y hs
      cases henter : enter s y with
      | mk s' r =>
        rw [henter] at hfirst
        cases r with
        | error e => exact ⟨first, hfirst.stop⟩
        | ok _ =>
          have hforth := hfirst.forth hp
          obtain ⟨later, hlater⟩ := ih (hs.forth hforth)
          rw [hforth.shape.behind] at hlater
          exact ⟨_, hfirst.append hlater⟩

/-- The search follows the rules when it is given depth enough. -/
theorem runs_within (hp : p.Lawful) (hs : p.Ready depth s) :
    ∃ log, p.Runs s [.ok x] log (p.within depth s x).1 (p.within depth s x).2 := by
  induction depth generalizing s x with
  | zero => exact absurd hs.depth (Nat.not_lt_zero _)
  | succ depth ih =>
    cases hunit : s.unit? x with
    | none =>
      unfold within
      rw [hunit]
      exact ⟨[], .pass (by unfold answer?; rw [hunit]) .done⟩
    | some unit =>
      have hanswer? : p.answer? s x = p.answer unit := by unfold answer?; rw [hunit]
      cases hanswer : p.answer unit with
      | some r =>
        rw [within_answered depth hunit hanswer]
        cases r with
        | ok _ => exact ⟨[], .pass (hanswer?.trans hanswer) .done⟩
        | error e => exact ⟨[], .refuse (hanswer?.trans hanswer)⟩
      | none =>
        rw [within_entered depth hunit hanswer]
        obtain ⟨inner, hinner⟩ := runs_forEach hp (fun s y hs => ih hs) unit unit.specifiers
          (hs.enter hp hunit hanswer)
        rw [(Store.sameShape_setStatus s x p.during).behind] at hinner
        generalize Store.forEach _ _ _ = searched at hinner
        obtain ⟨s₁, r⟩ := searched
        cases r with
        | error e => exact ⟨inner, .abort hunit hanswer hinner⟩
        | ok _ =>
          show ∃ log, p.Runs s _ log (settle x (p.act s₁ x unit)).1 (settle x (p.act s₁ x unit)).2
          cases hturn : settle x (p.act s₁ x unit) with
          | mk s₂ r =>
            cases r with
            | error e => exact ⟨_, .fail hunit hanswer hinner hturn⟩
            | ok _ => exact ⟨_, .enter hunit hanswer hinner hturn .done⟩

/-- Further levels make no difference. -/
theorem within_succ (hp : p.Lawful) (hs : p.Ready depth s) :
    p.within depth s x = p.within (depth + 1) s x := by
  induction depth generalizing s x with
  | zero => exact absurd hs.depth (Nat.not_lt_zero _)
  | succ depth ih =>
    cases hunit : s.unit? x with
    | none =>
      unfold within
      rw [hunit]
    | some unit =>
      cases hanswer : p.answer unit with
      | some r => rw [within_answered _ hunit hanswer, within_answered _ hunit hanswer]
      | none =>
        rw [within_entered _ hunit hanswer, within_entered _ hunit hanswer]
        congr 1
        refine Store.forEach_congr (P := p.Ready depth) _ (fun s specifier hs => ?_)
          (hs.enter hp hunit hanswer)
        cases hbehind : s.behind unit specifier with
        | error e =>
          rw [follow_error hbehind, follow_error hbehind]
          exact ⟨rfl, hs⟩
        | ok y =>
          rw [follow_ok hbehind, follow_ok hbehind, ← ih hs]
          obtain ⟨log, hruns⟩ := runs_within (x := y) hp hs
          exact ⟨rfl, hs.forth (hruns.forth hp)⟩

theorem within_eq (hp : p.Lawful) {more : Nat} (hs : p.Ready depth s) (h : depth ≤ more) :
    p.within more s x = p.within depth s x := by
  induction more, h using Nat.le_induction with
  | base => rfl
  | succ more hle ih =>
    rw [← ih]
    exact (within_succ hp ⟨hs.finite, Nat.lt_of_lt_of_le hs.depth hle⟩).symm

end Phase

/-! ## Calls from outside -/

namespace Store

variable {s s' t : Store} {x y id : UnitId}

theorem instantiate_eq (hs : s.NoManifests) (x : UnitId) :
    s.instantiate x = instantiation.within (s.units.size + 1) s x := instantiateWithin_eq hs _ x

theorem instantiate_runs (hs : s.NoManifests) (x : UnitId) :
    ∃ log, instantiation.Runs s [.ok x] log (s.instantiate x).1 (s.instantiate x).2 := by
  rw [instantiate_eq hs]
  exact Phase.runs_within instantiation_lawful (Phase.ready_size _ s (Nat.lt_succ_self _))

/-- An instantiation is not cut short: further levels make no difference. -/
theorem instantiateWithin_of_size (hs : s.NoManifests) (x : UnitId) {depth : Nat}
    (h : s.units.size < depth) : s.instantiateWithin depth x = s.instantiate x := by
  rw [instantiate_eq hs, instantiateWithin_eq hs]
  exact Phase.within_eq instantiation_lawful (Phase.ready_size _ s (Nat.lt_succ_self _)) h

theorem evaluate_runs (hs : s.NoManifests) (x : UnitId) :
    ∃ log, evaluation.Runs s [.ok x] log (s.evaluate x).1 ((s.evaluate x).2.map fun _ => ()) := by
  have heq : forget (s.evaluate x) = _ := evaluateWithin_eq hs (s.units.size + 1) x
  obtain ⟨log, hruns⟩ :=
    Phase.runs_within (x := x) evaluation_lawful (Phase.ready_size _ s (Nat.lt_succ_self _))
  rw [← heq] at hruns
  exact ⟨log, hruns⟩

theorem status_setStatus (status : Status) (hs : s.NoManifests)
    (hid : (s.unit? id).isSome = true) : (s.setStatus id status).status id = status := by
  obtain ⟨unit, hunit⟩ := Option.isSome_iff_exists.mp hid
  unfold Store.status
  rw [Phase.unit?_setStatus, if_pos rfl, hunit]
  cases unit with
  | script u => rfl
  | bridge b => rfl
  | manifest m => exact absurd hunit (hs id m)

/-- A unit that was settled has the status that keeps its outcome. -/
theorem status_settleEvaluation {result : Store × Except LoadError (Option Value)} (hs : s.Plain)
    (hid : (s.unit? id).isSome = true) (hshape : s.SameShape (settleEvaluation id result).1) :
    (settleEvaluation id result).1.status id = completionStatus result.2 := by
  obtain ⟨s', r⟩ := result
  rw [settleEvaluation_eq] at hshape ⊢
  have hsame := hshape.trans (sameShape_setStatus s' id (completionStatus r)).symm
  refine status_setStatus _ (hsame.noManifests hs.noManifests) ?_
  rw [hsame.isSome]
  exact hid

theorem replay_completionStatus (url : Url) (r : Except LoadError (Option Value)) :
    replay url (completionStatus r) = r := by
  cases r <;> rfl

/-- What a unit answers after it was evaluated is what it goes on to answer. -/
theorem evaluateWithin_replay {unit : ModuleUnit} (hs : s.Plain) (depth : Nat)
    (hunit : s.unit? x = some unit) : (s.evaluateWithin (depth + 1) x).2 =
      replay unit.url ((s.evaluateWithin (depth + 1) x).1.status x) := by
  have hshape : s.SameShape (s.evaluateWithin (depth + 1) x).1 :=
    (ran_evaluateWithin (depth + 1) hs).shape
  have hid : (s.unit? x).isSome = true := by rw [hunit]; rfl
  have hstatus := status_of_unit? hunit
  -- either the unit is settled, or nothing is done and its status answers
  have hsettled : ∀ {result}, s.evaluateWithin (depth + 1) x = settleEvaluation x result →
      (s.evaluateWithin (depth + 1) x).2 =
        replay unit.url ((s.evaluateWithin (depth + 1) x).1.status x) := by
    intro result heq
    rw [heq] at hshape ⊢
    rw [status_settleEvaluation hs hid hshape, replay_completionStatus]
    obtain ⟨s', r⟩ := result
    rw [settleEvaluation_eq]
  unfold evaluateWithin at hsettled ⊢
  rw [hunit] at hsettled ⊢
  cases unit with
  | manifest m => exact (hs x _ hunit).elim
  | bridge b =>
    dsimp only at hsettled ⊢
    split
    next h => rw [h] at hsettled; exact hsettled rfl
    next => rw [hstatus]; rfl
  | script u =>
    dsimp only at hsettled ⊢
    split
    next h => rw [h] at hsettled; exact hsettled rfl
    next => rw [hstatus]; rfl

/-- An evaluation is not cut short: further levels make no difference. -/
theorem evaluateWithin_of_size (hs : s.Plain) (x : UnitId) {depth : Nat}
    (h : s.units.size < depth) : s.evaluateWithin depth x = s.evaluate x := by
  have hstore : forget (s.evaluateWithin depth x) = forget (s.evaluate x) := by
    unfold evaluate
    rw [evaluateWithin_eq hs.noManifests, evaluateWithin_eq hs.noManifests]
    exact Phase.within_eq evaluation_lawful (Phase.ready_size _ s (Nat.lt_succ_self _)) h
  have hsame : (s.evaluateWithin depth x).1 = (s.evaluate x).1 := (Prod.mk.inj hstore).1
  obtain ⟨depth, rfl⟩ := Nat.exists_eq_succ_of_ne_zero (Nat.ne_zero_of_lt h)
  cases hunit : s.unit? x with
  | none =>
    unfold evaluate evaluateWithin
    rw [hunit]
  | some unit =>
    refine Prod.ext hsame ?_
    unfold evaluate
    rw [evaluateWithin_replay hs _ hunit, evaluateWithin_replay hs _ hunit]
    exact congrArg (fun s => replay unit.url (s.status x)) hsame

end Store

end ModuleLoader
