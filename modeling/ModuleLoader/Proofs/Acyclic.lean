import Mathlib.Logic.Relation
import ModuleLoader.Proofs.Turns
/-!
# Searches without cycles

Where no unit depends on itself, a search never comes back to a unit that waits. So a unit takes its
turn when all that it depends on is done with, and it gives up only because one of them has failed.

Results:
1. `Trees`: a part of a store without cycles that the search does not leave.
2. `Done`: units that the search has passed and that do not wait.
3. `Runs.induction_acyclic`: what is kept by turns of units whose dependencies are done, and by giving
   up for one that has failed, holds after a search.
-/
namespace ModuleLoader.Phase

open Relation (TransGen)

variable {p : Phase} {region : UnitId → Prop} {s s' s₁ t : Store} {x y z : UnitId}
  {unit : ModuleUnit} {targets : List (Except LoadError UnitId)} {log : List UnitId}
  {r : Except LoadError Unit} {e : LoadError}

/-- Units that lead to each other only, and to none over a cycle. -/
structure Trees (p : Phase) (region : UnitId → Prop) (s : Store) : Prop where
  manifests : s.NoManifests
  there : ∀ x, region x → (s.unit? x).isSome = true
  leads : ∀ x unit, region x → s.unit? x = some unit → p.answer unit = none →
    s.targets unit = (s.children x).map .ok ∧ ∀ y ∈ s.children x, region y
  acyclic : ∀ x, region x → ¬ TransGen s.DependsOn x x

/-- The search has passed a unit, and it is not one that waits. -/
def Done (p : Phase) (s : Store) (x : UnitId) : Prop :=
  ∃ unit, s.unit? x = some unit ∧ p.answer unit = some (.ok ()) ∧ unit.status ≠ p.during

theorem Trees.forth (h : p.Trees region s) (hforth : p.Forth s s') : p.Trees region s' where
  manifests := hforth.shape.noManifests h.manifests
  there x hx := (hforth.shape.isSome x).trans (h.there x hx)
  leads x unit hx hunit hanswer := by
    rw [hforth.shape.targets, hforth.shape.children]
    exact h.leads x unit hx (hforth.still x unit hunit hanswer) hanswer
  acyclic x hx := by
    rw [hforth.shape.dependsOn_eq]
    exact h.acyclic x hx

theorem Done.of_unit? (h : p.Done s x) (hsame : s'.unit? x = s.unit? x) : p.Done s' x := by
  obtain ⟨unit, hunit, hdone⟩ := h
  exact ⟨unit, hsame.trans hunit, hdone⟩

theorem Done.shut (h : p.Done s x) : ¬ p.Opens s x := by
  rintro ⟨unit, hunit, hanswer⟩
  obtain ⟨other, hother, hpass, -⟩ := h
  cases hunit.symm.trans hother
  cases hanswer.symm.trans hpass

/-- The units that wait for some targets depend on them. -/
def Waits (p : Phase) (s : Store) (targets : List (Except LoadError UnitId)) : Prop :=
  ∀ z, s.status z = p.during → ∀ y, .ok y ∈ targets → TransGen s.DependsOn z y

/-- What a search over targets of the region comes to. -/
structure Settles (p : Phase) (P : Store → Prop) (s : Store)
    (targets : List (Except LoadError UnitId)) (s' : Store) (r : Except LoadError Unit) : Prop where
  kept : P s'
  waiting : ∀ z, s'.status z = p.during ↔ s.status z = p.during
  done : r = .ok () → ∀ y, .ok y ∈ targets → p.Done s' y
  failed : ∀ e, r = .error e → ∃ y, .ok y ∈ targets ∧ p.Refuses s' y e

theorem status_setStatus_of_there (hs : s.NoManifests) (hx : (s.unit? x).isSome = true)
    (status : Status) (z : UnitId) :
    (s.setStatus x status).status z = if x = z then status else s.status z := by
  split
  next hxz => exact hxz ▸ Store.status_setStatus status hs hx
  next hne => exact Store.status_setStatus_of_ne s status hne

/-- What a unit leads to is searched with that unit waiting. -/
theorem Trees.enter (hp : p.Lawful) (htrees : p.Trees region s) (hx : region x)
    (hunit : s.unit? x = some unit) (hanswer : p.answer unit = none)
    (hwaits : ∀ z, s.status z = p.during → TransGen s.DependsOn z x) :
    p.Trees region (s.setStatus x p.during) ∧
      (∀ target ∈ s.targets unit, ∃ y, target = .ok y ∧ region y ∧ s.DependsOn x y) ∧
      p.Waits (s.setStatus x p.during) (s.targets unit) := by
  obtain ⟨htargets, hregion⟩ := htrees.leads x unit hx hunit hanswer
  have hshape := Store.sameShape_setStatus s x p.during
  have hleads : ∀ target ∈ s.targets unit, ∃ y, target = .ok y ∧ region y ∧ s.DependsOn x y := by
    intro target htarget
    rw [htargets] at htarget
    obtain ⟨y, hy, rfl⟩ := List.mem_map.mp htarget
    exact ⟨y, rfl, hregion y hy, Store.mem_children.mp hy⟩
  refine ⟨htrees.forth (hp.forth_begin s x), hleads, fun z hz y hy => ?_⟩
  obtain ⟨_, heq, -, hd⟩ := hleads _ hy
  cases heq
  rw [hshape.dependsOn_eq]
  rw [status_setStatus_of_there htrees.manifests (htrees.there x hx)] at hz
  split at hz
  next hxz => exact hxz ▸ .single hd
  next => exact (hwaits z hz).tail hd

/-- A unit that is settled does not wait any more, and all others are as they were. -/
theorem waiting_settled (hmanifests : t.NoManifests) (hx : (t.unit? x).isSome = true)
    {status : Status} (hstatus : status ≠ p.during) (hbefore : s.status x ≠ p.during)
    (hothers : ∀ z, x ≠ z → (t.status z = p.during ↔ s.status z = p.during)) (z : UnitId) :
    (t.setStatus x status).status z = p.during ↔ s.status z = p.during := by
  rw [status_setStatus_of_there hmanifests hx]
  split
  next hxz =>
    subst hxz
    exact iff_of_false hstatus hbefore
  next hne => exact hothers z hne

/-- A unit after the search over what it leads to. -/
structure Entered (p : Phase) (region : UnitId → Prop) (s : Store) (x : UnitId) (unit : ModuleUnit)
    (s₁ : Store) (r : Except LoadError Unit) : Prop where
  trees : p.Trees region s₁
  self : s₁.unit? x = some (unit.withStatus p.during)
  before : s.status x ≠ p.during
  waiting : ∀ z, x ≠ z → (s₁.status z = p.during ↔ s.status z = p.during)
  done : r = .ok () → ∀ y, s₁.DependsOn x y → p.Done s₁ y
  failed : ∀ e, r = .error e → ∃ y, region y ∧ s₁.DependsOn x y ∧ p.Refuses s₁ y e

theorem Settles.entered (hp : p.Lawful) {P : Store → Prop} (htrees : p.Trees region s)
    (hx : region x) (hunit : s.unit? x = some unit) (hanswer : p.answer unit = none)
    (hwaits : ∀ z, s.status z = p.during → TransGen s.DependsOn z x)
    (hruns : p.Runs (s.setStatus x p.during) (s.targets unit) log s₁ r)
    (h : p.Settles P (s.setStatus x p.during) (s.targets unit) s₁ r) :
    p.Entered region s x unit s₁ r := by
  obtain ⟨hbegun, hleads, -⟩ := htrees.enter hp hx hunit hanswer hwaits
  have hforth := (hp.forth_begin s x).trans (hruns.forth hp)
  refine ⟨htrees.forth hforth, ?_, fun hwaiting => htrees.acyclic x hx (hwaits x hwaiting),
    fun z hne => ?_, fun hr y hd => ?_, fun e he => ?_⟩
  · rw [hruns.kept hp hp.shut_begin, unit?_setStatus, if_pos rfl, hunit]
    rfl
  · rw [h.waiting, Store.status_setStatus_of_ne s p.during hne]
  · rw [hforth.shape.dependsOn] at hd
    refine h.done hr y ?_
    rw [(htrees.leads x unit hx hunit hanswer).1]
    exact List.mem_map_of_mem (Store.mem_children.mpr hd)
  · obtain ⟨y, hy, hrefuses⟩ := h.failed e he
    obtain ⟨_, heq, hregion, hd⟩ := hleads _ hy
    cases heq
    exact ⟨y, hregion, hforth.shape.dependsOn.mpr hd, hrefuses⟩

namespace Entered

variable (h : p.Entered region s x unit s₁ r)

include h

theorem there : (s₁.unit? x).isSome = true := by
  rw [h.self]
  rfl

/-- The unit after a turn, as far as it has not been settled. -/
theorem unit?_act (hp : p.Lawful) :
    ∃ old, (p.act s₁ x unit).1.unit? x = some old ∧ old.frame = unit.frame := by
  have hframe := hp.frames s₁ x unit x
  rw [h.self] at hframe
  obtain ⟨old, hold, heq⟩ := Option.map_eq_some_iff.mp hframe
  exact ⟨old, hold, heq.trans (by cases unit <;> rfl)⟩

/-- The unit gives up. -/
theorem waiting_abort (hp : p.Lawful) (e : LoadError) (z : UnitId) :
    (s₁.setStatus x (.errored e)).status z = p.during ↔ s.status z = p.during :=
  waiting_settled h.trees.manifests h.there (hp.calm e).symm h.before h.waiting z

theorem refuses_abort (hp : p.Lawful) (hanswer : p.answer unit = none)
    (hspecifiers : unit.specifiers ≠ []) (e : LoadError) :
    p.Refuses (s₁.setStatus x (.errored e)) x e := by
  refine ⟨_, ?_, hp.tells s₁ x unit (unit.withStatus p.during) e hanswer (by cases unit <;> rfl)
    (.inr hspecifiers)⟩
  rw [unit?_setStatus, if_pos rfl, h.self]
  rfl

/-- The unit takes its turn. -/
theorem waiting_turn (hp : p.Lawful) {r' : Except LoadError Unit}
    (hset : settle x (p.act s₁ x unit) = (s', r')) (z : UnitId) :
    s'.status z = p.during ↔ s.status z = p.during := by
  have hshape := hp.shape s₁ x unit
  have hmanifests := hshape.noManifests h.trees.manifests
  have hthere := (hshape.isSome x).trans h.there
  have hothers : ∀ z, x ≠ z → ((p.act s₁ x unit).1.status z = p.during ↔ s.status z = p.during) := by
    intro z hne
    rw [Store.status_of_unit?_eq (hp.others s₁ x unit z hne)]
    exact h.waiting z hne
  rcases settle_cases hset with ⟨status, hact, rfl, -⟩ | ⟨e, -, rfl, -⟩
  · exact waiting_settled hmanifests hthere (hp.fine s₁ x unit status hact).1 h.before hothers z
  · exact waiting_settled hmanifests hthere (hp.calm e).symm h.before hothers z

theorem done_turn (hp : p.Lawful) (hset : settle x (p.act s₁ x unit) = (s', .ok ())) :
    p.Done s' x := by
  rcases settle_cases hset with ⟨status, hact, rfl, -⟩ | ⟨e, -, -, he⟩
  · obtain ⟨old, hold, -⟩ := h.unit?_act hp
    refine ⟨old.withStatus status, ?_, hp.settled s₁ x unit _ status (Prod.ext rfl hact) old, ?_⟩
    · rw [unit?_setStatus, if_pos rfl, hold]
      rfl
    · have hfine := (hp.fine s₁ x unit status hact).1
      cases old with
      | script u => exact hfine
      | bridge b => exact hfine
      | manifest m => exact absurd hold ((hp.shape s₁ x unit).noManifests h.trees.manifests x m)
  · cases he

theorem refuses_turn (hp : p.Lawful) (hanswer : p.answer unit = none)
    (hset : settle x (p.act s₁ x unit) = (s', .error e)) : p.Refuses s' x e := by
  rcases settle_cases hset with ⟨status, -, -, he⟩ | ⟨e', hact, rfl, he⟩
  · cases he
  · cases he
    obtain ⟨old, hold, hframe⟩ := h.unit?_act hp
    refine ⟨old.withStatus (.errored e), ?_, hp.tells s₁ x unit old e hanswer hframe (.inl hact)⟩
    rw [unit?_setStatus, if_pos rfl, hold]
    rfl

end Entered

/-! ## The whole search -/

/-- A unit of the region that is passed is done, since it does not wait for itself. -/
theorem Trees.done_of_pass (h : p.Trees region s) (hx : region x)
    (hanswer : p.answer? s x = some (.ok ()))
    (hwaits : ∀ z, s.status z = p.during → TransGen s.DependsOn z x) : p.Done s x := by
  obtain ⟨unit, hunit⟩ := Option.isSome_iff_exists.mp (h.there x hx)
  refine ⟨unit, hunit, ?_, fun hwaiting => ?_⟩
  · unfold answer? at hanswer
    rw [hunit] at hanswer
    exact hanswer
  · rw [← Store.status_of_unit? hunit] at hwaiting
    exact h.acyclic x hx (hwaits x hwaiting)

/-- The first target is done with, and the search goes on over the others. -/
theorem Settles.behind (hp : p.Lawful) {P : Store → Prop} {rest : List (Except LoadError UnitId)}
    (h : p.Settles P t rest s' r) (hruns : p.Runs t rest log s' r) (hdone : p.Done t x)
    (hwaiting : ∀ z, t.status z = p.during ↔ s.status z = p.during) :
    p.Settles P s (.ok x :: rest) s' r := by
  refine ⟨h.kept, fun z => (h.waiting z).trans (hwaiting z), fun hr y hy => ?_, fun e he => ?_⟩
  · rcases List.mem_cons.mp hy with heq | hy
    · cases heq
      exact hdone.of_unit? (hruns.kept hp hdone.shut)
    · exact h.done hr y hy
  · obtain ⟨y, hy, hrefuses⟩ := h.failed e he
    exact ⟨y, List.mem_cons_of_mem _ hy, hrefuses⟩

/-- The search ends with the first target. -/
theorem Settles.stopped {P : Store → Prop} {rest : List (Except LoadError UnitId)} (hkept : P s')
    (hwaiting : ∀ z, s'.status z = p.during ↔ s.status z = p.during) (hrefuses : p.Refuses s' x e) :
    p.Settles P s (.ok x :: rest) s' (.error e) where
  kept := hkept
  waiting := hwaiting
  done hr := by cases hr
  failed e' he' := by
    cases he'
    exact ⟨x, List.mem_cons_self, hrefuses⟩

/-- A unit takes its turn when all that it depends on is done, and gives up for one that has failed. -/
theorem Runs.induction_acyclic (hp : p.Lawful) {P : Store → Prop}
    (hbegin : ∀ s x unit, P s → region x → s.unit? x = some unit → p.answer unit = none →
      P (s.setStatus x p.during))
    (hturn : ∀ s x (unit : ModuleUnit) s' r, P s → region x →
      s.unit? x = some (unit.withStatus p.during) → p.answer unit = none →
      (∀ y, s.DependsOn x y → p.Done s y) → settle x (p.act s x unit) = (s', r) → P s')
    (hgiveUp : ∀ s x (unit : ModuleUnit) e, P s → region x →
      s.unit? x = some (unit.withStatus p.during) → p.answer unit = none →
      (∃ y, region y ∧ s.DependsOn x y ∧ p.Refuses s y e) → P (s.setStatus x (.errored e)))
    (h : p.Runs s targets log s' r) (hs : P s) (htrees : p.Trees region s)
    (htargets : ∀ target ∈ targets, ∃ y, target = .ok y ∧ region y) (hwaits : p.Waits s targets) :
    p.Settles P s targets s' r := by
  -- all that a unit leads to is searched under the same conditions, with the unit waiting
  have hentered : ∀ {s s₁ x unit log r}, P s → p.Trees region s → region x →
      s.unit? x = some unit → p.answer unit = none →
      (∀ z, s.status z = p.during → TransGen s.DependsOn z x) →
      p.Runs (s.setStatus x p.during) (s.targets unit) log s₁ r →
      (P (s.setStatus x p.during) → p.Trees region (s.setStatus x p.during) →
        (∀ target ∈ s.targets unit, ∃ y, target = .ok y ∧ region y) →
        p.Waits (s.setStatus x p.during) (s.targets unit) →
        p.Settles P (s.setStatus x p.during) (s.targets unit) s₁ r) →
      P s₁ ∧ p.Entered region s x unit s₁ r := by
    intro s s₁ x unit log r hs htrees hx hunit hanswer hwaits hinner ih
    obtain ⟨hbegun, hleads, hwaits'⟩ := htrees.enter hp hx hunit hanswer hwaits
    have hsettles := ih (hbegin s x unit hs hx hunit hanswer) hbegun
      (fun target hin => (hleads target hin).imp fun _ h => ⟨h.1, h.2.1⟩) hwaits'
    exact ⟨hsettles.kept, hsettles.entered hp htrees hx hunit hanswer hwaits hinner⟩
  induction h with
  | done => exact ⟨hs, fun z => Iff.rfl, fun _ y hy => (by cases hy), fun e he => by cases he⟩
  | broken =>
    obtain ⟨y, heq, -⟩ := htargets _ List.mem_cons_self
    cases heq
  | @pass s s' x rest log r hanswer hrest ih =>
    obtain ⟨hx, hmore⟩ := region_cons htargets
    have hdone := htrees.done_of_pass hx hanswer fun z hz => hwaits z hz x List.mem_cons_self
    have hsettles := ih hs htrees hmore fun z hz y hy => hwaits z hz y (List.mem_cons_of_mem _ hy)
    exact hsettles.behind hp hrest hdone fun z => Iff.rfl
  | @refuse s x e rest hanswer =>
    refine .stopped hs (fun z => Iff.rfl) ?_
    unfold answer? at hanswer
    split at hanswer
    next => cases hanswer
    next unit hunit => exact ⟨unit, hunit, hanswer⟩
  | @enter s s₁ s₂ s' x unit rest inner outer r hunit hanswer hinner hset houter ihinner ihouter =>
    obtain ⟨hx, hrest⟩ := region_cons htargets
    obtain ⟨hP, hmid⟩ := hentered hs htrees hx hunit hanswer
      (fun z hz => hwaits z hz x List.mem_cons_self) hinner ihinner
    have hforth := (hp.forth_begin s x).trans ((hinner.forth hp).trans (hp.forth_turn hset))
    have hsettles := ihouter
      (hturn s₁ x unit s₂ _ hP hx hmid.self hanswer (hmid.done rfl) hset)
      (htrees.forth hforth) hrest fun z hz y hy => by
        rw [hforth.shape.dependsOn_eq]
        exact hwaits z ((hmid.waiting_turn hp hset z).mp hz) y (List.mem_cons_of_mem _ hy)
    exact hsettles.behind hp houter (hmid.done_turn hp hset) (hmid.waiting_turn hp hset)
  | @fail s s₁ s₂ x unit rest inner e hunit hanswer hinner hset ih =>
    obtain ⟨hx, -⟩ := region_cons htargets
    obtain ⟨hP, hmid⟩ := hentered hs htrees hx hunit hanswer
      (fun z hz => hwaits z hz x List.mem_cons_self) hinner ih
    exact .stopped (hturn s₁ x unit s₂ _ hP hx hmid.self hanswer (hmid.done rfl) hset)
      (hmid.waiting_turn hp hset) (hmid.refuses_turn hp hanswer hset)
  | @abort s s₁ x unit rest inner e hunit hanswer hinner ih =>
    obtain ⟨hx, -⟩ := region_cons htargets
    obtain ⟨hP, hmid⟩ := hentered hs htrees hx hunit hanswer
      (fun z hz => hwaits z hz x List.mem_cons_self) hinner ih
    have hspecifiers : unit.specifiers ≠ [] := by
      intro hnone
      unfold Store.targets at hinner
      rw [hnone] at hinner
      cases hinner
    exact .stopped (hgiveUp s₁ x unit e hP hx hmid.self hanswer (hmid.failed e rfl))
      (hmid.waiting_abort hp e) (hmid.refuses_abort hp hanswer hspecifiers e)

end ModuleLoader.Phase
