import ModuleLoader.Proofs.Turns
/-!
# The order of evaluation

Units that are linked once and instantiated are evaluated in depth-first order, each one at most
once over all calls. A failure is kept by the units on the way down to the one that failed, and every
outcome is told again to whoever asks later.

Results:
1. `Evaluable`, `evaluable_evaluate`: what holds between calls.
2. `InOrder`, `inOrder_evaluate`: what one call does.
3. `Evaluations.once`: no body runs twice over several calls.
4. `evaluation_order`: all of it, for any call after any others.
-/
namespace ModuleLoader.Store

open Relation (ReflTransGen)

variable {s s' t s₀ : Store} {x y root : UnitId} {calls past log : List UnitId}
  {order : List (Visit UnitId)} {e : LoadError}

/-! ## Calls and bodies -/

/-- The store after some calls. -/
def evaluateAll (s : Store) (calls : List UnitId) : Store :=
  calls.foldl (fun s x => (s.evaluate x).1) s

/-- The bodies that some calls run, in the order in which they do. -/
inductive Evaluations : Store → List UnitId → List UnitId → Store → Prop
  | none {s : Store} : Evaluations s [] [] s
  | call {s s' : Store} {root : UnitId} {calls log past : List UnitId} :
      evaluation.Runs s [.ok root] log (s.evaluate root).1 ((s.evaluate root).2.map fun _ => ()) →
      Evaluations (s.evaluate root).1 calls past s' → Evaluations s (root :: calls) (log ++ past) s'

/-- All units are scripts and bridges, linked once and instantiated. -/
structure AllInstantiated (s : Store) : Prop where
  manifests : s.NoManifests
  complete : ∀ x, s.Complete x
  status : ∀ x unit, s.unit? x = some unit → unit.status = .instantiated

/-- What holds of such units between calls. -/
structure Evaluable (s : Store) : Prop where
  manifests : s.NoManifests
  complete : ∀ x, s.Complete x
  status : ∀ x unit, s.unit? x = some unit → unit.status = .instantiated ∨
    (∃ v, unit.status = .evaluated v) ∨ ∃ e, unit.status = .errored e
  /-- What an evaluated unit imports from was run as well. -/
  closed : ∀ x y v, s.status x = .evaluated v → s.DependsOn x y → s.status y ≠ .instantiated

theorem AllInstantiated.evaluable (h : s.AllInstantiated) : s.Evaluable where
  manifests := h.manifests
  complete := h.complete
  status x unit hunit := .inl (h.status x unit hunit)
  closed x y v hx := by
    obtain ⟨unit, hunit⟩ := exists_unit_of_status (x := x) (s := s) (by rw [hx]; simp)
    rw [status_of_unit? hunit, h.status x unit hunit] at hx
    cases hx

/-- The units that are evaluated. -/
def evaluated (s : Store) : Set UnitId := {x | ∃ v, s.status x = .evaluated v}

/-- What an evaluation goes on to from a unit, which is nothing if the unit answers by itself. -/
def ahead (s : Store) (x : UnitId) : List UnitId :=
  match s.status x with
  | .instantiated => s.children x
  | _ => []

theorem ahead_of_instantiated (h : s.status x = .instantiated) : s.ahead x = s.children x := by
  unfold ahead
  rw [h]

theorem mem_ahead (h : y ∈ s.ahead x) : s.status x = .instantiated ∧ s.DependsOn x y := by
  unfold ahead at h
  split at h
  next hstatus => exact ⟨hstatus, mem_children.mp h⟩
  next => cases h

/-! ### Answers by status -/

theorem answer_evaluation {unit : ModuleUnit} (hs : s.NoManifests) (hunit : s.unit? x = some unit) :
    evaluation.answer unit = match unit.status with
      | .instantiated => none
      | status => some ((replay unit.url status).map fun _ => ()) := by
  cases unit with
  | script u => rfl
  | bridge b => rfl
  | manifest m => exact absurd hunit (hs x m)

namespace Evaluable

theorem opens_iff (h : s.Evaluable) : evaluation.Opens s x ↔ s.status x = .instantiated := by
  constructor
  · rintro ⟨unit, hunit, hanswer⟩
    rw [answer_evaluation h.manifests hunit] at hanswer
    rw [status_of_unit? hunit]
    split at hanswer
    next hstatus => exact hstatus
    next => cases hanswer
  · intro hx
    obtain ⟨unit, hunit⟩ := exists_unit_of_status (x := x) (s := s) (by rw [hx]; simp)
    refine ⟨unit, hunit, ?_⟩
    rw [status_of_unit? hunit] at hx
    rw [answer_evaluation h.manifests hunit, hx]

theorem passes_iff (h : s.Evaluable) : evaluation.Passes s x ↔
    (s.unit? x).isSome = true ∧ ∃ v, s.status x = .evaluated v := by
  constructor
  · rintro ⟨unit, hunit, hanswer⟩
    refine ⟨by rw [hunit]; rfl, ?_⟩
    rw [answer_evaluation h.manifests hunit] at hanswer
    rw [status_of_unit? hunit]
    rcases h.status x unit hunit with hx | hx | ⟨e, hx⟩
    · rw [hx] at hanswer; cases hanswer
    · exact hx
    · rw [hx] at hanswer; cases hanswer
  · rintro ⟨hx, v, hstatus⟩
    obtain ⟨unit, hunit⟩ := Option.isSome_iff_exists.mp hx
    refine ⟨unit, hunit, ?_⟩
    rw [status_of_unit? hunit] at hstatus
    rw [answer_evaluation h.manifests hunit, hstatus]
    rfl

theorem errored_of_refuses (h : s.Evaluable) (hx : evaluation.Refuses s x e) :
    s.status x = .errored e := by
  obtain ⟨unit, hunit, hanswer⟩ := hx
  rw [answer_evaluation h.manifests hunit] at hanswer
  rw [status_of_unit? hunit]
  rcases h.status x unit hunit with hx | ⟨v, hx⟩ | ⟨e', hx⟩
  · rw [hx] at hanswer; cases hanswer
  · rw [hx] at hanswer; cases hanswer
  · rw [hx] at hanswer; cases hanswer; exact hx

theorem passes_eq (h : s.Evaluable) : {x | evaluation.Passes s x} = s.evaluated := by
  ext x
  refine h.passes_iff.trans ⟨fun hx => hx.2, fun hx => ⟨?_, hx⟩⟩
  obtain ⟨v, hv⟩ := hx
  obtain ⟨unit, hunit⟩ := exists_unit_of_status (x := x) (s := s) (by rw [hv]; simp)
  rw [hunit]
  rfl

/-- The search covers the whole store. -/
theorem covers (h : s.Evaluable) :
    evaluation.Covers s.ahead {x | (s.unit? x).isSome = true} s where
  there _ hx := hx
  closed x _ y hy := (h.complete x).isSome (mem_ahead hy).2
  leads x _ unit hunit hanswer := by
    rw [ahead_of_instantiated (h.opens_iff.mp ⟨unit, hunit, hanswer⟩)]
    exact targets_of_complete h.manifests (h.complete x) hunit
  ends x _ e he := by
    unfold ahead
    rw [h.errored_of_refuses he]

theorem plain (h : s.Evaluable) : s.Plain := by
  intro x unit hunit
  cases unit with
  | script u => trivial
  | manifest m => exact absurd hunit (h.manifests x m)
  | bridge b =>
    intro hb
    rcases h.status x _ hunit with hx | ⟨v, hx⟩ | ⟨e, hx⟩
    · exact absurd (hb.symm.trans hx) (by simp)
    · exact absurd (hb.symm.trans hx) (by simp)
    · exact absurd (hb.symm.trans hx) (by simp)

theorem exists_order (h : s.Evaluable) (hroot : (s.unit? root).isSome = true) :
    ∃ order, Search s.ahead s.evaluated [] [root] order :=
  exists_search (Phase.finite_units s) h.covers.closed fun _ hx => List.mem_singleton.mp hx ▸ hroot

end Evaluable

/-! ## One call -/

/-- What the evaluation of a unit does, when it ends in `s'` with the answer `r`. -/
structure InOrder (s : Store) (root : UnitId) (order : List (Visit UnitId)) (log : List UnitId)
    (s' : Store) (r : Except LoadError (Option Value)) : Prop where
  search : Search s.ahead s.evaluated [] [root] order
  runs : evaluation.Runs s [.ok root] log s' (r.map fun _ => ())
  /-- All take their turns in order, and all others are left as they were. -/
  succeeded : ∀ v, r = .ok v → log = nodes order ∧
    s.forEach evaluation.turn (nodes order) = (s', .ok ()) ∧ s'.status root = .evaluated v ∧
    (∀ x ∈ nodes order, x ∈ s'.evaluated) ∧ ∀ x, x ∉ nodes order → s'.unit? x = s.unit? x
  /-- The turns end with that of `v`, whose body fails now or had failed before. It keeps the error,
  and so do those over which it was entered, up to the root. -/
  failed : ∀ e, r = .error e → ∃ before v after t, order = before ++ v :: after ∧
    s.forEach evaluation.turn (nodes before ++ [v.node]) = (t, .error e) ∧
    s' = t.mark (.errored e) v.above ∧
    (s.status v.node = .instantiated ∧ log = nodes before ++ [v.node] ∨
      s.status v.node = .errored e ∧ log = nodes before) ∧
    (v.node :: v.above).getLast? = some root ∧
    (v.node :: v.above).IsChain (fun y x => s.DependsOn x y) ∧
    (∀ x ∈ nodes before, x ∈ s'.evaluated) ∧
    (∀ x ∈ v.node :: v.above, s'.status x = .errored e) ∧
    ∀ x, x ∉ nodes before → x ∉ v.node :: v.above → s'.unit? x = s.unit? x

namespace Evaluable

variable {r : Except LoadError (Option Value)} {v : Visit UnitId} {before after : List (Visit UnitId)}

/-- The units after an evaluation have an outcome or are as they were. -/
theorem status_of_ran (h : s.Evaluable) (hran : Ran s s') (x : UnitId) (unit : ModuleUnit)
    (hunit : s'.unit? x = some unit) : unit.status = .instantiated ∨
      (∃ v, unit.status = .evaluated v) ∨ ∃ e, unit.status = .errored e := by
  have hsome := hran.shape.isSome x
  rw [hunit] at hsome
  obtain ⟨old, hold⟩ := Option.isSome_iff_exists.mp hsome.symm
  rw [← status_of_unit? hunit]
  rcases hran.status x with hsame | ⟨-, hnew⟩
  · rw [hsame, status_of_unit? hold]
    exact h.status x old hold
  · exact .inr hnew

theorem evaluated_of_passes (h : s.Evaluable) (hran : Ran s s')
    (hx : evaluation.Passes s' x) : x ∈ s'.evaluated := by
  obtain ⟨unit, hunit, hanswer⟩ := hx
  rw [answer_evaluation (hran.shape.noManifests h.manifests) hunit] at hanswer
  change ∃ v, s'.status x = .evaluated v
  rw [status_of_unit? hunit]
  rcases h.status_of_ran hran x unit hunit with hx | hx | ⟨e, hx⟩
  · rw [hx] at hanswer; cases hanswer
  · exact hx
  · rw [hx] at hanswer; cases hanswer

/-- The root and those that it was entered over form a path. -/
theorem path_of_search (hsearch : Search s.ahead s.evaluated [] [root] order) (hv : v ∈ order) :
    (v.node :: v.above).getLast? = some root ∧
      (v.node :: v.above).IsChain (fun y x => s.DependsOn x y) := by
  obtain ⟨below, top, heq, htop, hchain⟩ := hsearch.way hv
  cases List.mem_singleton.mp htop
  rw [heq]
  exact ⟨by simp, hchain.imp fun a b hab => (mem_ahead hab).2⟩

theorem there (h : s.Evaluable) (hroot : (s.unit? root).isSome = true)
    (hsearch : Search s.ahead s.evaluated [] [root] order) :
    ∀ x ∈ nodes order, (s.unit? x).isSome = true := by
  intro x hx
  obtain ⟨a, ha, hpath⟩ := hsearch.reached hx
  cases List.mem_singleton.mp ha
  have hin : x ∈ {x | (s.unit? x).isSome = true} := mem_of_path h.covers.closed hroot hpath
  exact hin

/-- What a failed evaluation leaves. -/
theorem failed_of_turns (h : s.Evaluable) (hroot : (s.unit? root).isSome = true) (hran : Ran s s')
    (hsearch : Search s.ahead s.evaluated [] [root] (before ++ v :: after)) {t₁ t₂ : Store}
    (hturns : s.forEach evaluation.turn (nodes before) = (t₁, .ok ()))
    (hturn : evaluation.turn t₁ v.node = (t₂, .error e)) (hs' : s' = t₂.mark (.errored e) v.above) :
    (∀ x ∈ nodes before, x ∈ s'.evaluated) ∧
      (∀ x ∈ v.node :: v.above, s'.status x = .errored e) ∧
      ∀ x, x ∉ nodes before → x ∉ v.node :: v.above → s'.unit? x = s.unit? x := by
  have hthere := h.there hroot hsearch
  have hended := Phase.ended_of_turns evaluation_lawful hsearch hthere hturns hturn
  rw [← hs'] at hended
  have hmanifests := hran.shape.noManifests h.manifests
  have herrored : ∀ {x} {unit : ModuleUnit},
      s'.unit? x = some (unit.withStatus (.errored e)) → s'.status x = .errored e := by
    intro x unit hunit
    rw [status_of_unit? hunit]
    cases unit with
    | script u => rfl
    | bridge b => rfl
    | manifest m => exact absurd hunit (hmanifests x m)
  refine ⟨fun x hx => h.evaluated_of_passes hran (hended.passed x hx), fun x hx => ?_,
    fun x hx hout => ?_⟩
  · rcases List.mem_cons.mp hx with rfl | hx
    · rcases hended.failed with ⟨hrefuses, hsame⟩ | ⟨-, unit, hunit⟩
      · rw [status_of_unit?_eq hsame]
        exact h.errored_of_refuses hrefuses
      · exact herrored hunit
    · have hlater := (hsearch.above_later rfl hx).resolve_left List.not_mem_nil
      obtain ⟨old, hold⟩ := Option.isSome_iff_exists.mp (hthere x (by simp [hlater]))
      have hunit := hended.waited x hx
      rw [hold] at hunit
      exact herrored hunit
  · exact hended.kept x hx (fun heq => hout (heq ▸ List.mem_cons_self))
      fun hin => hout (List.mem_cons_of_mem _ hin)

theorem inOrder_evaluate (h : s.Evaluable) (hroot : (s.unit? root).isSome = true) :
    ∃ order log, s.InOrder root order log (s.evaluate root).1 (s.evaluate root).2 := by
  obtain ⟨order, hsearch⟩ := h.exists_order hroot
  obtain ⟨log, hruns⟩ := evaluate_runs h.manifests root
  have hran := ran_evaluate h.plain root
  obtain ⟨unit, hunit⟩ := Option.isSome_iff_exists.mp hroot
  have hreplay : (s.evaluate root).2 = replay unit.url ((s.evaluate root).1.status root) :=
    evaluateWithin_replay h.plain _ hunit
  have hfollows := hruns.follows evaluation_lawful h.covers hroot
    (fun y _ => by rw [← h.passes_eq]; rfl) hsearch
  generalize s.evaluate root = result at *
  obtain ⟨s', r⟩ := result
  refine ⟨order, log, hsearch, hruns, ?_, ?_⟩
  · rintro v rfl
    cases hfollows with
    | all hturns =>
      obtain ⟨hpass, hkept⟩ := Phase.forEach_turn evaluation_lawful (h.there hroot hsearch) hturns
      refine ⟨rfl, hturns, ?_, fun x hx => h.evaluated_of_passes hran (hpass x hx), hkept⟩
      obtain ⟨unit', hunit'⟩ := Option.isSome_iff_exists.mp ((hran.shape.isSome root).trans hroot)
      change s'.status root = _
      change Except.ok v = replay unit.url (s'.status root) at hreplay
      rw [status_of_unit? hunit'] at hreplay ⊢
      rcases h.status_of_ran hran root unit' hunit' with hx | ⟨v', hx⟩ | ⟨e, hx⟩
      · rw [hx] at hreplay; cases hreplay
      · rw [hx] at hreplay ⊢; cases hreplay; rfl
      · rw [hx] at hreplay; cases hreplay
  · rintro e rfl
    cases hfollows with
    | @upTo before after v below _ t₁ t₂ _ horder habove hturns hturn hlog =>
      subst horder
      rw [List.append_nil] at habove
      subst habove
      obtain ⟨hlast, hchain⟩ := path_of_search hsearch (v := v) (by simp)
      refine ⟨before, v, after, t₂, rfl, ?_, rfl, ?_, hlast, hchain,
        h.failed_of_turns hroot hran hsearch hturns hturn rfl⟩
      · rw [Phase.forEach_append hturns]
        unfold forEach
        rw [hturn]
      · rcases hlog with ⟨hopen, hlog⟩ | ⟨hrefuse, hlog⟩
        · exact .inl ⟨h.opens_iff.mp hopen, hlog⟩
        · exact .inr ⟨h.errored_of_refuses hrefuse, hlog⟩

/-- Every body that is run is that of an instantiated unit, and what such a unit imports from was
run, is run or fails with it. -/
theorem closed_evaluate (h : s.Evaluable) (horder : s.InOrder root order log s' r)
    (hran : Ran s s') {v : Option Value} (hx : s'.status x = .evaluated v) (hd : s.DependsOn x y) :
    s'.status y ≠ .instantiated := by
  have hkept : s.status y ≠ .instantiated → s'.status y ≠ .instantiated := by
    intro hy
    rcases hran.status y with hsame | ⟨hbefore, -⟩
    · rwa [hsame]
    · exact absurd hbefore hy
  have hrun : y ∈ s'.evaluated → s'.status y ≠ .instantiated := by
    rintro ⟨w, hw⟩
    rw [hw]
    simp
  have hseen : y ∈ s.evaluated → s.status y ≠ .instantiated := by
    rintro ⟨w, hw⟩
    rw [hw]
    simp
  have hopened : ∀ x ∈ log, y ∈ s.children x → y ∈ s.ahead x := by
    intro x hx hy
    rwa [ahead_of_instantiated (h.opens_iff.mp ((horder.runs.once evaluation_lawful).before x hx))]
  have hsame : s'.unit? x = s.unit? x → s'.status y ≠ .instantiated := by
    intro hsame
    rw [status_of_unit?_eq hsame] at hx
    exact hkept (h.closed x y v hx hd)
  cases r with
  | ok w =>
    obtain ⟨rfl, -, -, hdone, hothers⟩ := horder.succeeded w rfl
    by_cases hin : x ∈ nodes order
    · rcases horder.search.closed hin (hopened x hin (mem_children.mpr hd)) with hy | hy
      · exact hkept (hseen hy)
      · exact hrun (hdone y hy)
    · exact hsame (hothers x hin)
  | error e =>
    obtain ⟨before, v', after, t, rfl, -, -, hlog, -, -, hdone, hfailed, hothers⟩ :=
      horder.failed e rfl
    have hlogged : ∀ x ∈ nodes before, x ∈ log := by
      intro x hx
      rcases hlog with ⟨-, rfl⟩ | ⟨-, rfl⟩
      · exact List.mem_append_left _ hx
      · exact hx
    have hpath : y ∈ v'.node :: v'.above → s'.status y ≠ .instantiated := by
      intro hy
      rw [hfailed y hy]
      simp
    by_cases hin : x ∈ nodes before
    · have hnext := hopened x (hlogged x hin) (mem_children.mpr hd)
      rcases horder.search.closed_before rfl hin hnext with hy | hy | hy | hy
      · exact hkept (hseen hy)
      · exact hrun (hdone y hy)
      · exact hpath (hy ▸ List.mem_cons_self)
      · exact hpath (List.mem_cons_of_mem _ hy)
    · by_cases hout : x ∈ v'.node :: v'.above
      · rw [hfailed x hout] at hx
        cases hx
      · exact hsame (hothers x hin hout)

theorem evaluable_evaluate (h : s.Evaluable) (root : UnitId) : (s.evaluate root).1.Evaluable := by
  have hran := ran_evaluate h.plain root
  refine ⟨hran.shape.noManifests h.manifests, fun x => hran.shape.complete (h.complete x),
    h.status_of_ran hran, fun x y v hx hd => ?_⟩
  by_cases hroot : (s.unit? root).isSome = true
  · obtain ⟨order, log, horder⟩ := h.inOrder_evaluate hroot
    exact h.closed_evaluate horder hran hx (hran.shape.dependsOn.mp hd)
  · have hnone : s.unit? root = none := by simpa using hroot
    have hstay : s.evaluate root = (s, .ok none) := by
      unfold evaluate evaluateWithin
      rw [hnone]
    rw [hstay] at hx hd ⊢
    exact h.closed x y v hx hd

theorem evaluable_evaluateAll (h : s.Evaluable) (calls : List UnitId) :
    (s.evaluateAll calls).Evaluable := by
  induction calls generalizing s with
  | nil => exact h
  | cons root calls ih => exact ih (h.evaluable_evaluate root)

/-- If no unit that the root reaches had failed, a call that goes well runs all that were not. -/
theorem evaluated_of_reached (h : s.Evaluable) (horder : s.InOrder root order log s' r)
    (hs' : s'.Evaluable) (hran : Ran s s') {v : Option Value} (hr : r = .ok v)
    (hfine : ∀ x e, ReflTransGen s.DependsOn root x → s.status x ≠ .errored e)
    (hx : ReflTransGen s.DependsOn root x) : x ∈ s'.evaluated := by
  obtain ⟨-, -, hroot, hdone, hothers⟩ := horder.succeeded v hr
  induction hx with
  | refl => exact ⟨v, hroot⟩
  | @tail x y hpath hedge ih =>
    obtain ⟨w, hw⟩ := ih
    have hnew := hs'.closed x y w hw (hran.shape.dependsOn.mpr hedge)
    by_cases hin : y ∈ nodes order
    · exact hdone y hin
    · have hsame := hothers y hin
      have hthere := (h.complete x).isSome hedge
      obtain ⟨unit, hunit⟩ := Option.isSome_iff_exists.mp hthere
      rw [status_of_unit?_eq hsame] at hnew
      have hstatus := status_of_unit? hunit
      rcases h.status y unit hunit with hy | hy | ⟨e, hy⟩
      · exact absurd (hstatus.trans hy) hnew
      · obtain ⟨w', hw'⟩ := hy
        exact ⟨w', (status_of_unit?_eq hsame).trans (hstatus.trans hw')⟩
      · exact absurd (hstatus.trans hy) (hfine y e (hpath.tail hedge))

end Evaluable

/-! ## Several calls -/

theorem exists_evaluations (h : s.Evaluable) (calls : List UnitId) :
    ∃ past, Evaluations s calls past (s.evaluateAll calls) := by
  induction calls generalizing s with
  | nil => exact ⟨[], .none⟩
  | cons root calls ih =>
    obtain ⟨log, hruns⟩ := evaluate_runs h.manifests root
    obtain ⟨past, hpast⟩ := ih (h.evaluable_evaluate root)
    exact ⟨log ++ past, .call hruns hpast⟩

/-- A body that was run is not run again, by whatever call. -/
theorem Evaluations.once (h : Evaluations s calls past s') :
    evaluation.Once s s' past ∧ evaluation.Forth s s' := by
  induction h with
  | none => exact ⟨⟨List.nodup_nil, by simp, by simp⟩, .refl _ _⟩
  | call hruns _ ih =>
    have hforth := hruns.forth evaluation_lawful
    exact ⟨(hruns.once evaluation_lawful).append ih.1 hforth ih.2, hforth.trans ih.2⟩

/-- A unit with an outcome tells it, and nothing is done. -/
theorem evaluate_of_outcome {r : Except LoadError (Option Value)} (hs : s.NoManifests)
    (hx : s.status x = completionStatus r) : s.evaluate x = (s, r) := by
  obtain ⟨unit, hunit⟩ := exists_unit_of_status (x := x) (s := s) (by
    rw [hx]
    cases r <;> simp [completionStatus])
  have hstatus := (status_of_unit? hunit).symm.trans hx
  unfold evaluate evaluateWithin
  rw [hunit]
  cases unit with
  | script u =>
    change u.status = _ at hstatus
    cases r <;> simp only [hstatus, completionStatus] <;> rfl
  | bridge b =>
    change b.status = _ at hstatus
    cases r <;> simp only [hstatus, completionStatus] <;> rfl
  | manifest m => exact absurd hunit (hs x m)

theorem ran_evaluateAll (h : s.Evaluable) (calls : List UnitId) : Ran s (s.evaluateAll calls) := by
  induction calls generalizing s with
  | nil => exact .refl s
  | cons root calls ih => exact (ran_evaluate h.plain root).trans (ih (h.evaluable_evaluate root))

/-- An outcome stays what it is. -/
theorem Ran.outcome (h : Ran s s') (hx : s.status x ≠ .instantiated) : s'.status x = s.status x :=
  (h.status x).resolve_right fun hnew => hx hnew.1

/-- Instantiated units are evaluated in depth-first order, which is one order only, each at most once
over all calls, and keep what comes of it. -/
theorem evaluation_order (h : s₀.AllInstantiated) (calls : List UnitId)
    (hroot : (s₀.unit? root).isSome = true) :
    let s := s₀.evaluateAll calls
    let s' := (s.evaluate root).1
    let r := (s.evaluate root).2
    (∀ depth, s.units.size < depth → s.evaluateWithin depth root = s.evaluate root) ∧
    (∃ past order log, Evaluations s₀ calls past s ∧ s.InOrder root order log s' r ∧
      (past ++ log).Nodup ∧ ∀ other, Search s.ahead s.evaluated [] [root] other → other = order) ∧
    ((∃ v, r = .ok v) → (∀ x e, ReflTransGen s.DependsOn root x → s.status x ≠ .errored e) →
      ∀ x, ReflTransGen s.DependsOn root x → x ∈ s'.evaluated) ∧
    ∀ later x outcome, s'.status x = completionStatus outcome →
      (s'.evaluateAll later).evaluate x = (s'.evaluateAll later, outcome) := by
  intro s s' r
  have hs : s.Evaluable := h.evaluable.evaluable_evaluateAll calls
  have hs' : s'.Evaluable := hs.evaluable_evaluate root
  have hthere : (s.unit? root).isSome = true :=
    ((ran_evaluateAll h.evaluable calls).shape.isSome root).trans hroot
  obtain ⟨past, hpast⟩ := exists_evaluations h.evaluable calls
  obtain ⟨order, log, horder⟩ := hs.inOrder_evaluate hthere
  refine ⟨fun depth hdepth => evaluateWithin_of_size hs.plain root hdepth,
    ⟨past, order, log, hpast, horder, ?_, fun other hother => hother.unique horder.search⟩, ?_,
    fun later x outcome hx => ?_⟩
  · obtain ⟨honce, hforth⟩ := hpast.once
    exact (honce.append (horder.runs.once evaluation_lawful) hforth
      (horder.runs.forth evaluation_lawful)).nodup
  · rintro ⟨v, hv⟩ hfine x hx
    exact hs.evaluated_of_reached horder hs' (ran_evaluate hs.plain root) hv hfine hx
  · have hkept : (s'.evaluateAll later).status x = s'.status x :=
      (ran_evaluateAll hs' later).outcome (by rw [hx]; cases outcome <;> simp [completionStatus])
    exact evaluate_of_outcome (hs'.evaluable_evaluateAll later).manifests (hkept.trans hx)

/-! ### Two scripts that import each other -/

/-- An instantiated script without names of its own that imports another. -/
def nameless (specifier : String) (dependency : UnitId) (body : List Script.Statement) :
    ScriptUnit where
  url := { scheme := "file", path := .segments [specifier] }
  program := ⟨.importFrom ⟨specifier, [], ⟨0, 0, ⟨1, 1⟩⟩⟩ :: body⟩
  locals := []
  exports := []
  dependencies := [(specifier, dependency)]
  status := .instantiated

/-- The body of the second one uses a name that nobody declares. -/
def facing : Store where
  units := #[some (.script (nameless "./b" ⟨1⟩ [])),
    some (.script (nameless "./a" ⟨0⟩ [.expression (.identifier "x" ⟨0, 0, ⟨1, 1⟩⟩)]))]

theorem facing_cases {unit : ModuleUnit} (h : facing.unit? x = some unit) :
    ∃ specifier body dependency, unit = .script (nameless specifier dependency body) ∧
      (nameless specifier dependency body).program.specifiers = [specifier] ∧
      (facing.unit? dependency).isSome = true := by
  obtain ⟨_ | _ | i⟩ := x
  · cases h
    exact ⟨_, _, _, rfl, rfl, rfl⟩
  · cases h
    exact ⟨_, _, _, rfl, rfl, rfl⟩
  · simp [facing, unit?] at h

theorem facing_allInstantiated : facing.AllInstantiated where
  manifests x m hm := by
    obtain ⟨_, _, _, hunit, -⟩ := facing_cases hm
    cases hunit
  complete x u hu specifier hin := by
    obtain ⟨name, body, dependency, hunit, hspecifiers, hthere⟩ := facing_cases hu
    cases hunit
    rw [hspecifiers] at hin
    cases List.mem_singleton.mp hin
    exact ⟨dependency, by simp [nameless], hthere⟩
  status x unit hunit := by
    obtain ⟨_, _, _, rfl, -⟩ := facing_cases hunit
    rfl

/-- The second one fails over the first one, and then the first one does so over the second. -/
theorem evaluation_order_facing : facing.AllInstantiated ∧ (facing.unit? ⟨0⟩).isSome = true ∧
    ∃ past order log, Evaluations facing [⟨1⟩] past (facing.evaluateAll [⟨1⟩]) ∧
      (facing.evaluateAll [⟨1⟩]).InOrder ⟨0⟩ order log
        ((facing.evaluateAll [⟨1⟩]).evaluate ⟨0⟩).1 ((facing.evaluateAll [⟨1⟩]).evaluate ⟨0⟩).2 ∧
      (past ++ log).Nodup ∧ ∀ other, Search (facing.evaluateAll [⟨1⟩]).ahead
        (facing.evaluateAll [⟨1⟩]).evaluated [] [⟨0⟩] other → other = order :=
  ⟨facing_allInstantiated, rfl, (evaluation_order facing_allInstantiated [⟨1⟩] rfl).2.1⟩

end ModuleLoader.Store
