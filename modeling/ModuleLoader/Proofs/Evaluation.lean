import ModuleLoader.Proofs.Instantiation
/-!
# Evaluating units

An evaluation runs units whose imports are bound and keeps their outcomes. It changes no other
status, and it comes across a unit that is not instantiated only if it was asked to run one: what a
unit with bound imports depends on is entered, and its error is told if it has one.

Results:
1. `Ran`, `ran_evaluateWithin`: an evaluation changes the status of bound units only.
2. `safe_evaluate`: evaluating a unit that is entered keeps a store safe.
3. `uninstantiated_evaluate_iff`: the error for a unit that is not instantiated comes exactly for a
   unit that is not entered.
-/
namespace ModuleLoader

/-- The errors that a body or an executor can end with. -/
def LoadError.isRaised : LoadError → Bool
  | .unknownExport .. | .evaluate _ (.script _) | .evaluate _ (.told _) => true
  | _ => false

theorem LoadError.not_uninstantiated_of_isRaised {e : LoadError} (h : e.isRaised = true) :
    e.isUninstantiated = false := by
  unfold LoadError.isRaised at h
  split at h
  next => rfl
  next => rfl
  next => rfl
  next => cases h

namespace Store

variable {s s' t : Store} {x y id : UnitId}

/-- What an evaluation does to the units of a store. -/
structure Ran (s s' : Store) : Prop where
  shape : s.SameShape s'
  status : ∀ x, s'.status x = s.status x ∨ s.status x = .instantiated ∧
    ((∃ v, s'.status x = .evaluated v) ∨ ∃ e, s'.status x = .errored e)

namespace Ran

theorem refl (s : Store) : Ran s s := ⟨.refl s, fun _ => .inl rfl⟩

/-- A change that no status shows. -/
theorem of_status (hshape : s.SameShape s') (h : ∀ x, s'.status x = s.status x) : Ran s s' :=
  ⟨hshape, fun x => .inl (h x)⟩

theorem trans (h : Ran s s') (h' : Ran s' t) : Ran s t := by
  refine ⟨h.shape.trans h'.shape, fun x => ?_⟩
  rcases h'.status x with hsame | ⟨hbefore, hafter⟩
  · rcases h.status x with hs | ⟨hs, hs'⟩
    · exact .inl (hsame.trans hs)
    · exact .inr ⟨hs, by rw [hsame]; exact hs'⟩
  · rcases h.status x with hs | ⟨-, ⟨v, hs⟩ | ⟨e, hs⟩⟩
    · exact .inr ⟨hs.symm.trans hbefore, hafter⟩
    · rw [hbefore] at hs; cases hs
    · rw [hbefore] at hs; cases hs

theorem entered (h : Ran s s') (hx : (s.status x).isEntered = true) :
    (s'.status x).isEntered = true := by
  rcases h.status x with hs | ⟨-, ⟨v, hs⟩ | ⟨e, hs⟩⟩
  · rw [hs]
    exact hx
  · rw [hs]
    rfl
  · rw [hs]
    rfl

theorem plain (h : Ran s s') (hp : s.Plain) : s'.Plain := by
  refine h.shape.plain hp fun x hx => ?_
  rcases h.status x with hs | ⟨-, ⟨v, hs⟩ | ⟨e, hs⟩⟩
  · exact hs.symm.trans hx
  · rw [hx] at hs; cases hs
  · rw [hx] at hs; cases hs

/-- A unit that is being evaluated stays so until it is done. -/
theorem evaluating (h : Ran s s') (hx : s.status x = .evaluating) : s'.status x = .evaluating := by
  rcases h.status x with hs | ⟨hs, -⟩
  · exact hs.trans hx
  · rw [hx] at hs; cases hs

end Ran

theorem Safe.of_status (hs : s.Safe) (hshape : s.SameShape t)
    (h : ∀ x, t.status x = s.status x) : t.Safe where
  plain := hshape.plain hs.plain fun x hx => (h x).symm.trans hx
  clean x e hx := hs.clean x e ((h x).symm.trans hx)
  closed x y hx hd := by
    rw [h] at hx ⊢
    exact hs.closed x y hx (hshape.dependsOn.mp hd)
  settled x hx := hs.settled x ((h x).symm.trans hx)

/-- A unit with bound imports gets further; all others are left as they are. -/
theorem Safe.change (hs : s.Safe) (id : UnitId) (hshape : s.SameShape t)
    (hid : (s.status id).isBound = true) (hself : (t.status id).isEntered = true)
    (hsettled : t.status id ≠ .instantiating)
    (herror : ∀ e, t.status id = .errored e → e.isUninstantiated = false)
    (hothers : ∀ x, id ≠ x → t.status x = s.status x) : t.Safe := by
  have hentered : ∀ {x}, (s.status x).isEntered = true → (t.status x).isEntered = true := by
    intro x hx
    by_cases hne : id = x
    · subst hne
      exact hself
    · rw [hothers x hne]
      exact hx
  refine ⟨hshape.plain hs.plain fun x hx => ?_, fun x e hx => ?_, fun x y hx hd => ?_,
    fun x hx => ?_⟩
  · by_cases hne : id = x
    · subst hne
      rw [hx] at hself
      cases hself
    · exact (hothers x hne).symm.trans hx
  · by_cases hne : id = x
    · subst hne
      exact herror e hx
    · exact hs.clean x e ((hothers x hne).symm.trans hx)
  · refine hentered (hs.closed x y ?_ (hshape.dependsOn.mp hd))
    by_cases hne : id = x
    · subst hne
      exact hid
    · rw [← hothers x hne]
      exact hx
  · by_cases hne : id = x
    · subst hne
      exact hsettled hx
    · exact hs.settled x ((hothers x hne).symm.trans hx)

/-! ## Bodies -/

theorem sameShape_runExecutor (s : Store) (id : UnitId) (b : Bridge) :
    s.SameShape (s.runExecutor id b).1 :=
  sameShape_change { s with cells := _ } id fun unit => by cases unit <;> rfl

theorem status_runExecutor (s : Store) (id : UnitId) (b : Bridge) (x : UnitId) :
    (s.runExecutor id b).1.status x = s.status x :=
  status_change { s with cells := _ } id (fun unit => by cases unit <;> rfl) x

theorem exportCell_error {b : Bridge} {name : String} {e : LoadError}
    (h : exportCell b name = .error e) : e.isRaised = true := by
  unfold exportCell at h
  split at h
  next => cases h
  next => cases h; rfl

theorem performEffect_error {tables : Tables} {b : Bridge} {slot : Slot} {effect : Effect}
    {e : LoadError} (h : performEffect tables b slot effect = .error e) : e.isRaised = true := by
  cases effect with
  | set name v =>
    simp only [performEffect, bind, Except.bind] at h
    split at h
    next hcell => cases h; exact exportCell_error hcell
    next => cases h
  | copy source target =>
    simp only [performEffect, bind, Except.bind] at h
    split at h
    next hcell => cases h; exact exportCell_error hcell
    next =>
      split at h
      next hcell => cases h; exact exportCell_error hcell
      next => cases h
  | install effects => cases h
  | fail message => cases h; rfl
  | fill table => cases h

theorem perform_error {tables : Tables} {b : Bridge} {slot : Slot} {executor : Executor}
    {e : LoadError} (h : (perform tables b slot executor).2 = .error e) : e.isRaised = true := by
  induction executor generalizing slot with
  | nil => cases h
  | cons effect rest ih =>
    unfold perform at h
    split at h
    next => exact ih h
    next he => cases h; exact performEffect_error he

theorem runBody_error {u : ScriptUnit} {e : LoadError} (h : (s.runBody u).2 = .error e) :
    e.isRaised = true := by
  unfold runBody at h
  dsimp only at h
  generalize (u.program.run ⟨u.locals, u.imports⟩ s.cells).2 = result at h
  cases result with
  | ok _ => cases h
  | error fault => cases h; rfl

/-! ## Running what is bound -/

/-- The status that keeps the outcome of an evaluation. -/
def completionStatus : Except LoadError (Option Value) → Status
  | .ok completion => .evaluated completion
  | .error e => .errored e

theorem settleEvaluation_eq (id : UnitId) (s : Store) (r : Except LoadError (Option Value)) :
    settleEvaluation id (s, r) = (s.setStatus id (completionStatus r), r) := by
  cases r <;> rfl

/-- What every step keeps holds after all of them, and each error comes from one of them. -/
theorem forEach_induction {α : Type} {step : Store → α → Store × Except LoadError Unit}
    {items : List α} {result : Store × Except LoadError Unit}
    (hresult : s.forEach step items = result) {P : Store → Prop} {Q : LoadError → Prop} (hs : P s)
    (h : ∀ s a, a ∈ items → P s → P (step s a).1 ∧ ∀ e, (step s a).2 = .error e → Q e) :
    P result.1 ∧ ∀ e, result.2 = .error e → Q e := by
  subst hresult
  induction items generalizing s with
  | nil => exact ⟨hs, fun e he => by cases he⟩
  | cons a rest ih =>
    have hfirst := h s a List.mem_cons_self hs
    unfold forEach
    split
    next s' e hstep => rw [hstep] at hfirst; exact hfirst
    next s' hstep =>
      rw [hstep] at hfirst
      exact ih hfirst.1 fun s b hb => h s b (List.mem_cons_of_mem _ hb)

theorem ran_settle {result : Store × Except LoadError (Option Value)} (hplain : s.Plain)
    (hid : s.status id = .instantiated) (h : Ran (s.setStatus id .evaluating) result.1) :
    Ran s (settleEvaluation id result).1 := by
  obtain ⟨s', r⟩ := result
  rw [settleEvaluation_eq]
  have hbegun := sameShape_setStatus s id .evaluating
  refine ⟨hbegun.trans (h.shape.trans (sameShape_setStatus s' id _)), fun x => ?_⟩
  by_cases hne : id = x
  · subst hne
    obtain ⟨unit, hunit⟩ := exists_unit_of_status (hid ▸ by simp : s.status id ≠ .unlinked)
    have hsome := (hbegun.trans h.shape).isSome id
    rw [hunit, Option.isSome_some] at hsome
    obtain ⟨unit', hunit'⟩ := Option.isSome_iff_exists.mp hsome
    refine .inr ⟨hid, ?_⟩
    rw [status_setStatus_self _ (h.plain (hplain.setStatus id (by simp))) hunit']
    cases r with
    | ok v => exact .inl ⟨v, rfl⟩
    | error e => exact .inr ⟨e, rfl⟩
  · have hx := h.status x
    rw [status_setStatus_of_ne s _ hne] at hx
    rw [status_setStatus_of_ne s' _ hne]
    exact hx

theorem Safe.begin (hs : s.Safe) (hid : s.status id = .instantiated) :
    (s.setStatus id .evaluating).Safe ∧ (s.setStatus id .evaluating).status id = .evaluating := by
  obtain ⟨unit, hunit⟩ := exists_unit_of_status (hid ▸ by simp : s.status id ≠ .unlinked)
  have hself := status_setStatus_self .evaluating hs.plain hunit
  refine ⟨hs.change id (sameShape_setStatus s id _) ?_ ?_ ?_ ?_ fun x hx =>
    status_setStatus_of_ne s _ hx, hself⟩
  · rw [hid]; rfl
  · rw [hself]; rfl
  · rw [hself]; simp
  · rw [hself]; intro e he; cases he

theorem Safe.settle {result : Store × Except LoadError (Option Value)} (hs : result.1.Safe)
    (hid : result.1.status id = .evaluating)
    (herror : ∀ e, result.2 = .error e → e.isUninstantiated = false) :
    (settleEvaluation id result).1.Safe ∧
      ∀ e, (settleEvaluation id result).2 = .error e → e.isUninstantiated = false := by
  obtain ⟨s', r⟩ := result
  rw [settleEvaluation_eq]
  obtain ⟨unit, hunit⟩ := exists_unit_of_status (hid ▸ by simp : s'.status id ≠ .unlinked)
  have hself := status_setStatus_self (completionStatus r) hs.plain hunit
  refine ⟨hs.change id (sameShape_setStatus s' id _) ?_ ?_ ?_ ?_ fun x hx =>
    status_setStatus_of_ne s' _ hx, herror⟩
  · rw [hid]; rfl
  · rw [hself]; cases r <;> rfl
  · rw [hself]; cases r <;> simp [completionStatus]
  · rw [hself]
    intro e he
    cases r with
    | ok v => cases he
    | error e' => cases he; exact herror e rfl

theorem ran_evaluateWithin (depth : Nat) (hs : s.Plain) :
    Ran s (evaluateWithin depth s id).1 := by
  induction depth generalizing s id with
  | zero => exact .refl s
  | succ depth ih =>
    unfold evaluateWithin
    split
    next => exact .refl s
    next b hb =>
      split
      next hstatus =>
        exact ran_settle hs ((status_of_unit? hb).trans hstatus)
          (.of_status (sameShape_runExecutor _ id b) (status_runExecutor _ id b))
      next => exact .refl s
    next m hm => exact (hs id _ hm).elim
    next u hu =>
      split
      next hstatus =>
        refine ran_settle hs ((status_of_unit? hu).trans hstatus) ?_
        generalize hsearch : forEach _ _ _ = searched
        have hran := (forEach_induction hsearch (P := Ran (s.setStatus id .evaluating))
          (Q := fun _ => True) (.refl _) fun s' specifier _ h => ⟨by
            split
            next => exact h.trans (ih (h.plain (hs.setStatus id (by simp))))
            next => exact h, fun _ _ => trivial⟩).1
        split
        next => exact hran
        next => exact hran.trans (.of_status (.refl _) fun _ => rfl)
      next => exact .refl s

theorem runExecutor_error (s : Store) (id : UnitId) {b : Bridge} {e : LoadError}
    (h : ((s.runExecutor id b).2.map fun _ => (none : Option Value)) = .error e) :
    e.isRaised = true := by
  unfold runExecutor at h
  dsimp only at h
  cases hperform : (perform s.tables b ⟨s.cells, none⟩ (b.executor.getD [])).2 with
  | ok _ => rw [hperform] at h; cases h
  | error e' => rw [hperform] at h; cases h; exact perform_error hperform

/-- A unit that was entered and is not to be run tells its own outcome. -/
theorem Safe.replay_error (hs : s.Safe) (hid : (s.status id).isEntered = true)
    (hother : s.status id ≠ .instantiated) {url : Url} {e : LoadError}
    (h : replay url (s.status id) = .error e) : e.isUninstantiated = false := by
  cases hstatus : s.status id with
  | unlinked => rw [hstatus] at hid; cases hid
  | linked => rw [hstatus] at hid; cases hid
  | instantiating => exact absurd hstatus (hs.settled id)
  | instantiated => exact absurd hstatus hother
  | evaluating => rw [hstatus] at h; cases h
  | evaluated v => rw [hstatus] at h; cases h
  | errored e' =>
    rw [hstatus] at h
    cases h
    exact hs.clean id e hstatus

theorem Safe.run_bridge (hs : s.Safe) (hid : s.status id = .instantiated) (b : Bridge)
    {result : Store × Except LoadError (Option Value)}
    (hresult : settleEvaluation id (((s.setStatus id .evaluating).runExecutor id b).1,
      ((s.setStatus id .evaluating).runExecutor id b).2.map fun _ => none) = result) :
    result.1.Safe ∧ ∀ e, result.2 = .error e → e.isUninstantiated = false := by
  subst hresult
  obtain ⟨hbegun, hself⟩ := hs.begin hid
  have hstatus := status_runExecutor (s.setStatus id .evaluating) id b
  refine Safe.settle (hbegun.of_status (sameShape_runExecutor _ id b) hstatus)
    ((hstatus id).trans hself) fun e he => ?_
  exact LoadError.not_uninstantiated_of_isRaised (runExecutor_error (s.setStatus id .evaluating) id he)

/-- A script whose dependencies were evaluated runs, and keeps what comes of it. -/
theorem Safe.run_script {u : ScriptUnit} {searched : Store × Except LoadError Unit}
    {result : Store × Except LoadError (Option Value)}
    (hresult : (settleEvaluation id (match searched with
      | (s, .error e) => (s, .error e)
      | (s, .ok ()) => s.runBody u)) = result)
    (hs : searched.1.Safe) (hid : searched.1.status id = .evaluating)
    (herror : ∀ e, searched.2 = .error e → e.isUninstantiated = false) :
    result.1.Safe ∧ ∀ e, result.2 = .error e → e.isUninstantiated = false := by
  subst hresult
  obtain ⟨s', r⟩ := searched
  cases r with
  | ok _ =>
    exact Safe.settle (Safe.of_status hs (.refl s') fun _ => rfl) hid
      fun e he => LoadError.not_uninstantiated_of_isRaised (runBody_error he)
  | error e => exact Safe.settle hs hid fun e' he => by cases he; exact herror e rfl

/-- Evaluating what is behind a specifier keeps a store safe, if that is entered. -/
theorem Safe.evaluate_specifier {depth : Nat} {u : ScriptUnit} {specifier : String}
    {result : Store × Except LoadError Unit}
    (hresult : (match s.dependency u specifier with
      | .ok dependency =>
        let (s, result) := evaluateWithin depth s dependency
        (s, result.map fun _ => ())
      | .error e => (s, .error e)) = result)
    (ih : ∀ {s : Store} {id}, s.Safe → (s.status id).isEntered = true →
      (evaluateWithin depth s id).1.Safe ∧
        ∀ e, (evaluateWithin depth s id).2 = .error e → e.isUninstantiated = false)
    (hs : s.Safe)
    (hentered : ∀ y, u.dependencies.lookup specifier = some y → (s.status y).isEntered = true) :
    (Ran s result.1 ∧ result.1.Safe) ∧ ∀ e, result.2 = .error e → e.isUninstantiated = false := by
  subst hresult
  split
  next y hy =>
    obtain ⟨hsafe, herror⟩ := ih hs (hentered y (dependency_eq_ok hy).1)
    refine ⟨⟨ran_evaluateWithin depth hs.plain, hsafe⟩, fun e he => herror e ?_⟩
    dsimp only at he
    cases hresult : (evaluateWithin depth s y).2 with
    | ok v => rw [hresult] at he; cases he
    | error e' => rw [hresult] at he; cases he; rfl
  next e' he' => exact ⟨⟨.refl s, hs⟩, fun e he => by cases he; exact dependency_error he'⟩

/-- An error for a unit that is not instantiated neither comes up nor is kept. -/
theorem safe_evaluateWithin (depth : Nat) (hs : s.Safe) (hid : (s.status id).isEntered = true) :
    (evaluateWithin depth s id).1.Safe ∧
      ∀ e, (evaluateWithin depth s id).2 = .error e → e.isUninstantiated = false := by
  induction depth generalizing s id with
  | zero => exact ⟨hs, fun e he => by cases he⟩
  | succ depth ih =>
    unfold evaluateWithin
    split
    next => exact ⟨hs, fun e he => by cases he⟩
    next b hb =>
      have hstatus : s.status id = b.status := status_of_unit? hb
      split
      next hinstantiated => exact hs.run_bridge (hstatus.trans hinstantiated) b rfl
      next hother =>
        refine ⟨hs, fun e he => ?_⟩
        rw [← hstatus] at hother he
        exact hs.replay_error hid hother he
    next m hm => exact (hs.plain id _ hm).elim
    next u hu =>
      have hstatus : s.status id = u.status := status_of_unit? hu
      split
      next hinstantiated =>
        obtain ⟨hbegun, hself⟩ := hs.begin (hstatus.trans hinstantiated)
        dsimp only
        generalize hsearch : forEach _ _ _ = searched
        obtain ⟨⟨hran, hsafe⟩, herror⟩ := forEach_induction hsearch
          (P := fun s' => Ran (s.setStatus id .evaluating) s' ∧ s'.Safe)
          (Q := fun e => e.isUninstantiated = false) ⟨.refl _, hbegun⟩
          fun s' specifier hin ⟨hran, hsafe⟩ => by
            have hentered : ∀ y, u.dependencies.lookup specifier = some y →
                (s'.status y).isEntered = true := by
              -- its imports are bound, so what it depends on was entered before it ran
              intro y hy
              have hdepends := (sameShape_setStatus s id .evaluating).dependsOn.mpr
                ((dependsOn_iff hu).mpr ⟨specifier, hin, hy⟩)
              exact hran.entered (hbegun.closed id y (by rw [hself]; rfl) hdepends)
            obtain ⟨⟨hnext, hsafe'⟩, herror⟩ := Safe.evaluate_specifier rfl ih hsafe hentered
            exact ⟨⟨hran.trans hnext, hsafe'⟩, herror⟩
        exact Safe.run_script rfl hsafe (hran.evaluating hself) herror
      next hother =>
        refine ⟨hs, fun e he => ?_⟩
        have hne : s.status id ≠ .instantiated := hstatus ▸ hother
        rw [← hstatus] at he
        exact hs.replay_error hid hne he

/-! ## Evaluating any unit -/

/-- Nothing runs if the unit that is asked for is not entered. -/
theorem evaluate_of_not_entered (hplain : s.Plain) (hid : (s.unit? id).isSome = true)
    (h : (s.status id).isEntered = false) :
    ∃ url, s.evaluate id = (s, .error (.evaluate url .uninstantiated)) := by
  obtain ⟨unit, hunit⟩ := Option.isSome_iff_exists.mp hid
  rw [status_of_unit? hunit] at h
  unfold evaluate evaluateWithin
  rw [hunit]
  cases unit with
  | script u =>
    change u.status.isEntered = false at h
    refine ⟨u.url, ?_⟩
    dsimp only
    cases hstatus : u.status with
    | unlinked => rfl
    | linked => rfl
    | _ => rw [hstatus] at h; cases h
  | bridge b =>
    change b.status.isEntered = false at h
    refine ⟨b.url, ?_⟩
    dsimp only
    cases hstatus : b.status with
    | unlinked => rfl
    | linked => rfl
    | _ => rw [hstatus] at h; cases h
  | manifest m => exact (hplain id _ hunit).elim

/-- The error for a unit that is not instantiated comes exactly for one that nobody has entered. -/
theorem uninstantiated_evaluate_iff (hs : s.Safe) (hid : (s.unit? id).isSome = true) :
    (∃ url, (s.evaluate id).2 = .error (.evaluate url .uninstantiated)) ↔
      (s.status id).isEntered = false := by
  constructor
  · rintro ⟨url, he⟩
    by_contra hentered
    have herror := (safe_evaluateWithin _ hs (Bool.of_not_eq_false hentered)).2 _ he
    cases herror
  · intro h
    obtain ⟨url, he⟩ := evaluate_of_not_entered hs.plain hid h
    exact ⟨url, by rw [he]⟩

theorem safe_evaluate (hs : s.Safe) (hid : (s.unit? id).isSome = true) :
    (s.evaluate id).1.Safe := by
  by_cases hentered : (s.status id).isEntered = true
  · exact (safe_evaluateWithin _ hs hentered).1
  · have hfresh := Bool.eq_false_of_not_eq_true hentered
    obtain ⟨url, he⟩ := evaluate_of_not_entered hs.plain hid hfresh
    rw [he]
    exact hs

theorem ran_evaluate (hplain : s.Plain) (id : UnitId) : Ran s (s.evaluate id).1 :=
  ran_evaluateWithin _ hplain

end Store

end ModuleLoader
