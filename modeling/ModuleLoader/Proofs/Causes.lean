import ModuleLoader.Proofs.Binding
import ModuleLoader.Proofs.Searches
/-!
# What a search can fail with

An error of a search is one that a unit answers by its status, one of a turn, or one for a unit that
cannot be got at. In a region where all units lead to units of the region, only the first two are
left, so an error about missing links comes up only where it was kept before.

Results:
1. `Fenced`, `Runs.errors`: where the errors of a search come from.
2. `LoadError.isLinking`: the errors about links that are missing.
3. `linked_of_instantiate`, `linked_of_evaluate`: these never come up where links are complete.
-/
namespace ModuleLoader

/-- The errors for a unit, or for what it depends on, that is not linked or not loaded any more. -/
def LoadError.isLinking : LoadError → Bool
  | .link _ (.unloaded _) | .instantiate _ .unlinked | .instantiate _ (.dependencyUnlinked _) => true
  | _ => false

theorem LoadError.not_linking_of_isRaised {e : LoadError} (h : e.isRaised = true) :
    e.isLinking = false := by
  unfold LoadError.isRaised at h
  split at h
  next => rfl
  next => rfl
  next => rfl
  next => cases h

namespace Phase

variable {p : Phase} {good : LoadError → Prop} {region : UnitId → Prop} {s s' s₁ : Store}
  {x : UnitId} {unit : ModuleUnit} {targets : List (Except LoadError UnitId)} {log : List UnitId}
  {r : Except LoadError Unit} {e : LoadError}

/-- Units that lead to each other only, and whose answers and turns end with good errors only. -/
structure Fenced (p : Phase) (good : LoadError → Prop) (region : UnitId → Prop) (s : Store) :
    Prop where
  leads : ∀ x unit, region x → s.unit? x = some unit → p.answer unit = none →
    ∀ target ∈ s.targets unit, ∃ y, target = .ok y ∧ region y
  told : ∀ x unit e, region x → s.unit? x = some unit → p.answer unit = some (.error e) → good e
  acts : ∀ x unit t e, region x → s.unit? x = some unit → p.answer unit = none →
    s.SameFrames t → (p.act t x unit).2 = .error e → good e

/-- What is still to be entered leads where it led. -/
theorem Fenced.forth (h : p.Fenced good region s) (hforth : p.Forth s s')
    (htold : ∀ x unit e, region x → s'.unit? x = some unit → p.answer unit = some (.error e) →
      good e) : p.Fenced good region s' where
  leads x unit hx hunit hanswer := by
    rw [hforth.shape.targets]
    exact h.leads x unit hx (hforth.still x unit hunit hanswer) hanswer
  told := htold
  acts x unit t e hx hunit hanswer ht :=
    h.acts x unit t e hx (hforth.still x unit hunit hanswer) hanswer (hforth.frames.trans ht)

/-- The statuses that keep an error, as far as it is new. -/
def Keeps (good : LoadError → Prop) (s s' : Store) : Prop :=
  ∀ x e, s'.status x = .errored e → s.status x = .errored e ∨ good e

theorem Keeps.trans {t : Store} (h : Keeps good s s') (h' : Keeps good s' t) : Keeps good s t :=
  fun x e hx => (h' x e hx).elim (h x e) .inr

theorem keeps_setStatus (s : Store) (x : UnitId) {status : Status}
    (hothers : ∀ y, x ≠ y → s₁.unit? y = s.unit? y) (h : ∀ e, status = .errored e → good e) :
    Keeps good s (s₁.setStatus x status) := by
  intro y e hy
  unfold Store.status at hy ⊢
  rw [unit?_setStatus] at hy
  split at hy
  next =>
    cases hunit : s₁.unit? y with
    | none => rw [hunit] at hy; cases hy
    | some unit =>
      rw [hunit] at hy
      cases unit with
      | script u => exact .inr (h e hy)
      | bridge b => exact .inr (h e hy)
      | manifest m => cases hy
  next hne => exact .inl (hothers y hne ▸ hy)

/-- A unit gets a status by which it tells good errors only. -/
theorem Fenced.setStatus (h : p.Fenced good region s) {status : Status}
    (hforth : p.Forth s (s₁.setStatus x status)) (hothers : ∀ y, x ≠ y → s₁.unit? y = s.unit? y)
    (htold : ∀ (unit : ModuleUnit) e, p.answer (unit.withStatus status) = some (.error e) → good e)
    (hkept : ∀ e, status = .errored e → good e) :
    p.Fenced good region (s₁.setStatus x status) ∧ Keeps good s (s₁.setStatus x status) := by
  refine ⟨h.forth hforth fun y unit e hy hunit hanswer => ?_, keeps_setStatus s x hothers hkept⟩
  rw [unit?_setStatus] at hunit
  split at hunit
  next =>
    obtain ⟨old, -, rfl⟩ := Option.map_eq_some_iff.mp hunit
    exact htold old e hanswer
  next hne => exact h.told y unit e hy ((hothers y hne).symm.trans hunit) hanswer

theorem Fenced.begin (hp : p.Lawful) (h : p.Fenced good region s) (x : UnitId) :
    p.Fenced good region (s.setStatus x p.during) ∧ Keeps good s (s.setStatus x p.during) :=
  h.setStatus (hp.forth_begin s x) (fun _ _ => rfl)
    (fun unit e hanswer => by rw [hp.during] at hanswer; cases hanswer)
    fun e he => absurd he (hp.calm e)

theorem Fenced.abort (hp : p.Lawful) (h : p.Fenced good region s) (x : UnitId) (he : good e) :
    p.Fenced good region (s.setStatus x (.errored e)) ∧
      Keeps good s (s.setStatus x (.errored e)) :=
  h.setStatus (hp.forth_errored s x e) (fun _ _ => rfl)
    (fun unit e' hanswer => hp.replays unit e e' hanswer ▸ he) fun e' he' => by cases he'; exact he

theorem Fenced.turn (hp : p.Lawful) (h : p.Fenced good region s)
    (hturn : settle x (p.act s x unit) = (s', r))
    (hgood : ∀ e, (p.act s x unit).2 = .error e → good e) :
    p.Fenced good region s' ∧ Keeps good s s' ∧ ∀ e, r = .error e → good e := by
  have hforth := hp.forth_turn hturn
  have hothers := fun y hne => hp.others s x unit y hne
  rcases settle_cases hturn with ⟨status, hact, rfl, rfl⟩ | ⟨e, hact, rfl, rfl⟩
  · obtain ⟨hfenced, hkeeps⟩ := h.setStatus hforth hothers
      (fun other e hanswer => by
        rw [hp.settled s x unit _ status (Prod.ext rfl hact)] at hanswer
        cases hanswer)
      fun e he => absurd he ((hp.fine s x unit status hact).2 e)
    exact ⟨hfenced, hkeeps, fun e he => by cases he⟩
  · obtain ⟨hfenced, hkeeps⟩ := h.setStatus hforth hothers
      (fun other e' hanswer => hp.replays other e e' hanswer ▸ hgood e hact)
      fun e' he' => by cases he'; exact hgood e hact
    exact ⟨hfenced, hkeeps, fun e' he' => by cases he'; exact hgood e hact⟩

/-- What a unit leads to is in the region, so its turn is one of the region in what the search made. -/
theorem Fenced.begun {inner : List UnitId} (hp : p.Lawful) (hs : p.Fenced good region s)
    (hx : region x) (hunit : s.unit? x = some unit) (hanswer : p.answer unit = none)
    (hruns : p.Runs (s.setStatus x p.during) (s.targets unit) inner s₁ r)
    (ih : p.Fenced good region (s.setStatus x p.during) →
      (∀ target ∈ s.targets unit, ∃ y, target = .ok y ∧ region y) →
      p.Fenced good region s₁ ∧ Keeps good (s.setStatus x p.during) s₁ ∧
        ∀ e, r = .error e → good e) :
    p.Fenced good region s₁ ∧ Keeps good s s₁ ∧ (∀ e, r = .error e → good e) ∧
      ∀ e, (p.act s₁ x unit).2 = .error e → good e := by
  obtain ⟨hfenced, hkept⟩ := hs.begin hp x
  obtain ⟨hfenced, hmore, herror⟩ := ih hfenced (hs.leads x unit hx hunit hanswer)
  have hframes := ((hp.forth_begin s x).trans (hruns.forth hp)).frames
  exact ⟨hfenced, hkept.trans hmore, herror,
    fun e he => hs.acts x unit s₁ e hx hunit hanswer hframes he⟩

/-- Whatever a search fails with, and whatever error is kept in the course of it, is good. -/
theorem Runs.errors (hp : p.Lawful) (h : p.Runs s targets log s' r) (hs : p.Fenced good region s)
    (htargets : ∀ target ∈ targets, ∃ y, target = .ok y ∧ region y) :
    p.Fenced good region s' ∧ Keeps good s s' ∧ ∀ e, r = .error e → good e := by
  induction h with
  | done => exact ⟨hs, fun x e hx => .inl hx, fun e he => by cases he⟩
  | broken =>
    obtain ⟨y, heq, -⟩ := htargets _ List.mem_cons_self
    cases heq
  | pass _ _ ih => exact ih hs (region_cons htargets).2
  | @refuse s x e rest hanswer =>
    refine ⟨hs, fun x e hx => .inl hx, fun e' he' => ?_⟩
    cases he'
    unfold answer? at hanswer
    split at hanswer
    next => cases hanswer
    next unit hunit => exact hs.told x unit e (region_cons htargets).1 hunit hanswer
  | enter hunit hanswer hinner hturn _ ihinner ihouter =>
    obtain ⟨hx, hrest⟩ := region_cons htargets
    obtain ⟨hmid, hkept, -, hact⟩ := hs.begun hp hx hunit hanswer hinner ihinner
    obtain ⟨hafter, hkept', -⟩ := hmid.turn hp hturn hact
    obtain ⟨hend, hkept'', herror⟩ := ihouter hafter hrest
    exact ⟨hend, hkept.trans (hkept'.trans hkept''), herror⟩
  | fail hunit hanswer hinner hturn ih =>
    obtain ⟨hmid, hkept, -, hact⟩ := hs.begun hp (region_cons htargets).1 hunit hanswer hinner ih
    obtain ⟨hafter, hkept', herror⟩ := hmid.turn hp hturn hact
    exact ⟨hafter, hkept.trans hkept', herror⟩
  | abort hunit hanswer hinner ih =>
    obtain ⟨hmid, hkept, herror, -⟩ := hs.begun hp (region_cons htargets).1 hunit hanswer hinner ih
    obtain ⟨hafter, hkept'⟩ := hmid.abort hp _ (herror _ rfl)
    exact ⟨hafter, hkept.trans hkept', fun e he => by cases he; exact herror _ rfl⟩

end Phase

/-! ## Missing links -/

namespace Store

variable {s s' t : Store} {x y id : UnitId} {unit : ModuleUnit} {region : UnitId → Prop}
  {e : LoadError}

/-- No unit has failed because of a link that is missing. -/
def Unbroken (s : Store) : Prop := ∀ x e, s.status x = .errored e → e.isLinking = false

theorem Unbroken.keeps (h : s.Unbroken) (hkeeps : Phase.Keeps (·.isLinking = false) s s') :
    s'.Unbroken := fun x e hx => (hkeeps x e hx).elim (h x e) id

theorem raised_of_lack {w : Script.Want} (h : s.lack? x w = some e) : e.isRaised = true := by
  unfold lack? at h
  split at h
  next =>
    split at h
    next => cases h; rfl
    next => cases h
  next => cases h

theorem raised_of_verdict (h : s.verdict x = .error e) : e.isRaised = true := by
  unfold verdict at h
  cases hlack : (s.wants x).findSome? (s.lack? x) with
  | none => rw [hlack] at h; cases h
  | some e' =>
    rw [hlack] at h
    cases h
    obtain ⟨w, -, hw⟩ := List.exists_of_findSome?_eq_some hlack
    exact raised_of_lack hw

/-- A unit that has all its dependencies fails only for a name that one of them lacks. -/
theorem raised_of_act_instantiation (hcomplete : s.Complete x) (hunit : s.unit? x = some unit)
    (ht : s.SameFrames t) (h : (instantiation.act t x unit).2 = .error e) : e.isRaised = true := by
  cases unit with
  | script u =>
    refine raised_of_verdict (s := s) (x := x) ?_
    rw [← verdict_of_script hcomplete hunit, ← ht.allImportCells]
    simp only [instantiation, bindImports] at h
    cases hcells : t.allImportCells u with
    | ok imports => rw [hcells] at h; cases h
    | error e' => rw [hcells] at h; cases h; rfl
  | bridge b => cases h
  | manifest m => cases h

theorem raised_of_act_evaluation (h : (evaluation.act t x unit).2 = .error e) :
    e.isRaised = true := by
  cases unit with
  | script u =>
    simp only [evaluation] at h
    cases hrun : (t.runBody u).2 with
    | ok v => rw [hrun] at h; cases h
    | error e' => rw [hrun] at h; cases h; exact runBody_error hrun
  | bridge b =>
    simp only [evaluation] at h
    cases hrun : (t.runExecutor x b).2 with
    | ok _ => rw [hrun] at h; cases h
    | error e' =>
      rw [hrun] at h
      cases h
      exact runExecutor_error t x (b := b) (by rw [hrun]; rfl)
  | manifest m => cases h

theorem leads_of_complete (hs : s.NoManifests) (hcomplete : s.Complete x)
    (hunit : s.unit? x = some unit) (hclosed : ∀ y, s.DependsOn x y → region y) :
    ∀ target ∈ s.targets unit, ∃ y, target = .ok y ∧ region y := by
  intro target htarget
  rw [targets_of_complete hs hcomplete hunit] at htarget
  obtain ⟨y, hy, rfl⟩ := List.mem_map.mp htarget
  exact ⟨y, rfl, hclosed y (mem_children.mp hy)⟩

/-- In a region that is linked, an instantiation finds all links it needs. -/
theorem linked_of_instantiate (region : UnitId → Prop) (hs : s.NoManifests)
    (hunbroken : s.Unbroken)
    (hcomplete : ∀ x, region x → s.Complete x) (hlinked : ∀ x, region x → s.status x ≠ .unlinked)
    (hclosed : ∀ x y, region x → s.DependsOn x y → region y) (hid : region id) :
    (s.instantiate id).1.Unbroken ∧
      ∀ e, (s.instantiate id).2 = .error e → e.isLinking = false := by
  obtain ⟨log, hruns⟩ := instantiate_runs hs id
  have hfenced : instantiation.Fenced (·.isLinking = false) region s := by
    refine ⟨fun x unit hx hunit _ => ?_, fun x unit e hx hunit hanswer => ?_,
      fun x unit t e hx hunit _ ht he => ?_⟩
    · exact leads_of_complete hs (hcomplete x hx) hunit fun y => hclosed x y hx
    · have hstatus := status_of_unit? hunit
      cases unit with
      | script u =>
        simp only [instantiation] at hanswer
        split at hanswer
        next hu => exact absurd (hstatus.trans hu) (hlinked x hx)
        next e' hu => cases hanswer; exact hunbroken x e (hstatus.trans hu)
        next => cases hanswer
        next => cases hanswer
      | bridge b =>
        simp only [instantiation] at hanswer
        split at hanswer <;> cases hanswer
      | manifest m => cases hanswer
    · exact LoadError.not_linking_of_isRaised
        (raised_of_act_instantiation (hcomplete x hx) hunit ht he)
  obtain ⟨-, hkeeps, herror⟩ := hruns.errors instantiation_lawful hfenced fun target h =>
    ⟨id, List.mem_singleton.mp h, hid⟩
  exact ⟨hunbroken.keeps hkeeps, herror⟩

/-- What is instantiated is linked, so an evaluation finds all links it needs. -/
theorem linked_of_evaluate (region : UnitId → Prop) (hs : s.NoManifests) (hunbroken : s.Unbroken)
    (hcomplete : ∀ x, region x → s.status x = .instantiated → s.Complete x)
    (hclosed : ∀ x y, region x → s.status x = .instantiated → s.DependsOn x y → region y)
    (hid : region id) : (s.evaluate id).1.Unbroken := by
  obtain ⟨log, hruns⟩ := evaluate_runs hs id
  have hopen : ∀ {x unit}, s.unit? x = some unit → evaluation.answer unit = none →
      s.status x = .instantiated := by
    intro x unit hunit hanswer
    rw [status_of_unit? hunit]
    exact status_of_answer_evaluation hanswer
  have hreplay : ∀ {x url e}, replay url (s.status x) = .error e → e.isLinking = false := by
    intro x url e he
    unfold replay at he
    split at he
    next => cases he
    next e' hstatus => cases he; exact hunbroken x _ hstatus
    next => cases he
    next => cases he; rfl
  have hfenced : evaluation.Fenced (·.isLinking = false) region s := by
    refine ⟨fun x unit hx hunit hanswer => ?_, fun x unit e hx hunit hanswer => ?_,
      fun x unit t e hx hunit _ ht he => LoadError.not_linking_of_isRaised
        (raised_of_act_evaluation he)⟩
    · have hstatus := hopen hunit hanswer
      exact leads_of_complete hs (hcomplete x hx hstatus) hunit fun y => hclosed x y hx hstatus
    · refine hreplay (show replay unit.url (s.status x) = .error e from ?_)
      rw [status_of_unit? hunit]
      cases unit with
      | script u =>
        simp only [evaluation] at hanswer
        split at hanswer
        next => cases hanswer
        next =>
          cases hr : replay u.url u.status with
          | ok v => rw [hr] at hanswer; cases hanswer
          | error e' => rw [hr] at hanswer; cases hanswer; exact hr
      | bridge b =>
        simp only [evaluation] at hanswer
        split at hanswer
        next => cases hanswer
        next =>
          cases hr : replay b.url b.status with
          | ok v => rw [hr] at hanswer; cases hanswer
          | error e' => rw [hr] at hanswer; cases hanswer; exact hr
      | manifest m => cases hanswer
  obtain ⟨-, hkeeps, -⟩ := hruns.errors evaluation_lawful hfenced fun target h =>
    ⟨id, List.mem_singleton.mp h, hid⟩
  exact hunbroken.keeps hkeeps

end Store

end ModuleLoader
