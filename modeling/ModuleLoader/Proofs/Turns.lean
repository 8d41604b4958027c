import ModuleLoader.Proofs.DepthFirst
import ModuleLoader.Proofs.Searches
/-!
# Turns in depth-first order

What a phase does to a store is what the units do that take their turns one after the other in
depth-first order, without any search. A turn that fails is the last one, and its error is kept by
all units that were entered and wait for it.

Results:
1. `Store.mark`: the statuses of the units that wait, and that nothing else depends on them.
2. `forEach_turn`: what turns that went well leave behind.
3. `Follows`, `Runs.follows`: a search as turns in depth-first order.
-/
namespace ModuleLoader

/-! ## Units that wait -/

namespace Store

variable {s : Store} {x : UnitId}

/-- Gives several units one status. -/
def mark (status : Status) (path : List UnitId) (s : Store) : Store :=
  path.foldr (fun x s => s.setStatus x status) s

theorem unit?_mark (status : Status) (path : List UnitId) (s : Store) (x : UnitId) :
    (s.mark status path).unit? x =
      if x ∈ path then (s.unit? x).map (ModuleUnit.withStatus status) else s.unit? x := by
  induction path with
  | nil => rfl
  | cons y path ih =>
    change ((s.mark status path).setStatus y status).unit? x = _
    rw [Phase.unit?_setStatus, ih]
    by_cases hy : y = x
    · subst hy
      simp only [if_true, List.mem_cons, true_or]
      split
      next =>
        rw [Option.map_map]
        congr 1
        funext unit
        cases unit <;> rfl
      next => rfl
    · have hiff : x ∈ y :: path ↔ x ∈ path := by simp [Ne.symm hy]
      simp only [if_neg hy, hiff]

theorem sameShape_mark (status : Status) (path : List UnitId) (s : Store) :
    s.SameShape (s.mark status path) := by
  induction path with
  | nil => exact .refl s
  | cons y path ih => exact ih.trans (sameShape_setStatus _ y status)

theorem setStatus_mark (status status' : Status) {path : List UnitId} (hx : x ∉ path) (s : Store) :
    (s.mark status path).setStatus x status' = (s.setStatus x status').mark status path := by
  induction path with
  | nil => rfl
  | cons y path ih =>
    obtain ⟨hne, hpath⟩ := List.ne_and_not_mem_of_not_mem_cons hx
    change ((s.mark status path).setStatus y status).setStatus x status' = _
    rw [setStatus_comm _ (Ne.symm hne), ih hpath]
    rfl

/-- Of units that get the same status it does not matter which one gets it first. -/
theorem setStatus_mark_self (status : Status) (path : List UnitId) (x : UnitId) (s : Store) :
    (s.mark status path).setStatus x status = s.mark status (path ++ [x]) := by
  induction path with
  | nil => rfl
  | cons y path ih =>
    change ((s.mark status path).setStatus y status).setStatus x status =
      (s.mark status (path ++ [x])).setStatus y status
    rw [← ih]
    by_cases hne : y = x
    · rw [hne]
    · exact setStatus_comm _ hne status status

end Store

namespace Phase

variable {p : Phase} {s s' s₁ s₂ t t' : Store} {x y : UnitId} {r : Except LoadError Unit}
  {e : LoadError} {unit : ModuleUnit} {path below : List UnitId} {order order' : List (Visit UnitId)}
  {log log' : List UnitId}

theorem act_mark (hp : p.Lawful) (status : Status) (path : List UnitId) (s : Store) (x : UnitId)
    (unit : ModuleUnit) : p.act (s.mark status path) x unit =
      ((p.act s x unit).1.mark status path, (p.act s x unit).2) := by
  induction path with
  | nil => rfl
  | cons y path ih =>
    change p.act ((s.mark status path).setStatus y status) x unit = _
    rw [hp.blind, ih]
    rfl

/-- A unit settles in the same way whether or not others wait for it. -/
theorem settle_mark (hp : p.Lawful) (hx : x ∉ path) (s : Store) (unit : ModuleUnit) :
    settle x (p.act (s.mark p.during (x :: path)) x unit) =
      ((settle x (p.act s x unit)).1.mark p.during path, (settle x (p.act s x unit)).2) := by
  have hlast : ∀ (s : Store) status, (s.mark p.during (x :: path)).setStatus x status =
      (s.setStatus x status).mark p.during path := by
    intro s status
    change ((s.mark p.during path).setStatus x p.during).setStatus x status = _
    rw [Store.setStatus_setStatus, Store.setStatus_mark _ _ hx]
  rw [act_mark hp]
  obtain ⟨s', r⟩ := p.act s x unit
  cases r with
  | ok status => exact Prod.ext (hlast s' status) rfl
  | error e => exact Prod.ext (hlast s' _) rfl

theorem passes_iff_of_unit? (h : s'.unit? x = s.unit? x) : p.Passes s' x ↔ p.Passes s x := by
  unfold Passes
  rw [h]

theorem opens_iff_of_unit? (h : s'.unit? x = s.unit? x) : p.Opens s' x ↔ p.Opens s x := by
  unfold Opens
  rw [h]

theorem refuses_iff_of_unit? (h : s'.unit? x = s.unit? x) : p.Refuses s' x e ↔ p.Refuses s x e := by
  unfold Refuses
  rw [h]

/-- A unit that waits is passed over. -/
theorem passes_mark (hp : p.Lawful) (hx : x ∈ path)
    (hsome : ((s.mark p.during path).unit? x).isSome = true) :
    p.Passes (s.mark p.during path) x := by
  obtain ⟨unit, hunit⟩ := Option.isSome_iff_exists.mp hsome
  refine ⟨unit, hunit, ?_⟩
  rw [Store.unit?_mark, if_pos hx] at hunit
  obtain ⟨old, -, rfl⟩ := Option.map_eq_some_iff.mp hunit
  exact hp.during old

/-! ## Turns that went well -/

theorem settle_ok (hp : p.Lawful) (hunit : (s.unit? x).isSome = true)
    (h : settle x (p.act s x unit) = (s', .ok ())) :
    p.Passes s' x ∧ ∀ y, x ≠ y → s'.unit? y = s.unit? y := by
  refine ⟨?_, fun y hne => hp.unit?_turn h hne⟩
  rcases settle_cases h with ⟨status, hact, rfl, -⟩ | ⟨e, -, -, hr⟩
  · have hsome := (hp.shape s x unit).isSome x
    rw [hunit] at hsome
    obtain ⟨unit', hunit'⟩ := Option.isSome_iff_exists.mp hsome
    refine ⟨unit'.withStatus status, ?_, hp.settled s x unit _ status (Prod.ext rfl hact) unit'⟩
    rw [unit?_setStatus, if_pos rfl, hunit']
    rfl
  · cases hr

theorem turn_ok (hp : p.Lawful) (hunit : (s.unit? x).isSome = true)
    (h : p.turn s x = (s', .ok ())) : p.Passes s' x ∧ ∀ y, x ≠ y → s'.unit? y = s.unit? y := by
  obtain ⟨unit, hx⟩ := Option.isSome_iff_exists.mp hunit
  unfold turn at h
  rw [hx] at h
  simp only at h
  split at h
  next r hanswer =>
    cases h
    exact ⟨⟨unit, hx, hanswer⟩, fun _ _ => rfl⟩
  next => exact settle_ok hp hunit h

theorem frames_turn (hp : p.Lawful) (s : Store) (x : UnitId) : s.SameFrames (p.turn s x).1 := by
  unfold turn
  split
  next => exact .refl s
  next unit hunit =>
    split
    next => exact .refl s
    next => exact (hp.frames s x unit).trans (frames_settle x _)

/-- A turn does not make units come or go. -/
theorem shape_turn (hp : p.Lawful) (s : Store) (x : UnitId) : s.SameShape (p.turn s x).1 :=
  (frames_turn hp s x).shape

/-- After turns that went well, the units that took one are passed over, and all others are as
they were. -/
theorem forEach_turn (hp : p.Lawful) {turns : List UnitId}
    (hthere : ∀ x ∈ turns, (s.unit? x).isSome = true)
    (h : s.forEach p.turn turns = (s', .ok ())) :
    (∀ x ∈ turns, p.Passes s' x) ∧ ∀ y, y ∉ turns → s'.unit? y = s.unit? y := by
  induction turns generalizing s with
  | nil =>
    cases h
    exact ⟨fun x hx => absurd hx List.not_mem_nil, fun _ _ => rfl⟩
  | cons a rest ih =>
    unfold Store.forEach at h
    split at h
    next => cases h
    next s₁ hturn =>
      have hshape := shape_turn hp s a
      rw [hturn] at hshape
      obtain ⟨hself, hothers⟩ := turn_ok hp (hthere a List.mem_cons_self) hturn
      have hrest : ∀ x ∈ rest, (s₁.unit? x).isSome = true := fun x hx =>
        (hshape.isSome x).trans (hthere x (List.mem_cons_of_mem _ hx))
      obtain ⟨hpass, hkept⟩ := ih hrest h
      constructor
      · intro x hx
        by_cases hlater : x ∈ rest
        · exact hpass x hlater
        · rcases List.mem_cons.mp hx with rfl | hin
          · exact (passes_iff_of_unit? (hkept x hlater)).mpr hself
          · exact absurd hin hlater
      · intro y hy
        obtain ⟨hne, hlater⟩ := List.ne_and_not_mem_of_not_mem_cons hy
        rw [hkept y hlater, hothers y (Ne.symm hne)]

theorem forEach_append {turns more : List UnitId}
    (h : s.forEach p.turn turns = (s', .ok ())) :
    s.forEach p.turn (turns ++ more) = s'.forEach p.turn more := by
  induction turns generalizing s with
  | nil => cases h; rfl
  | cons a rest ih =>
    unfold Store.forEach at h
    split at h
    next => cases h
    next s₁ hturn =>
      rw [List.cons_append, Store.forEach, hturn]
      exact ih h

/-! ## The search as turns -/

/-- Turns in depth-first order, up to the first that fails. Its error is kept by the units that wait
for it, short of those of a path further up. -/
inductive Follows (p : Phase) (t : Store) (path : List UnitId) (order : List (Visit UnitId)) :
    List UnitId → Store → Except LoadError Unit → Prop
  | all {t' : Store} : t.forEach p.turn (nodes order) = (t', .ok ()) →
      p.Follows t path order (nodes order) t' (.ok ())
  | upTo {before after : List (Visit UnitId)} {v : Visit UnitId} {below log : List UnitId}
      {t₁ t₂ : Store} {e : LoadError} :
      order = before ++ v :: after → v.above = below ++ path →
      t.forEach p.turn (nodes before) = (t₁, .ok ()) → p.turn t₁ v.node = (t₂, .error e) →
      (p.Opens t v.node ∧ log = nodes before ++ [v.node] ∨
        p.Refuses t v.node e ∧ log = nodes before) →
      p.Follows t path order log (t₂.mark (.errored e) below) (.error e)

theorem Follows.result (h : p.Follows t path order log s' r) :
    (t.forEach p.turn (nodes order)).2 = r := by
  cases h with
  | all hturns => rw [hturns]
  | upTo horder _ hturns hturn _ =>
    rw [horder, nodes_append, forEach_append hturns, nodes_cons, Store.forEach, hturn]

/-- What a unit leads to follows from its shape. -/
theorem targets_of_shape (s : Store) {unit unit' : ModuleUnit} (h : unit.shape = unit'.shape) :
    s.targets unit = s.targets unit' := by
  cases unit with
  | script u =>
    cases unit' with
    | script u' =>
      simp only [ModuleUnit.shape, Shape.script.injEq] at h
      obtain ⟨hurl, hprogram, hdependencies⟩ := h
      simp only [Store.targets, ModuleUnit.specifiers, hprogram]
      congr 1
      funext specifier
      simp only [Store.behind, Store.dependency, hurl, hdependencies]
    | bridge b => cases h
    | manifest m => cases h
  | bridge b =>
    cases unit' with
    | bridge b' => rfl
    | script u => cases h
    | manifest m => cases h
  | manifest m =>
    cases unit' with
    | manifest m' => cases h; rfl
    | script u => cases h
    | bridge b => cases h

/-- A part of the store that the search does not leave, with the edges that it goes along. -/
structure Covers (p : Phase) (next : UnitId → List UnitId) (region : Set UnitId) (s : Store) :
    Prop where
  there : ∀ x ∈ region, (s.unit? x).isSome = true
  closed : ∀ x ∈ region, ∀ y ∈ next x, y ∈ region
  leads : ∀ x ∈ region, ∀ unit, s.unit? x = some unit → p.answer unit = none →
    s.targets unit = (next x).map .ok
  ends : ∀ x ∈ region, ∀ e, p.Refuses s x e → next x = []

variable {next : UnitId → List UnitId} {region seen : Set UnitId} {todo : List UnitId}

/-- A store in which the same units lead on and no other unit refuses is covered in the same way. -/
theorem Covers.mono (h : p.Covers next region s) (hforth : p.Forth s s')
    (hends : ∀ x ∈ region, ∀ e, p.Refuses s' x e → p.Refuses s x e) :
    p.Covers next region s' where
  there x hx := (hforth.shape.isSome x).trans (h.there x hx)
  closed := h.closed
  leads x hx unit hunit hanswer := by
    obtain ⟨old, hold, hnone⟩ := hforth.opens x ⟨unit, hunit, hanswer⟩
    rw [← h.leads x hx old hold hnone, hforth.shape.targets]
    -- the targets of a unit follow from its shape
    have hshape := hforth.shape x
    unfold Store.shape? at hshape
    rw [hunit, hold] at hshape
    exact targets_of_shape s (Option.some.inj hshape)
  ends x hx e he := h.ends x hx e (hends x hx e he)

/-- Some units are passed over now, and all others are as they were. -/
structure Passed (p : Phase) (s s' : Store) (units : List UnitId) : Prop where
  pass : ∀ x ∈ units, p.Passes s' x
  kept : ∀ y, y ∉ units → s'.unit? y = s.unit? y

theorem passed_begin (hp : p.Lawful) (hunit : (s.unit? x).isSome = true) :
    p.Passed s (s.setStatus x p.during) [x] where
  pass y hy := by
    cases List.mem_singleton.mp hy
    obtain ⟨unit, hunit⟩ := Option.isSome_iff_exists.mp hunit
    exact ⟨unit.withStatus p.during, by rw [unit?_setStatus, if_pos rfl, hunit]; rfl, hp.during unit⟩
  kept y hy := by
    rw [unit?_setStatus, if_neg fun h => hy (List.mem_singleton.mpr h.symm)]

/-- Turns look the same when other units wait. -/
theorem passed_mark (hp : p.Lawful) {units : List UnitId}
    (hthere : ∀ x ∈ units, (t.unit? x).isSome = true) (hpath : ∀ x ∈ units, x ∉ path)
    (h : t.forEach p.turn units = (t', .ok ())) :
    p.Passed (t.mark p.during path) (t'.mark p.during path) units := by
  obtain ⟨hpass, hkept⟩ := forEach_turn hp hthere h
  refine ⟨fun x hx => ?_, fun y hy => ?_⟩
  · refine (passes_iff_of_unit? ?_).mpr (hpass x hx)
    rw [Store.unit?_mark, if_neg (hpath x hx)]
  · rw [Store.unit?_mark, Store.unit?_mark, hkept y hy]

namespace Passed

variable {units : List UnitId}

theorem covers (h : p.Passed s s' units) (hforth : p.Forth s s') (hcovers : p.Covers next region s) :
    p.Covers next region s' := by
  refine hcovers.mono hforth fun x _ e he => ?_
  by_cases hx : x ∈ units
  · obtain ⟨unit, hunit, hanswer⟩ := he
    obtain ⟨other, hother, hpass⟩ := h.pass x hx
    cases hunit.symm.trans hother
    cases hanswer.symm.trans hpass
  · exact (refuses_iff_of_unit? (h.kept x hx)).mp he

theorem seen_iff (h : p.Passed s s' units) (hseen : ∀ x ∈ region, x ∈ seen ↔ p.Passes s x) :
    ∀ x ∈ region, (x ∈ seen ∨ x ∈ units) ↔ p.Passes s' x := by
  intro x hx
  by_cases hin : x ∈ units
  · exact iff_of_true (.inr hin) (h.pass x hin)
  · rw [passes_iff_of_unit? (h.kept x hin), ← hseen x hx]
    exact or_iff_left hin

end Passed

theorem Follows.prepend {before : List (Visit UnitId)}
    (h : t.forEach p.turn (nodes before) = (t', .ok ()))
    (hopens : ∀ v ∈ order, t'.unit? v.node = t.unit? v.node)
    (hfollows : p.Follows t' path order log s' r) :
    p.Follows t path (before ++ order) (nodes before ++ log) s' r := by
  cases hfollows with
  | all hturns =>
    rw [← nodes_append]
    refine .all ?_
    rw [nodes_append, forEach_append h, hturns]
  | @upTo first after v below log t₁ t₂ e horder habove hturns hturn hlog =>
    subst horder
    rw [← List.append_assoc]
    have hv := hopens v (by simp)
    refine .upTo rfl habove ?_ hturn ?_
    · rw [nodes_append, forEach_append h, hturns]
    · rw [opens_iff_of_unit? hv, refuses_iff_of_unit? hv] at hlog
      rcases hlog with ⟨hopen, rfl⟩ | ⟨hrefuse, rfl⟩
      · exact .inl ⟨hopen, by simp⟩
      · exact .inr ⟨hrefuse, by simp⟩

/-- A search under way: the store is that of the turns taken so far, but for the units that wait. -/
structure Midway (p : Phase) (next : UnitId → List UnitId) (region : Set UnitId) (t : Store)
    (path : List UnitId) (seen : Set UnitId) (s : Store) : Prop where
  store : s = t.mark p.during path
  covers : p.Covers next region s
  path : ∀ x ∈ path, x ∈ region
  seen : ∀ x ∈ region, x ∈ seen ↔ p.Passes s x

namespace Midway

theorem seen_of_path (hp : p.Lawful) (h : p.Midway next region t path seen s) (hx : x ∈ path) :
    x ∈ seen := by
  have hregion := h.path x hx
  refine (h.seen x hregion).mpr ?_
  have hthere := h.covers.there x hregion
  rw [h.store] at hthere ⊢
  exact passes_mark hp hx hthere

/-- A unit that was not seen is as the turns left it. -/
theorem unit?_eq (hp : p.Lawful) (h : p.Midway next region t path seen s) (hx : x ∉ seen) :
    s.unit? x = t.unit? x := by
  rw [h.store, Store.unit?_mark, if_neg fun hpath => hx (h.seen_of_path hp hpath)]

theorem not_seen (h : p.Midway next region t path seen s) (hx : x ∈ region)
    (hunit : s.unit? x = some unit) (hanswer : p.answer unit ≠ some (.ok ())) : x ∉ seen := by
  intro hseen
  obtain ⟨other, hother, hpass⟩ := (h.seen x hx).mp hseen
  cases hunit.symm.trans hother
  exact hanswer hpass

theorem enter (hp : p.Lawful) (h : p.Midway next region t path seen s) (hx : x ∈ region) :
    p.Midway next region t (x :: path) (insert x seen) (s.setStatus x p.during) where
  store := by rw [h.store]; rfl
  covers := (passed_begin hp (h.covers.there x hx)).covers (hp.forth_begin s x) h.covers
  path y hy := by
    rcases List.mem_cons.mp hy with rfl | hy
    · exact hx
    · exact h.path y hy
  seen y hy := by
    rw [← (passed_begin hp (h.covers.there x hx)).seen_iff h.seen y hy, List.mem_singleton,
      Set.mem_insert_iff, or_comm]

/-- The turn of a unit, after those that it leads to took theirs. -/
theorem turn_eq (hp : p.Lawful) (h : p.Midway next region t path seen s) (hx : x ∉ seen)
    {inner : List (Visit UnitId)} {todo : List UnitId}
    (hinner : Search next (insert x seen) (x :: path) todo inner)
    (hthere : ∀ y ∈ nodes inner, (t.unit? y).isSome = true)
    (hunit : s.unit? x = some unit) (hanswer : p.answer unit = none)
    (hturns : t.forEach p.turn (nodes inner) = (t', .ok ()))
    (hturn : settle x (p.act (t'.mark p.during (x :: path)) x unit) = (s₂, r)) :
    ∃ t₂, p.turn t' x = (t₂, r) ∧ s₂ = t₂.mark p.during path := by
  have hself : t'.unit? x = some unit := by
    rw [(forEach_turn hp hthere hturns).2 x fun hin => hinner.not_seen hin (.inl rfl),
      ← h.unit?_eq hp hx, hunit]
  rw [settle_mark hp fun hpath => hx (h.seen_of_path hp hpath)] at hturn
  obtain ⟨hs₂, hr⟩ := Prod.mk.inj hturn
  refine ⟨_, ?_, hs₂.symm⟩
  unfold turn
  rw [hself]
  simp only [hanswer]
  exact Prod.ext rfl hr

theorem there (h : p.Midway next region t path seen s) (hx : x ∈ region) :
    (t.unit? x).isSome = true := by
  have hthere := h.covers.there x hx
  rw [h.store, (Store.sameShape_mark p.during path t).isSome] at hthere
  exact hthere

theorem region_of_inner (h : p.Midway next region t path seen s)
    (horder : Search next seen path todo order) (htodo : ∀ x ∈ todo, x ∈ region)
    (hx : x ∈ nodes order) : x ∈ region := by
  obtain ⟨a, ha, hway⟩ := horder.reached hx
  exact mem_of_path h.covers.closed (htodo a ha) hway

end Midway

/-- Whatever a search gets to do is done by turns in depth-first order. -/
def Explained (p : Phase) (next : UnitId → List UnitId) (region : Set UnitId) (s : Store)
    (targets : List (Except LoadError UnitId)) (log : List UnitId) (s' : Store)
    (r : Except LoadError Unit) : Prop :=
  ∀ (t : Store) (path : List UnitId) (seen : Set UnitId) (todo : List UnitId)
    (order : List (Visit UnitId)), p.Midway next region t path seen s → targets = todo.map .ok →
    (∀ x ∈ todo, x ∈ region) → Search next seen path todo order →
    ∃ t', p.Follows t path order log t' r ∧ s' = t'.mark p.during path

theorem exists_rest {targets : List (Except LoadError UnitId)} {todo : List UnitId}
    (h : .ok x :: targets = todo.map Except.ok) :
    ∃ rest, todo = x :: rest ∧ targets = rest.map .ok := by
  cases todo with
  | nil => cases h
  | cons y rest => cases h; exact ⟨rest, rfl, rfl⟩

namespace Explained

variable {rest : List (Except LoadError UnitId)} {inner outer : List UnitId}

theorem pass (hanswer : p.answer? s x = some (.ok ()))
    (h : p.Explained next region s rest log s' r) :
    p.Explained next region s (.ok x :: rest) log s' r := by
  intro t path seen todo order hmid htargets htodo horder
  obtain ⟨todo, rfl, hrest⟩ := exists_rest htargets
  have hx := htodo x List.mem_cons_self
  obtain ⟨unit, hunit⟩ := Option.isSome_iff_exists.mp (hmid.covers.there x hx)
  unfold answer? at hanswer
  rw [hunit] at hanswer
  have hseen := (hmid.seen x hx).mpr ⟨unit, hunit, hanswer⟩
  cases horder with
  | skip _ hlater =>
    exact h t path seen todo order hmid hrest (fun y hy => htodo y (List.mem_cons_of_mem _ hy)) hlater
  | enter hnew => exact absurd hseen hnew

theorem refuse (hp : p.Lawful) (hanswer : p.answer? s x = some (.error e)) :
    p.Explained next region s (.ok x :: rest) [] s (.error e) := by
  intro t path seen todo order hmid htargets htodo horder
  obtain ⟨todo, rfl, hrest⟩ := exists_rest htargets
  have hx := htodo x List.mem_cons_self
  obtain ⟨unit, hunit⟩ := Option.isSome_iff_exists.mp (hmid.covers.there x hx)
  unfold answer? at hanswer
  rw [hunit] at hanswer
  change p.answer unit = some (.error e) at hanswer
  have hnew := hmid.not_seen hx hunit (by rw [hanswer]; simp)
  have hself := (hmid.unit?_eq hp hnew).symm.trans hunit
  cases horder with
  | skip hseen => exact absurd hseen hnew
  | @enter _ _ _ _ inner outer _ hinner _ =>
    -- a unit that refuses leads nowhere, so it is the first one to be left
    rw [hmid.covers.ends x hx e ⟨unit, hunit, hanswer⟩] at hinner
    cases hinner
    have hturn : p.turn t x = (t, .error e) := by
      unfold turn
      rw [hself]
      simp only [hanswer]
    have hnone : t.forEach p.turn (nodes []) = (t, .ok ()) := rfl
    have hfollows : p.Follows t path ([] ++ ⟨x, path⟩ :: outer) [] (t.mark (.errored e) [])
        (.error e) := .upTo rfl rfl hnone hturn (.inr ⟨⟨unit, hself, hanswer⟩, rfl⟩)
    exact ⟨t, hfollows, hmid.store⟩

/-- What a search does below a unit that it enters. -/
theorem inside (hp : p.Lawful) (hunit : s.unit? x = some unit) (hanswer : p.answer unit = none)
    (h : p.Explained next region (s.setStatus x p.during) (s.targets unit) inner s₁ r)
    {t : Store} {path : List UnitId} {seen : Set UnitId} {todo : List UnitId}
    {order : List (Visit UnitId)} (hmid : p.Midway next region t path seen s) (hx : x ∈ region)
    (horder : Search next seen path (x :: todo) order) :
    x ∉ seen ∧ ∃ first later, order = first ++ ⟨x, path⟩ :: later ∧
      Search next (insert x seen) (x :: path) (next x) first ∧
      Search next (insert x seen ∪ {y | y ∈ nodes first}) path todo later ∧
      (∀ y ∈ nodes first, y ∈ region) ∧
      ∃ t', p.Follows t (x :: path) first inner t' r ∧ s₁ = t'.mark p.during (x :: path) := by
  have hnew := hmid.not_seen hx hunit (by rw [hanswer]; simp)
  refine ⟨hnew, ?_⟩
  cases horder with
  | skip hseen => exact absurd hseen hnew
  | @enter _ _ _ _ first later _ hfirst hlater =>
    have hwithin := hmid.enter hp hx
    have hnext := hmid.covers.closed x hx
    exact ⟨first, later, rfl, hfirst, hlater, fun y hy => hwithin.region_of_inner hfirst hnext hy,
      h _ _ _ _ _ hwithin (hmid.covers.leads x hx unit hunit hanswer) hnext hfirst⟩

theorem enter (hp : p.Lawful) (hunit : s.unit? x = some unit) (hanswer : p.answer unit = none)
    (hforth : p.Forth s s₂)
    (h : p.Explained next region (s.setStatus x p.during) (s.targets unit) inner s₁ (.ok ()))
    (hturn : settle x (p.act s₁ x unit) = (s₂, .ok ()))
    (h' : p.Explained next region s₂ rest outer s' r) :
    p.Explained next region s (.ok x :: rest) (inner ++ x :: outer) s' r := by
  intro t path seen todo order hmid htargets htodo horder
  obtain ⟨todo, rfl, hrest⟩ := exists_rest htargets
  have hx := htodo x List.mem_cons_self
  obtain ⟨hnew, first, later, rfl, hfirst, hlater, hin, t₁, hfollows, rfl⟩ :=
    inside hp hunit hanswer h hmid hx horder
  cases hfollows with
  | all hturns =>
    obtain ⟨t₂, hself, rfl⟩ := hmid.turn_eq hp hnew hfirst (fun y hy => hmid.there (hin y hy))
      hunit hanswer hturns hturn
    have hall : t.forEach p.turn (nodes (first ++ [⟨x, path⟩])) = (t₂, .ok ()) := by
      rw [nodes_append, forEach_append hturns]
      simp only [nodes_cons, nodes_nil, Store.forEach, hself]
    have hunits : ∀ y ∈ nodes (first ++ [⟨x, path⟩]), y ∈ region ∧ y ∉ path := by
      intro y hy
      rw [nodes_append, List.mem_append, nodes_cons, nodes_nil, List.mem_singleton] at hy
      rcases hy with hy | rfl
      · exact ⟨hin y hy, fun hpath =>
          hfirst.not_seen hy (.inr (hmid.seen_of_path hp hpath))⟩
      · exact ⟨hx, fun hpath => hnew (hmid.seen_of_path hp hpath)⟩
    have hthere : ∀ y ∈ nodes (first ++ [⟨x, path⟩]), (t.unit? y).isSome = true :=
      fun y hy => hmid.there (hunits y hy).1
    have hpassed := passed_mark hp hthere (fun y hy => (hunits y hy).2) hall
    rw [← hmid.store] at hpassed
    have hseen : ∀ y, y ∈ insert x seen ∪ {y | y ∈ nodes first} ↔
        y ∈ seen ∨ y ∈ nodes (first ++ [⟨x, path⟩]) := by
      intro y
      rw [nodes_append, List.mem_append, nodes_cons, nodes_nil, List.mem_singleton]
      exact ⟨fun h => by rcases h with (rfl | h) | h <;> tauto,
        fun h => by rcases h with h | h | rfl <;> simp_all⟩
    have hlater' : p.Midway next region t₂ path (insert x seen ∪ {y | y ∈ nodes first})
        (t₂.mark p.during path) := ⟨rfl, hpassed.covers hforth hmid.covers, hmid.path,
      fun y hy => (hseen y).trans (hpassed.seen_iff hmid.seen y hy)⟩
    obtain ⟨t', hfollows, hs'⟩ := h' t₂ path _ todo later hlater' hrest
      (fun y hy => htodo y (List.mem_cons_of_mem _ hy)) hlater
    refine ⟨t', ?_, hs'⟩
    have hall' := Follows.prepend hall (fun v hv => ?_) hfollows
    · simpa using hall'
    · have hnot := hlater.not_seen (mem_nodes.mpr ⟨v, hv, rfl⟩)
      rw [hseen] at hnot
      exact (forEach_turn hp hthere hall).2 v.node fun hin => hnot (.inr hin)

theorem fail (hp : p.Lawful) (hunit : s.unit? x = some unit) (hanswer : p.answer unit = none)
    (h : p.Explained next region (s.setStatus x p.during) (s.targets unit) inner s₁ (.ok ()))
    (hturn : settle x (p.act s₁ x unit) = (s₂, .error e)) :
    p.Explained next region s (.ok x :: rest) (inner ++ [x]) s₂ (.error e) := by
  intro t path seen todo order hmid htargets htodo horder
  obtain ⟨todo, rfl, hrest⟩ := exists_rest htargets
  have hx := htodo x List.mem_cons_self
  obtain ⟨hnew, first, later, rfl, hfirst, -, hin, t₁, hfollows, rfl⟩ :=
    inside hp hunit hanswer h hmid hx horder
  cases hfollows with
  | all hturns =>
    obtain ⟨t₂, hself, rfl⟩ := hmid.turn_eq hp hnew hfirst (fun y hy => hmid.there (hin y hy))
      hunit hanswer hturns hturn
    have hopens : p.Opens t x := ⟨unit, (hmid.unit?_eq hp hnew).symm.trans hunit, hanswer⟩
    have hfollows : p.Follows t path (first ++ ⟨x, path⟩ :: later) (nodes first ++ [x])
        (t₂.mark (.errored e) []) (.error e) := .upTo rfl rfl hturns hself (.inl ⟨hopens, rfl⟩)
    exact ⟨t₂, hfollows, rfl⟩

theorem abort (hp : p.Lawful) (hunit : s.unit? x = some unit) (hanswer : p.answer unit = none)
    (h : p.Explained next region (s.setStatus x p.during) (s.targets unit) inner s₁ (.error e)) :
    p.Explained next region s (.ok x :: rest) inner (s₁.setStatus x (.errored e)) (.error e) := by
  intro t path seen todo order hmid htargets htodo horder
  obtain ⟨todo, rfl, hrest⟩ := exists_rest htargets
  have hx := htodo x List.mem_cons_self
  obtain ⟨hnew, first, later, rfl, -, -, -, t₁, hfollows, rfl⟩ :=
    inside hp hunit hanswer h hmid hx horder
  cases hfollows with
  | @upTo before after v below _ t₁ t₂ _ hfirst habove hturns hturn hlog =>
    subst hfirst
    have hpath : x ∉ path := fun hpath => hnew (hmid.seen_of_path hp hpath)
    -- the unit itself is the last of those below the path that keep the error
    have hstore : ((t₂.mark (.errored e) below).mark p.during (x :: path)).setStatus x (.errored e) =
        (t₂.mark (.errored e) (below ++ [x])).mark p.during path := by
      change (((t₂.mark (.errored e) below).mark p.during path).setStatus x p.during).setStatus x
        (.errored e) = _
      rw [Store.setStatus_setStatus, Store.setStatus_mark _ _ hpath, Store.setStatus_mark_self]
    have habove' : v.above = (below ++ [x]) ++ path := by simp [habove]
    exact ⟨_, .upTo (List.append_assoc before (v :: after) _) habove' hturns hturn hlog, hstore⟩

end Explained

/-- A search does what turns do that are taken in depth-first order. -/
theorem Runs.explained (hp : p.Lawful) {targets : List (Except LoadError UnitId)}
    (h : p.Runs s targets log s' r) : p.Explained next region s targets log s' r := by
  induction h with
  | done =>
    intro t path seen todo order hmid htargets htodo horder
    cases List.map_eq_nil_iff.mp htargets.symm
    cases horder
    exact ⟨t, .all rfl, hmid.store⟩
  | broken =>
    intro t path seen todo order hmid htargets
    cases todo with
    | nil => cases htargets
    | cons x todo => cases htargets
  | pass hanswer _ ih => exact .pass hanswer ih
  | refuse hanswer => exact .refuse hp hanswer
  | enter hunit hanswer hruns hturn hlater ihinner ihouter =>
    have hforth := (hp.forth_begin _ _).trans ((hruns.forth hp).trans (hp.forth_turn hturn))
    exact .enter hp hunit hanswer hforth ihinner hturn ihouter
  | fail hunit hanswer _ hturn ih => exact .fail hp hunit hanswer ih hturn
  | abort hunit hanswer _ ih => exact .abort hp hunit hanswer ih

/-- A search from one unit is done by turns in depth-first order. -/
theorem Runs.follows (hp : p.Lawful) (h : p.Runs s [.ok x] log s' r)
    (hcovers : p.Covers next region s) (hx : x ∈ region)
    (hseen : ∀ y ∈ region, y ∈ seen ↔ p.Passes s y)
    (horder : Search next seen [] [x] order) : p.Follows s [] order log s' r := by
  have hmid : p.Midway next region s [] seen s :=
    ⟨rfl, hcovers, fun _ h => absurd h List.not_mem_nil, hseen⟩
  obtain ⟨t, hfollows, hs'⟩ := h.explained hp s [] _ [x] order hmid rfl
    (fun y hy => List.mem_singleton.mp hy ▸ hx) horder
  cases hs'
  exact hfollows

theorem turn_others (hp : p.Lawful) (hne : x ≠ y) : (p.turn s x).1.unit? y = s.unit? y := by
  unfold turn
  split
  next => rfl
  next unit _ =>
    split
    next => rfl
    next =>
      cases hturn : settle x (p.act s x unit) with
      | mk s' r => exact hp.unit?_turn hturn hne

/-- The units after a search that ended with the turn of `v`. -/
structure Ended (p : Phase) (s : Store) (before : List (Visit UnitId)) (v : Visit UnitId)
    (e : LoadError) (s' : Store) : Prop where
  passed : ∀ x ∈ nodes before, p.Passes s' x
  waited : ∀ x ∈ v.above, s'.unit? x = (s.unit? x).map (ModuleUnit.withStatus (.errored e))
  /-- The unit has failed now, or it had before. -/
  failed : p.Refuses s v.node e ∧ s'.unit? v.node = s.unit? v.node ∨
    p.Opens s v.node ∧ ∃ unit : ModuleUnit, s'.unit? v.node = some (unit.withStatus (.errored e))
  kept : ∀ x, x ∉ nodes before → x ≠ v.node → x ∉ v.above → s'.unit? x = s.unit? x

/-- A turn that fails leaves a unit that has failed. -/
theorem turn_error (hp : p.Lawful) (hunit : (s.unit? x).isSome = true)
    (h : p.turn s x = (s', .error e)) : p.Refuses s x e ∧ s'.unit? x = s.unit? x ∨
      p.Opens s x ∧ ∃ unit : ModuleUnit, s'.unit? x = some (unit.withStatus (.errored e)) := by
  obtain ⟨unit, hx⟩ := Option.isSome_iff_exists.mp hunit
  unfold turn at h
  rw [hx] at h
  simp only at h
  split at h
  next r hanswer =>
    cases h
    exact .inl ⟨⟨unit, hx, hanswer⟩, rfl⟩
  next hanswer =>
    rcases settle_cases h with ⟨status, -, -, hr⟩ | ⟨e', -, rfl, hr⟩
    · cases hr
    · cases hr
      have hsome := (hp.shape s x unit).isSome x
      rw [hunit] at hsome
      obtain ⟨unit', hunit'⟩ := Option.isSome_iff_exists.mp hsome
      exact .inr ⟨⟨unit, hx, hanswer⟩, unit', by rw [unit?_setStatus, if_pos rfl, hunit']; rfl⟩

theorem ended_of_turns (hp : p.Lawful) {before after : List (Visit UnitId)} {v : Visit UnitId}
    (horder : Search next seen [] todo (before ++ v :: after))
    (hthere : ∀ x ∈ nodes (before ++ v :: after), (s.unit? x).isSome = true)
    (hturns : s.forEach p.turn (nodes before) = (t, .ok ()))
    (hturn : p.turn t v.node = (t', .error e)) :
    p.Ended s before v e (t'.mark (.errored e) v.above) := by
  have hnodup := horder.nodup
  rw [nodes_append, nodes_cons, List.nodup_append, List.nodup_cons] at hnodup
  obtain ⟨-, ⟨hself, -⟩, hapart⟩ := hnodup
  have hbefore : ∀ x ∈ nodes before, (s.unit? x).isSome = true :=
    fun x hx => hthere x (by simp [hx])
  obtain ⟨hpass, hkept⟩ := forEach_turn hp hbefore hturns
  have hother : ∀ {x}, v.node ≠ x → t'.unit? x = t.unit? x := by
    intro x hne
    have h := turn_others (p := p) (s := t) hp hne
    rwa [hturn] at h
  -- the units that wait are left after the one that failed
  have habove : ∀ {x}, x ∈ v.above → x ∉ nodes before ∧ v.node ≠ x := by
    intro x hx
    have hlater : x ∈ nodes after := (horder.above_later rfl hx).resolve_left List.not_mem_nil
    exact ⟨fun hin => hapart x hin x (List.mem_cons_of_mem _ hlater) rfl,
      fun hne => hself (hne ▸ hlater)⟩
  have hnode : v.node ∉ nodes before := fun hin => hapart _ hin _ List.mem_cons_self rfl
  have hmark : ∀ {x}, x ∉ v.above → (t'.mark (.errored e) v.above).unit? x = t'.unit? x :=
    fun hx => by rw [Store.unit?_mark, if_neg hx]
  refine ⟨fun x hx => ?_, fun x hx => ?_, ?_, fun x hx hne hout => ?_⟩
  · refine (passes_iff_of_unit? ?_).mpr (hpass x hx)
    rw [hmark fun hin => (habove hin).1 hx, hother fun heq => hnode (heq ▸ hx)]
  · rw [Store.unit?_mark, if_pos hx, hother (habove hx).2, hkept x (habove hx).1]
  · have hsame := hkept v.node hnode
    have hout : v.node ∉ v.above := fun hin => (habove hin).2 rfl
    rw [hmark hout, ← refuses_iff_of_unit? hsame, ← opens_iff_of_unit? hsame, ← hsame]
    refine turn_error hp ?_ hturn
    rw [hsame]
    exact hthere v.node (by simp)
  · rw [hmark hout, hother (Ne.symm hne), hkept x hx]

end Phase

end ModuleLoader
