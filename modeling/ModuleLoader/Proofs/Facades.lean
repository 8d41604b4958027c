import ModuleLoader.Proofs.Acyclic
import ModuleLoader.Proofs.Deeds
import ModuleLoader.Proofs.Ownership
/-!
# Libraries as modules

A bridge to a table leads to nothing and cannot fail, so a search that gets to it has done with it at
once. It is filled by the first evaluation that finds it instantiated, and nobody else writes to its
exports but the host.

Results:
1. `Sustains`, `Runs.sustains`: what is kept by scripts that go on and by bridges that are done with at once.
2. `Turning`: the store in which a unit takes its turn.
3. `Facade`: how a bridge to a table stands, and what its exports hold.
4. `Facade.evaluate`, `Facade.turning`: an evaluation leaves it as it is or fills it, and fills it
   before the body of any script runs that depends on it.
5. `Facade.enact`: nothing else that a loader does to units matters to it.
-/
namespace ModuleLoader

namespace Phase

variable {p : Phase} {P : Store → Prop} {s s' s₁ t : Store} {x y : UnitId} {unit : ModuleUnit}
  {targets : List (Except LoadError UnitId)} {log : List UnitId} {r : Except LoadError Unit}

/-! ## Bridges are leaves -/

/-- What is kept when a script is entered, takes its turn or gives up, and when a bridge is entered and
takes its turn. Nothing happens between the two, as a bridge leads to no unit. -/
structure Sustains (p : Phase) (P : Store → Prop) : Prop where
  manifests : ∀ {s}, P s → s.NoManifests
  begin : ∀ {s x u}, P s → s.unit? x = some (.script u) → p.answer (.script u) = none →
    P (s.setStatus x p.during)
  turn : ∀ {s x s' r} {u : ScriptUnit}, P s → s.unit? x = some (.script { u with status := p.during }) →
    p.answer (.script u) = none → settle x (p.act s x (.script u)) = (s', r) → P s'
  giveUp : ∀ {s x} {u : ScriptUnit} (e : LoadError), P s →
    s.unit? x = some (.script { u with status := p.during }) → P (s.setStatus x (.errored e))
  bridge : ∀ {s x b s' r}, P s → s.unit? x = some (.bridge b) → p.answer (.bridge b) = none →
    settle x (p.act (s.setStatus x p.during) x (.bridge b)) = (s', r) → P s'

/-- A unit that was entered is marked until it takes its turn. -/
theorem Runs.self (hp : p.Lawful) (hunit : s.unit? x = some unit)
    (h : p.Runs (s.setStatus x p.during) targets log s₁ r) :
    s₁.unit? x = some (unit.withStatus p.during) := by
  rw [h.kept hp hp.shut_begin, unit?_setStatus, if_pos rfl, hunit]
  rfl

theorem Sustains.entered (hp : p.Lawful) (hk : p.Sustains P) (hs : P s) (hunit : s.unit? x = some unit)
    (hanswer : p.answer unit = none)
    (hinner : p.Runs (s.setStatus x p.during) (s.targets unit) log s₁ (.ok ()))
    (ih : P (s.setStatus x p.during) → P s₁) (hturn : settle x (p.act s₁ x unit) = (s', r)) :
    P s' := by
  cases unit with
  | script u => exact hk.turn (ih (hk.begin hs hunit hanswer)) (hinner.self hp hunit) hanswer hturn
  | bridge b =>
    rw [show s.targets (.bridge b) = [] from rfl] at hinner
    cases hinner
    exact hk.bridge hs hunit hanswer hturn
  | manifest m => exact absurd hunit (hk.manifests hs x m)

theorem Runs.sustains (hp : p.Lawful) (hk : p.Sustains P) (h : p.Runs s targets log s' r) (hs : P s) :
    P s' := by
  induction h with
  | done => exact hs
  | broken => exact hs
  | pass _ _ ih => exact ih hs
  | refuse => exact hs
  | enter hunit hanswer hinner hturn _ ihinner ihouter =>
    exact ihouter (hk.entered hp hs hunit hanswer hinner ihinner hturn)
  | fail hunit hanswer hinner hturn ih => exact hk.entered hp hs hunit hanswer hinner ih hturn
  | @abort s s₁ x unit rest inner e hunit hanswer hinner ih =>
    cases unit with
    | script u => exact hk.giveUp e (ih (hk.begin hs hunit hanswer)) (hinner.self hp hunit)
    | bridge b =>
      rw [show s.targets (.bridge b) = [] from rfl] at hinner
      cases hinner
    | manifest m => exact absurd hunit (hk.manifests hs x m)

/-! ## The store of a turn -/

/-- In the course of a search a unit takes its turn in some store. -/
inductive Turning (p : Phase) : Store → List (Except LoadError UnitId) → UnitId → Store → Prop
  | here {s t : Store} {x : UnitId} {unit : ModuleUnit} {rest : List (Except LoadError UnitId)}
      {log : List UnitId} :
      s.unit? x = some unit → p.answer unit = none →
      p.Runs (s.setStatus x p.during) (s.targets unit) log t (.ok ()) →
      Turning p s (.ok x :: rest) x t
  | inside {s t : Store} {x y : UnitId} {unit : ModuleUnit} {rest : List (Except LoadError UnitId)} :
      s.unit? x = some unit → p.answer unit = none →
      Turning p (s.setStatus x p.during) (s.targets unit) y t → Turning p s (.ok x :: rest) y t
  | later {s s' t : Store} {x y : UnitId} {rest : List (Except LoadError UnitId)}
      {log : List UnitId} :
      p.Runs s [.ok x] log s' (.ok ()) → Turning p s' rest y t → Turning p s (.ok x :: rest) y t

/-- Every unit that takes its turn does so in some store. -/
theorem Runs.exists_turning (h : p.Runs s targets log s' r) (hy : y ∈ log) :
    ∃ t, p.Turning s targets y t := by
  induction h with
  | done => cases hy
  | broken => cases hy
  | pass hanswer _ ih => exact (ih hy).imp fun _ => .later (.pass hanswer .done)
  | refuse => cases hy
  | enter hunit hanswer hinner hturn _ ihinner ihouter =>
    rcases List.mem_append.mp hy with hin | hin
    · exact (ihinner hin).imp fun _ => .inside hunit hanswer
    · rcases List.mem_cons.mp hin with rfl | hin
      · exact ⟨_, .here hunit hanswer hinner⟩
      · exact (ihouter hin).imp fun _ => .later (.enter hunit hanswer hinner hturn .done)
  | fail hunit hanswer hinner _ ih =>
    rcases List.mem_append.mp hy with hin | hin
    · exact (ih hin).imp fun _ => .inside hunit hanswer
    · cases List.mem_singleton.mp hin
      exact ⟨_, .here hunit hanswer hinner⟩
  | abort hunit hanswer _ ih => exact (ih hy).imp fun _ => .inside hunit hanswer

/-- A unit takes its turn after the search over what it leads to has gone well. -/
theorem Turning.searched (hp : p.Lawful) (hk : p.Sustains P) (h : p.Turning s targets y t) (hs : P s) :
    ∃ s₀ unit log, P s₀ ∧ s₀.unit? y = some unit ∧ p.answer unit = none ∧
      p.Runs (s₀.setStatus y p.during) (s₀.targets unit) log t (.ok ()) := by
  induction h with
  | here hunit hanswer hruns => exact ⟨_, _, _, hs, hunit, hanswer, hruns⟩
  | @inside s t x y unit rest hunit hanswer hinner ih =>
    cases unit with
    | script u => exact ih (hk.begin hs hunit hanswer)
    | bridge b =>
      rw [show s.targets (.bridge b) = [] from rfl] at hinner
      cases hinner
    | manifest m => exact absurd hunit (hk.manifests hs x m)
  | later hruns _ ih => exact ih (hruns.sustains hp hk hs)

/-- What a search that went well was to get to is passed over afterwards. -/
theorem Runs.passed (hp : p.Lawful) (h : p.Runs s targets log s' r) (hr : r = .ok ())
    (hx : .ok x ∈ targets) : p.answer? s' x = some (.ok ()) := by
  -- what is passed over is not entered any more
  have hstays : ∀ {s s' targets log r}, p.answer? s x = some (.ok ()) → p.Runs s targets log s' r →
      p.answer? s' x = some (.ok ()) := by
    intro s s' targets log r hanswer hruns
    have hshut : ¬ p.Opens s x := by
      rintro ⟨unit, hunit, hopen⟩
      unfold answer? at hanswer
      rw [hunit] at hanswer
      cases hopen.symm.trans hanswer
    unfold answer? at hanswer ⊢
    rw [hruns.kept hp hshut]
    exact hanswer
  induction h with
  | done => cases hx
  | broken => cases hr
  | pass hanswer hrest ih =>
    rcases List.mem_cons.mp hx with heq | hx
    · cases heq
      exact hstays hanswer hrest
    · exact ih hr hx
  | refuse => cases hr
  | @enter s s₁ s₂ s' z unit rest inner outer r hunit hanswer hinner hturn houter _ ihouter =>
    rcases List.mem_cons.mp hx with heq | hx
    · cases heq
      refine hstays ?_ houter
      rcases settle_cases hturn with ⟨status, hact, rfl, -⟩ | ⟨e, -, -, he⟩
      · have hframe := hp.frames s₁ x unit x
        rw [hinner.self hp hunit] at hframe
        obtain ⟨old, hold, -⟩ := Option.map_eq_some_iff.mp hframe
        unfold answer?
        rw [unit?_setStatus, if_pos rfl, hold]
        exact hp.settled s₁ x unit _ status (Prod.ext rfl hact) old
      · cases he
    · exact ihouter hr hx
  | fail => cases hr
  | abort => cases hr

end Phase

/-! ## Bridges to tables -/

/-- How a bridge to a table stands: it is to be filled by its first evaluation, or it was. -/
def Bridge.Backs (b : Bridge) (table : TableId) (filled : Bool) : Prop :=
  if filled then b.executor = none ∧ b.status = .evaluated none
  else b.executor = some [.fill table] ∧ (b.status = .linked ∨ b.status = .instantiated)

namespace Store

variable {s s' t : Store} {x y root : UnitId} {exports : Scope} {table : TableId} {filled : Bool}
  {value : String → Value} {b : Bridge}

/-- What a table has for a name, if anything. -/
def tableValue (s : Store) (table : TableId) (name : String) : Value :=
  ((s.tables.read table).get? name).getD .undefined

/-- The values of the exports once the bridge is filled. -/
def filling (s : Store) (table : TableId) (filled : Bool) (value : String → Value) :
    String → Value :=
  if filled then value else s.tableValue table

/-- A unit is a bridge to a table, and its exports hold some values. -/
structure Facade (s : Store) (x : UnitId) (exports : Scope) (table : TableId) (filled : Bool)
    (value : String → Value) : Prop where
  bridge : ∃ b, s.unit? x = some (.bridge b) ∧ b.exports = exports ∧ b.Backs table filled
  holds : ∀ e ∈ exports, s.cells.read e.2 = value e.1

namespace Facade

variable (h : s.Facade x exports table filled value)

include h

theorem not_script {u : ScriptUnit} : s.unit? x ≠ some (.script u) := by
  obtain ⟨b, hb, -⟩ := h.bridge
  rw [hb]
  simp

theorem ne_of_script {u : ScriptUnit} (hu : s.unit? y = some (.script u)) : y ≠ x :=
  fun heq => h.not_script (heq ▸ hu)

theorem status_iff : s.status x = .evaluated none ↔ filled = true := by
  obtain ⟨b, hb, -, hbacks⟩ := h.bridge
  rw [status_of_unit? hb]
  show b.status = _ ↔ _
  cases filled with
  | true => simp [hbacks.2]
  | false => rcases hbacks.2 with hstatus | hstatus <;> simp [hstatus]

/-- Nothing has happened to the bridge. -/
theorem of_kept (hunit : s'.unit? x = s.unit? x)
    (hcells : ∀ e ∈ exports, s'.cells.read e.2 = s.cells.read e.2) :
    s'.Facade x exports table filled value where
  bridge := by
    rw [hunit]
    exact h.bridge
  holds e he := (hcells e he).trans (h.holds e he)

theorem setStatus (hne : y ≠ x) (status : Status) :
    (s.setStatus y status).Facade x exports table filled value :=
  h.of_kept (by rw [Phase.unit?_setStatus, if_neg hne]) fun _ _ => rfl

/-- Somebody else has written to the cells of a unit. -/
theorem of_other (howned : s.Owned) (hne : y ≠ x) {unit : ModuleUnit} (hy : s.unit? y = some unit)
    (hunit : s'.unit? x = s.unit? x) (hkept : Cells.KeptBut unit.own s.cells s'.cells) :
    s'.Facade x exports table filled value := by
  refine h.of_kept hunit fun e he => hkept.read e.2 ?_
  obtain ⟨b, hb, rfl, -⟩ := h.bridge
  exact howned.apart x y _ unit hne.symm hb hy e.2 (List.mem_map_of_mem he)

end Facade

/-- A bridge that is to be filled waits to be instantiated or evaluated. -/
theorem Facade.unfilled (h : s.Facade x exports table false value) :
    s.status x = .linked ∨ s.status x = .instantiated := by
  obtain ⟨b, hb, -, hbacks⟩ := h.bridge
  rw [status_of_unit? hb]
  exact hbacks.2

/-! ## Evaluations -/

theorem runExecutor_fill (s : Store) (x : UnitId) (h : b.executor = some [.fill table]) :
    s.runExecutor x b =
      (({ s with cells := b.exports.fill (s.tableValue table) s.cells }).changeBridge x
        fun b => { b with executor := none }, .ok ()) := by
  unfold runExecutor
  rw [h]
  rfl

/-- The bridge takes its turn: each export gets what the table has for it. -/
theorem Facade.fill (h : s.Facade x exports table filled value) (howned : s.Owned)
    (hb : s.unit? x = some (.bridge b)) (hopen : b.status = .instantiated)
    {r : Except LoadError Unit}
    (hturn : Phase.settle x (evaluation.act (s.setStatus x .evaluating) x (.bridge b)) = (s', r)) :
    s'.Facade x exports table true (s.filling table filled value) ∧ r = .ok () := by
  obtain ⟨b', hb', rfl, hbacks⟩ := h.bridge
  cases hb.symm.trans hb'
  cases filled with
  | true =>
    have hstatus := hopen.symm.trans hbacks.2
    cases hstatus
  | false =>
    simp only [evaluation, runExecutor_fill _ x hbacks.1] at hturn
    cases hturn
    refine ⟨⟨⟨{ b with executor := none, status := .evaluated none }, ?_, rfl, rfl, rfl⟩,
      fun e he => ?_⟩, rfl⟩
    · unfold changeBridge
      rw [Phase.unit?_setStatus, if_pos rfl, unit?_change, if_pos rfl]
      show Option.map _ (Option.map _ ((s.setStatus x .evaluating).unit? x)) = _
      rw [Phase.unit?_setStatus, if_pos rfl, hb]
      rfl
    · have hread := Scope.read_fill (s.tableValue table) (howned.distinct x _ hb)
        (howned.there x _ hb)
      exact (Prod.mk.inj (List.map_inj_left.mp hread e he)).2

/-- What holds in the course of an evaluation. -/
structure Watched (s : Store) (x : UnitId) (exports : Scope) (table : TableId) (filled : Bool)
    (value : String → Value) (t : Store) : Prop where
  made : t.WellMade
  bound : t.Bound
  owned : t.Owned
  tables : t.tables = s.tables
  /-- The bridge is as it was before, or it was filled from the table. -/
  facade : t.Facade x exports table filled value ∨
    t.Facade x exports table true (s.filling table filled value)

theorem filling_of_tables (h : t.tables = s.tables) :
    t.filling table filled value = s.filling table filled value := by
  unfold filling tableValue
  rw [h]

/-- The turn of a unit runs its body or its executor, and the unit keeps what comes of it. -/
theorem exists_turn_script {u : ScriptUnit} {r : Except LoadError Unit}
    (h : Phase.settle y (evaluation.act t y (.script u)) = (s', r)) :
    ∃ status, s' = (t.runBody u).1.setStatus y status := by
  rcases Phase.settle_cases h with ⟨status, -, hs, -⟩ | ⟨e, -, hs, -⟩
  · exact ⟨status, hs⟩
  · exact ⟨_, hs⟩

theorem exists_turn_bridge {r : Except LoadError Unit}
    (h : Phase.settle y (evaluation.act t y (.bridge b)) = (s', r)) :
    ∃ status, s' = (t.runExecutor y b).1.setStatus y status := by
  rcases Phase.settle_cases h with ⟨status, -, hs, -⟩ | ⟨e, -, hs, -⟩
  · exact ⟨status, hs⟩
  · exact ⟨_, hs⟩

namespace Watched

variable (h : s.Watched x exports table filled value t)

include h

/-- A script gets another status. -/
theorem setStatus {u : ScriptUnit} (hu : t.unit? y = some (.script u)) {status : Status}
    (hbound : (t.setStatus y status).Bound) :
    s.Watched x exports table filled value (t.setStatus y status) where
  made := (sameFrames_setStatus t y status).wellMade h.made
  bound := hbound
  owned := h.owned.of_frames (sameFrames_setStatus t y status) rfl
  tables := h.tables
  facade := h.facade.imp (fun hf => hf.setStatus (hf.ne_of_script hu) status)
    fun hf => hf.setStatus (hf.ne_of_script hu) status

theorem script {u : ScriptUnit} {r : Except LoadError Unit}
    (hu : t.unit? y = some (.script { u with status := .evaluating }))
    (hanswer : evaluation.answer (.script u) = none)
    (hturn : Phase.settle y (evaluation.act t y (.script u)) = (s', r)) :
    s.Watched x exports table filled value s' := by
  have hself : t.unit? y = some ((ModuleUnit.script u).withStatus evaluation.during) := hu
  have hbound := h.bound.turn_evaluation hself hanswer hturn
  obtain ⟨status, rfl⟩ := exists_turn_script hturn
  have hkeeps := t.runBody_keeps u
  have hran : s.Watched x exports table filled value (t.runBody u).1 :=
    { made := h.made
      bound := h.bound
      owned := h.owned.of_frames (fun _ => rfl) hkeeps.size
      tables := h.tables
      facade := h.facade.imp
        (fun hf => hf.of_other h.owned (hf.ne_of_script hu) hu rfl hkeeps)
        fun hf => hf.of_other h.owned (hf.ne_of_script hu) hu rfl hkeeps }
  exact hran.setStatus hu hbound

theorem bridge {r : Except LoadError Unit} (hb : t.unit? y = some (.bridge b))
    (hanswer : evaluation.answer (.bridge b) = none)
    (hturn : Phase.settle y (evaluation.act (t.setStatus y .evaluating) y (.bridge b)) = (s', r)) :
    s.Watched x exports table filled value s' := by
  have hopen : b.status = .instantiated := status_of_answer_evaluation hanswer
  have hself : (t.setStatus y .evaluating).unit? y =
      some ((ModuleUnit.bridge b).withStatus .evaluating) := by
    rw [Phase.unit?_setStatus, if_pos rfl, hb]
    rfl
  have hbound := (h.bound.begin_evaluation hb hanswer).turn_evaluation hself hanswer hturn
  have hframes := (sameFrames_setStatus t y .evaluating).trans
    ((evaluation_lawful.frames (t.setStatus y .evaluating) y (.bridge b)).trans
      (Phase.frames_settle y _))
  rw [hturn] at hframes
  have hfilled : ∀ {filled value}, t.Facade y exports table filled value →
      s'.Facade y exports table true (t.filling table filled value) :=
    fun hf => (hf.fill h.owned hb hopen hturn).1
  obtain ⟨status, hs'⟩ := exists_turn_bridge hturn
  have hkeeps : Cells.KeptBut b.exports t.cells s'.cells := by
    rw [hs']
    exact (t.setStatus y .evaluating).runExecutor_keeps y b
  have hothers : ∀ {filled value}, y ≠ x → t.Facade x exports table filled value →
      s'.Facade x exports table filled value := by
    intro filled value hne hf
    refine hf.of_other h.owned hne hb ?_ hkeeps
    rw [hs', Phase.unit?_setStatus, if_neg hne, unit?_runExecutor _ b hne, Phase.unit?_setStatus,
      if_neg hne]
  refine ⟨hframes.wellMade h.made, hbound, h.owned.of_frames hframes hkeeps.size, ?_, ?_⟩
  · rw [hs']
    exact h.tables
  · by_cases hne : y = x
    · subst hne
      rcases h.facade with hf | hf
      · exact .inr (filling_of_tables h.tables ▸ hfilled hf)
      · -- what is filled is not filled again
        have hstatus := hf.status_iff.mpr rfl
        rw [status_of_unit? hb] at hstatus
        cases hopen.symm.trans hstatus
    · exact h.facade.imp (hothers hne) (hothers hne)

end Watched

theorem watched_sustained : evaluation.Sustains (s.Watched x exports table filled value) where
  manifests h y m hm := (h.made y _ hm).elim
  begin h hu hanswer := h.setStatus hu (h.bound.begin_evaluation hu hanswer)
  turn h hu hanswer hturn := h.script hu hanswer hturn
  giveUp e h hu := h.setStatus hu (h.bound.setStatus fun hb => by cases hb)
  bridge h hb hanswer hturn := h.bridge hb hanswer hturn

theorem Facade.watched (h : s.Facade x exports table filled value) (hs : s.Consistent)
    (howned : s.Owned) : s.Watched x exports table filled value s :=
  ⟨hs.made, hs.bound, howned, rfl, .inl h⟩

/-- An evaluation leaves a bridge as it is, or fills it from the table. -/
theorem Facade.evaluate (h : s.Facade x exports table filled value) (hs : s.Consistent)
    (howned : s.Owned) (root : UnitId) :
    (s.evaluate root).1.Facade x exports table filled value ∨
      (s.evaluate root).1.Facade x exports table true (s.filling table filled value) := by
  obtain ⟨log, hruns⟩ := evaluate_runs hs.noManifests root
  exact (hruns.sustains evaluation_lawful watched_sustained (h.watched hs howned)).facade

/-- A bridge that is to be filled is not passed over. -/
theorem Facade.filled_of_passed (h : s.Facade x exports table filled value)
    (hpassed : evaluation.answer? s x = some (.ok ())) : filled = true := by
  obtain ⟨b, hb, -, hbacks⟩ := h.bridge
  unfold Phase.answer? at hpassed
  rw [hb] at hpassed
  cases filled with
  | true => rfl
  | false =>
    simp only [evaluation] at hpassed
    rcases hbacks.2 with hstatus | hstatus <;> rw [hstatus] at hpassed <;> cases hpassed

/-- When the body of a script runs that depends on the bridge, the bridge is filled. -/
theorem Facade.turning (h : s.Facade x exports table filled value) (hs : s.Consistent)
    (howned : s.Owned) (hturning : evaluation.Turning s [.ok root] y t) (hd : t.DependsOn y x) :
    t.WellMade ∧ t.Bound ∧ t.Facade x exports table true (s.filling table filled value) := by
  obtain ⟨s₀, unit, log, hbefore, hunit, hanswer, hruns⟩ :=
    hturning.searched evaluation_lawful watched_sustained (h.watched hs howned)
  obtain ⟨url, program, dependencies, hshape, specifier, hin, hlookup⟩ := hd
  obtain ⟨u, rfl, rfl, rfl⟩ : ∃ u, unit = .script u ∧ u.program = program ∧
      u.dependencies = dependencies := by
    unfold shape? at hshape
    rw [hruns.self evaluation_lawful hunit] at hshape
    cases unit with
    | script u => cases hshape; exact ⟨u, rfl, rfl, rfl⟩
    | bridge b => cases hshape
    | manifest m => cases hshape
  have hnow := hruns.sustains evaluation_lawful watched_sustained
    (watched_sustained.begin hbefore hunit hanswer)
  -- the script has got to the bridge, which is there
  have hthere : (s₀.unit? x).isSome = true := by
    rcases hbefore.facade with hf | hf <;> obtain ⟨b, hb, -⟩ := hf.bridge <;> rw [hb] <;> rfl
  have hpassed := hruns.passed evaluation_lawful rfl
    (List.mem_map.mpr ⟨specifier, hin, dependency_of_lookup hlookup hthere⟩)
  refine ⟨hnow.made, hnow.bound, ?_⟩
  rcases hnow.facade with hf | hf
  · obtain rfl := hf.filled_of_passed hpassed
    exact hf
  · exact hf

/-- The run of a bridge that is instantiated fills it, and goes well. -/
theorem Facade.run (h : s.Facade x exports table filled value) (howned : s.Owned)
    (hopen : s.status x = .instantiated) :
    (s.evaluate x).1.Facade x exports table true (s.tableValue table) ∧
      (s.evaluate x).2 = .ok none := by
  obtain ⟨b, hb, hexports, hbacks⟩ := h.bridge
  have hstatus : b.status = .instantiated := (status_of_unit? hb).symm.trans hopen
  cases filled with
  | true => cases hstatus.symm.trans hbacks.2
  | false =>
    have hfill := (h.fill howned hb hstatus (Prod.ext rfl rfl)).1
    have hrun := runExecutor_fill (s.setStatus x .evaluating) x hbacks.1
    unfold Store.evaluate evaluateWithin
    rw [hb]
    simp only [hstatus, hrun, evaluation] at hfill ⊢
    exact ⟨hfill, rfl⟩

/-! ## Everything else that a loader does -/

theorem facade_sustained : instantiation.Sustains fun t =>
    t.NoManifests ∧ t.Facade x exports table filled value where
  manifests h := h.1
  begin h hu _ := ⟨(sameFrames_setStatus _ _ _).shape.noManifests h.1,
    h.2.setStatus (h.2.ne_of_script hu) _⟩
  turn {t y s' r u} h hu hanswer hturn := by
    have hne := h.2.ne_of_script hu
    have hframes := (instantiation_lawful.frames t y (.script u)).trans (Phase.frames_settle y _)
    rw [hturn] at hframes
    refine ⟨hframes.shape.noManifests h.1, ?_⟩
    have hbound : (instantiation.act t y (.script u)).1.Facade x exports table filled value := by
      refine h.2.of_kept (unit?_bindImports t u hne) fun e _ => ?_
      dsimp only [instantiation, bindImports]
      split <;> rfl
    rcases Phase.settle_cases hturn with ⟨status, -, rfl, -⟩ | ⟨e, -, rfl, -⟩
    · exact hbound.setStatus hne _
    · exact hbound.setStatus hne _
  giveUp e h hu := ⟨(sameFrames_setStatus _ _ _).shape.noManifests h.1,
    h.2.setStatus (h.2.ne_of_script hu) _⟩
  bridge {t y b s' r} h hb hanswer hturn := by
    cases hturn
    rw [setStatus_setStatus]
    refine ⟨(sameFrames_setStatus _ _ _).shape.noManifests h.1, ?_⟩
    by_cases hne : y = x
    · subst hne
      obtain ⟨b', hb', hexports, hbacks⟩ := h.2.bridge
      cases hb.symm.trans hb'
      have hlinked : b.status = .linked := status_of_answer_instantiation hanswer
      refine ⟨⟨{ b with status := .instantiated }, ?_, hexports, ?_⟩, h.2.holds⟩
      · rw [Phase.unit?_setStatus, if_pos rfl, hb]
        rfl
      · cases filled with
        | true => cases hlinked.symm.trans hbacks.2
        | false => exact ⟨hbacks.1, .inr rfl⟩
    · exact h.2.setStatus hne _

theorem Facade.instantiate (h : s.Facade x exports table filled value) (hs : s.NoManifests)
    (root : UnitId) : (s.instantiate root).1.Facade x exports table filled value := by
  obtain ⟨log, hruns⟩ := instantiate_runs hs root
  exact (hruns.sustains instantiation_lawful facade_sustained ⟨hs, h⟩).2

/-- Whether the deed is one that loaders do. They drop no units, write to none from outside, and
leave executors and tables as they are. -/
def Deed.isOwn : Deed → Bool
  | .write .. | .install .. | .supply .. | .provide .. | .drop .. => false
  | _ => true

/-- Making, linking and wiring units leaves a bridge that is there as it is. -/
theorem Facade.prepared (h : s.Facade x exports table filled value) (hs : s.NoManifests)
    (howned : s.Owned) {deed : Deed} (hquiet : deed.isQuiet = true)
    (hunit : (s.enact deed).unit? x = s.unit? x) :
    (s.enact deed).Facade x exports table filled value := by
  refine h.of_kept hunit fun e he => read_enact hs hquiet ?_
  obtain ⟨b, hb, rfl, -⟩ := h.bridge
  exact howned.there x _ hb e he

theorem unit?_add_of_there (cells : Cells) (unit : ModuleUnit) (hx : (s.unit? x).isSome = true) :
    ({ s with cells }.add unit).1.unit? x = s.unit? x := by
  refine (unit?_add { s with cells } unit x).trans (if_neg ?_)
  rintro rfl
  exact Nat.lt_irrefl _ (Phase.lt_size_of_isSome hx)

/-- Of what a loader does to units, only an evaluation can fill a bridge, and nothing does more. -/
theorem Facade.enact (h : s.Facade x exports table filled value) (hs : s.Consistent)
    (howned : s.Owned) {deed : Deed} (hown : deed.isOwn = true) :
    (s.enact deed).Facade x exports table filled value ∨
      (s.enact deed).Facade x exports table true (s.filling table filled value) := by
  have hthere : (s.unit? x).isSome = true := by
    obtain ⟨b, hb, -⟩ := h.bridge
    rw [hb]
    rfl
  have hplain := hs.noManifests
  cases deed with
  | script url source =>
    refine .inl (h.prepared hplain howned rfl ?_)
    dsimp only [Store.enact]
    split
    next cells u _ => exact unit?_add_of_there cells _ hthere
    next => rfl
  | bridge url names executor =>
    exact .inl (h.prepared hplain howned rfl (unit?_add_of_there _ _ hthere))
  | link y =>
    refine .inl (h.prepared hplain howned rfl ?_)
    dsimp only [Store.enact]
    split
    next u hu =>
      split
      next =>
        unfold beginLink
        rw [hu]
        exact (Phase.unit?_setStatus s y .linked x).trans (if_neg (h.ne_of_script hu))
      next => rfl
    next => rfl
  | wire y specifier z =>
    refine .inl (h.prepared hplain howned rfl ?_)
    dsimp only [Store.enact]
    split
    next u hu =>
      split
      next => exact (unit?_change s y _ x).trans (if_neg (h.ne_of_script hu))
      next => rfl
    next => rfl
  | instantiate root => exact .inl (h.instantiate hplain root)
  | evaluate root => exact h.evaluate hs howned root
  | write => cases hown
  | install => cases hown
  | supply => cases hown
  | provide => cases hown
  | drop => cases hown

end Store

end ModuleLoader
