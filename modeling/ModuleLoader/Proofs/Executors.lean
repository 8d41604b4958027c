import ModuleLoader.Proofs.LiveExports
/-!
# Modules with an executor

The executor of a bridge is whatever was put into its slot last before the bridge is evaluated for the
first time after its instantiation. It is taken out of the slot before it runs, so it may put another
one there, but that one never runs: the bridge has its outcome by then, and keeps it.

Results:
1. `Bridge.Next`: the order in which a bridge gets its statuses.
2. `Bridge.early_or_runsNext`: calls run no executor, or there is one evaluation among them that does.
3. `Stands`: how far a bridge has come and what its slot holds; everything else of it stays.
4. `Stands.run`: the evaluation that runs the executor, from the store before it to the one behind it.
5. `Stands.reentered`: calls that the executor makes while it runs change nothing.
6. `Stands.handle`: a call takes a bridge further along its life, or leaves it where it is.
7. `Stands.ready`, `Stands.settled`: what all calls before the run come to, and all calls after it.
8. `one_executor`: all of it, for any names and any calls in any order.
-/
namespace ModuleLoader

open Relation (ReflTransGen)

namespace Bridge

variable {status : Status}

/-- One status follows another in the life of a bridge. -/
inductive Next : Status → Status → Prop
  | instantiated : Next .linked .instantiated
  | begun : Next .instantiated .evaluating
  | ran : Next .evaluating (.evaluated none)
  | failed (e : LoadError) : Next .evaluating (.errored e)

/-- A status is the same as another or comes after it. -/
def Forward : Status → Status → Prop := ReflTransGen Next

/-- An outcome is the last status. -/
theorem Forward.of_outcome {r : Except LoadError (Option Value)}
    (h : Forward (Store.completionStatus r) status) : status = Store.completionStatus r := by
  obtain rfl | ⟨_, hnext, -⟩ := h.cases_head
  · rfl
  · cases r <;> cases hnext

/-! ## Calls -/

/-- What can be called on a bridge: by those who import it, and by the host that made it. -/
inductive Call
  | link
  | instantiate
  | evaluate
  | get (name : String)
  | set (name : String) (v : Value)
  | install (executor : Executor)

/-- What is in the slot after some calls, as long as nothing takes it out. -/
def installed (slot : Option Executor) (calls : List Call) : Option Executor :=
  calls.foldl
    (fun slot call =>
      match call with
      | .install executor => some executor
      | _ => slot)
    slot

/-- Every evaluation comes before all instantiations. -/
def Early (calls : List Call) : Prop :=
  ∀ before after, calls = before ++ .evaluate :: after → .instantiate ∉ before

/-- The next evaluation is the first one that follows an instantiation. -/
def RunsNext (calls : List Call) : Prop := .instantiate ∈ calls ∧ Early calls

theorem Early.snoc {calls : List Call} {call : Call} (h : Early calls)
    (hcall : call = .evaluate → .instantiate ∉ calls) : Early (calls ++ [call]) := by
  intro before after heq
  rcases List.eq_nil_or_concat after with rfl | ⟨init, last, rfl⟩
  · obtain ⟨rfl, hlast⟩ := List.append_inj' heq rfl
    exact hcall (List.singleton_inj.mp hlast)
  · rw [List.concat_eq_append, ← List.cons_append, ← List.append_assoc] at heq
    exact h before init (List.append_inj' heq rfl).1

/-- Among calls there is a first evaluation that follows an instantiation, or there is none. -/
theorem early_or_runsNext (calls : List Call) :
    Early calls ∨ ∃ before after, calls = before ++ .evaluate :: after ∧ RunsNext before := by
  induction calls using List.reverseRecOn with
  | nil => exact .inl fun before after h => absurd h (by simp)
  | append_singleton calls call ih =>
    rcases ih with hearly | ⟨before, after, rfl, hready⟩
    · by_cases hrun : call = .evaluate ∧ .instantiate ∈ calls
      · exact .inr ⟨calls, [], by rw [hrun.1], hrun.2, hearly⟩
      · exact .inl (hearly.snoc fun hcall hin => hrun ⟨hcall, hin⟩)
    · exact .inr ⟨before, after ++ [call], by simp, hready⟩

/-- Behind the first of these instantiations there is no evaluation. -/
theorem RunsNext.split {calls : List Call} (h : RunsNext calls) :
    ∃ before after, calls = before ++ .instantiate :: after ∧ .instantiate ∉ before ∧
      .evaluate ∉ after := by
  obtain ⟨before, after, rfl, hfirst⟩ := List.eq_append_cons_of_mem h.1
  refine ⟨before, after, rfl, hfirst, fun hin => ?_⟩
  obtain ⟨front, back, rfl⟩ := List.append_of_mem hin
  exact h.2 (before ++ .instantiate :: front) back (by simp) (by simp)

end Bridge

namespace Store

open Bridge (Early RunsNext Forward installed early_or_runsNext)

variable {s : Store} {x : UnitId} {b : Bridge} {status : Status} {slot : Option Executor}
  {calls : List Bridge.Call} {r : Except LoadError (Option Value)} {name : String}

def handle (s : Store) (x : UnitId) : Bridge.Call → Store
  | .link => (s.beginLink x).1
  | .instantiate => (s.instantiate x).1
  | .evaluate => (s.evaluate x).1
  | .get _ => s
  | .set name v => s.reflect x name v
  | .install executor => s.changeBridge x fun b => { b with executor := some executor }

def handleAll (s : Store) (x : UnitId) (calls : List Bridge.Call) : Store :=
  calls.foldl (fun s call => s.handle x call) s

/-- What a write to an export answers. -/
def reflected? (s : Store) (x : UnitId) (name : String) : Option (Except LoadError Unit) :=
  (s.bridge? x).map fun b => (exportCell b name).map fun _ => ()

/-- The executor that an evaluation would run now. -/
def due? (s : Store) (x : UnitId) : Option Executor :=
  (s.bridge? x).bind fun b =>
    match b.status with
    | .instantiated => b.executor
    | _ => none

/-- The executors that some calls run, in the order in which they do. -/
def executed (s : Store) (x : UnitId) : List Bridge.Call → List Executor
  | [] => []
  | .evaluate :: rest => (s.due? x).toList ++ (s.handle x .evaluate).executed x rest
  | call :: rest => (s.handle x call).executed x rest

/-- What comes of the executor in a slot: the cells and the slot behind its run, and its outcome. -/
def runOf (s : Store) (b : Bridge) (slot : Option Executor) : Slot × Except LoadError Unit :=
  perform s.tables b ⟨s.cells, none⟩ (slot.getD [])

/-- A bridge stands somewhere in its life, with something in its slot, and its cells are there. -/
structure Stands (s : Store) (x : UnitId) (b : Bridge) (status : Status) (slot : Option Executor) :
    Prop where
  unit : s.unit? x = some (.bridge { b with status, executor := slot })
  there : ∀ e ∈ b.exports, e.2.index < s.cells.values.size

/-! ## One call -/

/-- What an executor does depends on the exports and the URL of its bridge only. -/
theorem perform_of_frame (tables : Tables) (b : Bridge) (status : Status)
    (executor : Option Executor) (state : Slot) (effects : Executor) :
    perform tables { b with status, executor } state effects = perform tables b state effects := by
  induction effects generalizing state with
  | nil => rfl
  | cons effect rest ih =>
    have heffect : performEffect tables { b with status, executor } state effect =
        performEffect tables b state effect := by
      cases effect <;> rfl
    unfold perform
    rw [heffect]
    cases performEffect tables b state effect with
    | ok next => exact ih next
    | error e => rfl

namespace Stands

variable (h : s.Stands x b status slot)

include h

theorem bridge? : s.bridge? x = some { b with status, executor := slot } :=
  bridge?_eq_some.mpr h.unit

theorem setStatus (status' : Status) : (s.setStatus x status').Stands x b status' slot where
  unit := by
    rw [Phase.unit?_setStatus, if_pos rfl, h.unit]
    rfl
  there := h.there

theorem link : s.beginLink x = (s, .ok []) := by
  unfold beginLink
  rw [h.unit]

theorem instantiate_linked (hlinked : status = .linked) :
    s.instantiate x = (s.setStatus x .instantiated, .ok ()) := by
  subst hlinked
  unfold instantiate instantiateWithin
  rw [h.unit]

theorem instantiate_past (hpast : status ≠ .linked) : s.instantiate x = (s, .ok ()) := by
  unfold instantiate instantiateWithin
  rw [h.unit]
  cases status <;> first | rfl | exact absurd rfl hpast

theorem evaluate_past (hpast : status ≠ .instantiated) :
    s.evaluate x = (s, replay b.url status) := by
  unfold evaluate evaluateWithin
  rw [h.unit]
  cases status <;> first | rfl | exact absurd rfl hpast

/-- Whoever calls a bridge while its executor runs is answered at once, and changes nothing. -/
theorem reentered (hrunning : status = .evaluating) :
    s.beginLink x = (s, .ok []) ∧ s.instantiate x = (s, .ok ()) ∧ s.evaluate x = (s, .ok none) := by
  subst hrunning
  exact ⟨h.link, h.instantiate_past (by simp), h.evaluate_past (by simp)⟩

/-- The evaluation of a bridge that is instantiated takes the executor out of the slot and runs it. -/
theorem run (hopen : status = .instantiated) :
    let ran := s.runOf b slot
    (s.evaluate x).2 = ran.2.map (fun _ => none) ∧ (s.evaluate x).1.cells = ran.1.cells ∧
      (s.evaluate x).1.Stands x b (completionStatus (ran.2.map fun _ => none)) ran.1.executor := by
  subst hopen
  have hkept := perform_keeps s.tables b ⟨s.cells, none⟩ (slot.getD [])
  rw [show perform s.tables b ⟨s.cells, none⟩ (slot.getD []) = s.runOf b slot from rfl] at hkept
  generalize hran : s.runOf b slot = ran at hkept ⊢
  obtain ⟨state, result⟩ := ran
  intro ran
  have hrun : (s.setStatus x .evaluating).runExecutor x
      { b with status := .instantiated, executor := slot } =
        ({ s.setStatus x .evaluating with cells := state.cells }.changeBridge x
          fun b => { b with executor := state.executor }, result) := by
    unfold runExecutor
    rw [perform_of_frame]
    exact congrArg (fun ran : Slot × Except LoadError Unit =>
      ({ s.setStatus x .evaluating with cells := ran.1.cells }.changeBridge x
        fun b => { b with executor := ran.1.executor }, ran.2)) hran
  have hevaluate : s.evaluate x =
      (({ s.setStatus x .evaluating with cells := state.cells }.changeBridge x
        fun b => { b with executor := state.executor }).setStatus x
          (completionStatus (result.map fun _ => none)), result.map fun _ => none) := by
    unfold evaluate evaluateWithin
    rw [h.unit]
    simp only [hrun, settleEvaluation_eq]
  rw [hevaluate]
  refine ⟨rfl, rfl, ?_, fun e he => Nat.lt_of_lt_of_eq (h.there e he) hkept.size.symm⟩
  unfold changeBridge
  rw [Phase.unit?_setStatus, if_pos rfl, unit?_change, if_pos rfl]
  show Option.map _ (Option.map _ ((s.setStatus x .evaluating).unit? x)) = _
  rw [(h.setStatus .evaluating).unit]
  rfl

theorem install (executor : Executor) :
    (s.handle x (.install executor)).Stands x b status (some executor) where
  unit := by
    show (s.change x _).unit? x = _
    rw [unit?_change, if_pos rfl, h.unit]
    rfl
  there := h.there

theorem set (name : String) (v : Value) : (s.handle x (.set name v)).Stands x b status slot := by
  show (s.reflect x name v).Stands x b status slot
  rcases s.reflect_cases x name v with ⟨hsame, -⟩ | ⟨b', cell, -, -, hwrites⟩
  · rw [hsame]
    exact h
  · rw [hwrites]
    exact ⟨h.unit, fun e he => Nat.lt_of_lt_of_eq (h.there e he) Cells.size_write.symm⟩

/-- Names that the bridge does not export are refused, and nothing happens. -/
theorem refuses (hname : name ∉ b.exports.names) (v : Value) :
    s.reflection? x name = some (.error (.unknownExport b.url name)) ∧
      s.reflected? x name = some (.error (.unknownExport b.url name)) ∧
      s.handle x (.set name v) = s := by
  have hcell : exportCell { b with status, executor := slot } name =
      .error (.unknownExport b.url name) := by
    unfold exportCell
    rw [Scope.cell?_eq_none.mpr hname]
  show _ ∧ _ ∧ s.reflect x name v = s
  unfold reflection? reflected? reflect
  rw [h.bridge?]
  simp only [Option.map_some, hcell]
  exact ⟨rfl, rfl, trivial⟩

/-- Names that the bridge exports can be looked at and written to, and show what was written. -/
theorem takes (hnodup : b.exports.names.Nodup) (hname : name ∈ b.exports.names) (v : Value) :
    s.reflected? x name = some (.ok ()) ∧
      (s.handle x (.set name v)).reflection? x name = some (.ok v) := by
  obtain ⟨e, he, rfl⟩ := List.mem_map.mp hname
  have hcell : exportCell { b with status, executor := slot } e.1 = .ok e.2 :=
    exportCell_of_mem hnodup he
  have hset : s.handle x (.set e.1 v) = { s with cells := s.cells.write e.2 v } := by
    show s.reflect x e.1 v = _
    unfold reflect
    rw [h.bridge?]
    simp only [Option.map_some, hcell]
  constructor
  · unfold reflected?
    rw [h.bridge?]
    simp only [Option.map_some, hcell]
    rfl
  · have hthere := (h.set e.1 v).bridge?
    rw [hset] at hthere ⊢
    unfold reflection?
    rw [hthere]
    simp only [Option.map_some, hcell]
    exact congrArg (fun v => some (Except.ok v)) (Cells.read_write_self (h.there e he))

/-- A call takes the bridge further along its life, or leaves it where it is. -/
theorem handle (call : Bridge.Call) :
    ∃ status' slot', (s.handle x call).Stands x b status' slot' ∧ Forward status status' := by
  cases call with
  | link =>
    refine ⟨status, slot, ?_, .refl⟩
    show (s.beginLink x).1.Stands x b status slot
    rw [h.link]
    exact h
  | instantiate =>
    show ∃ _ _, (s.instantiate x).1.Stands x b _ _ ∧ _
    by_cases hlinked : status = .linked
    · rw [h.instantiate_linked hlinked, hlinked]
      exact ⟨.instantiated, slot, h.setStatus _, .single .instantiated⟩
    · rw [h.instantiate_past hlinked]
      exact ⟨status, slot, h, .refl⟩
  | evaluate =>
    show ∃ _ _, (s.evaluate x).1.Stands x b _ _ ∧ _
    by_cases hopen : status = .instantiated
    · obtain ⟨-, -, hstands⟩ := h.run hopen
      rw [hopen]
      refine ⟨_, _, hstands, .head .begun (.single ?_)⟩
      cases (s.runOf b slot).2 with
      | ok _ => exact .ran
      | error e => exact .failed e
    · rw [h.evaluate_past hopen]
      exact ⟨status, slot, h, .refl⟩
  | get name => exact ⟨status, slot, h, .refl⟩
  | set name v => exact ⟨status, slot, h.set name v, .refl⟩
  | install executor => exact ⟨status, some executor, h.install executor, .refl⟩

theorem due?_open (hopen : status = .instantiated) : s.due? x = slot := by
  subst hopen
  unfold due?
  rw [h.bridge?]
  rfl

theorem due?_past (hpast : status ≠ .instantiated) : s.due? x = none := by
  unfold due?
  rw [h.bridge?]
  cases status <;> first | rfl | exact absurd rfl hpast

end Stands

/-! ## Many calls -/

theorem executed_append (s : Store) (x : UnitId) (calls more : List Bridge.Call) :
    s.executed x (calls ++ more) = s.executed x calls ++ (s.handleAll x calls).executed x more := by
  induction calls generalizing s with
  | nil => rfl
  | cons call calls ih =>
    cases call with
    | evaluate =>
      show (s.due? x).toList ++ (s.handle x .evaluate).executed x (calls ++ more) =
        ((s.due? x).toList ++ _) ++ _
      rw [ih, List.append_assoc]
      rfl
    | _ => exact ih _

theorem Stands.handleAll (h : s.Stands x b status slot) (calls : List Bridge.Call) :
    ∃ status' slot', (s.handleAll x calls).Stands x b status' slot' ∧ Forward status status' := by
  induction calls generalizing s status slot with
  | nil => exact ⟨status, slot, h, .refl⟩
  | cons call calls ih =>
    obtain ⟨_, _, hnext, hforward⟩ := h.handle call
    obtain ⟨status', slot', hlast, hrest⟩ := ih hnext
    exact ⟨status', slot', hlast, hforward.trans hrest⟩

/-- Calls before the instantiation fill the slot, and do nothing else to the bridge. -/
theorem Stands.linked (h : s.Stands x b .linked slot) (hcalls : .instantiate ∉ calls) :
    (s.handleAll x calls).Stands x b .linked (installed slot calls) ∧ s.executed x calls = [] := by
  induction calls generalizing s slot with
  | nil => exact ⟨h, rfl⟩
  | cons call calls ih =>
    rw [List.mem_cons, not_or] at hcalls
    cases call with
    | link =>
      show ((s.beginLink x).1.handleAll x calls).Stands x b _ _ ∧ (s.beginLink x).1.executed x calls = _
      rw [h.link]
      exact ih h hcalls.2
    | instantiate => exact absurd rfl hcalls.1
    | evaluate =>
      show ((s.evaluate x).1.handleAll x calls).Stands x b _ _ ∧
        (s.due? x).toList ++ (s.evaluate x).1.executed x calls = _
      rw [h.due?_past (by simp), h.evaluate_past (by simp)]
      exact ih h hcalls.2
    | get name => exact ih h hcalls.2
    | set name v => exact ih (h.set name v) hcalls.2
    | install executor => exact ih (h.install executor) hcalls.2

/-- The same holds of calls between the instantiation and the next evaluation. -/
theorem Stands.instantiated (h : s.Stands x b .instantiated slot) (hcalls : .evaluate ∉ calls) :
    (s.handleAll x calls).Stands x b .instantiated (installed slot calls) ∧
      s.executed x calls = [] := by
  induction calls generalizing s slot with
  | nil => exact ⟨h, rfl⟩
  | cons call calls ih =>
    rw [List.mem_cons, not_or] at hcalls
    cases call with
    | link =>
      show ((s.beginLink x).1.handleAll x calls).Stands x b _ _ ∧ (s.beginLink x).1.executed x calls = _
      rw [h.link]
      exact ih h hcalls.2
    | instantiate =>
      show ((s.instantiate x).1.handleAll x calls).Stands x b _ _ ∧
        (s.instantiate x).1.executed x calls = _
      rw [h.instantiate_past (by simp)]
      exact ih h hcalls.2
    | evaluate => exact absurd rfl hcalls.1
    | get name => exact ih h hcalls.2
    | set name v => exact ih (h.set name v) hcalls.2
    | install executor => exact ih (h.install executor) hcalls.2

/-- Before the run the slot holds what was put there last. -/
theorem Stands.ready (h : s.Stands x b .linked slot) (hready : RunsNext calls) :
    (s.handleAll x calls).Stands x b .instantiated (installed slot calls) ∧
      s.executed x calls = [] := by
  obtain ⟨before, after, rfl, hbefore, hafter⟩ := hready.split
  obtain ⟨hlinked, hnone⟩ := h.linked hbefore
  have hentered : ((s.handleAll x before).handle x .instantiate).Stands x b .instantiated
      (installed slot before) := by
    show ((s.handleAll x before).instantiate x).1.Stands x b _ _
    rw [hlinked.instantiate_linked rfl]
    exact hlinked.setStatus _
  obtain ⟨hopen, hnone'⟩ := hentered.instantiated hafter
  unfold Store.handleAll installed at hopen ⊢
  rw [List.foldl_append, List.foldl_append, executed_append, hnone]
  exact ⟨hopen, hnone'⟩

theorem Stands.replays (h : s.Stands x b (completionStatus r) slot) : s.evaluate x = (s, r) := by
  rw [h.evaluate_past (by cases r <;> simp [completionStatus])]
  cases r <;> rfl

/-- An outcome is kept whatever is called, and no executor runs any more. -/
theorem Stands.settled (h : s.Stands x b (completionStatus r) slot) (calls : List Bridge.Call) :
    (∃ slot', (s.handleAll x calls).Stands x b (completionStatus r) slot') ∧
      s.executed x calls = [] := by
  constructor
  · obtain ⟨status', slot', hstands, hforward⟩ := h.handleAll calls
    exact ⟨slot', hforward.of_outcome ▸ hstands⟩
  · induction calls generalizing s slot with
    | nil => rfl
    | cons call calls ih =>
      obtain ⟨status', slot', hnext, hforward⟩ := h.handle call
      have hrest := ih (hforward.of_outcome ▸ hnext)
      cases call with
      | evaluate =>
        show (s.due? x).toList ++ _ = _
        rw [h.due?_past (by cases r <;> simp [completionStatus])]
        exact hrest
      | _ => exact hrest

/-- Until the first evaluation that follows an instantiation no executor runs. -/
theorem Stands.executed_early (h : s.Stands x b .linked slot) (hearly : Early calls) :
    s.executed x calls = [] := by
  by_cases hin : .instantiate ∈ calls
  · exact (h.ready ⟨hin, hearly⟩).2
  · exact (h.linked hin).2

/-- That evaluation runs what is in the slot, and no other call runs anything. -/
theorem Stands.executed_ready (h : s.Stands x b .linked slot) {before after : List Bridge.Call}
    (hready : RunsNext before) :
    s.executed x (before ++ .evaluate :: after) = (installed slot before).toList := by
  obtain ⟨hopen, hnone⟩ := h.ready hready
  obtain ⟨-, -, hsettled⟩ := hopen.run rfl
  rw [executed_append, hnone]
  show ((s.handleAll x before).due? x).toList ++ ((s.handleAll x before).evaluate x).1.executed x after = _
  rw [hopen.due?_open rfl, (hsettled.settled after).2, List.append_nil]

/-- A bridge that was made just now is linked, and holds the executor that it was made with. -/
theorem stands_make (s : Store) (url : Url) (names : List String) (populate : Option Executor) :
    let made := Bridge.make url names populate s.cells
    let added := { s with cells := made.1 }.add (.bridge made.2)
    added.1.Stands added.2 made.2 .linked populate where
  unit := unit?_add_new { s with cells := _ } _
  there _ he := (Scope.mem_fresh he).2.1

/--
The life of a bridge with these names, under any calls in any order, from the one that makes it on.

* Every call takes it from `linked` to `instantiated`, from there over `evaluating` to its outcome, or
  leaves it where it is; its URL, its exports and their cells stay.
* It exports exactly the names that it was made with: these can be written to and show what was written
  last, and any other name is refused, which changes nothing.
* An evaluation before all instantiations fails and changes nothing.
* The first evaluation that follows an instantiation performs the executor that was put into the slot
  last. Its answer is the outcome of that, its cells are those behind it, and every later evaluation
  answers the same and changes nothing, whatever else was called. Whoever calls the bridge while that
  executor runs is answered at once, and changes nothing.
* There is such an evaluation among the calls, or every evaluation comes before all instantiations.
  No other executor is ever run.
-/
theorem one_executor (s : Store) (url : Url) (names : List String) (populate : Option Executor)
    (calls : List Bridge.Call) :
    let made := Bridge.make url names populate s.cells
    let added := { s with cells := made.1 }.add (.bridge made.2)
    let s₀ := added.1
    let x := added.2
    let b := made.2
    let t := s₀.handleAll x calls
    (∃ status slot, t.Stands x b status slot ∧ Forward .linked status ∧
      ∀ call, ∃ status' slot', (t.handle x call).Stands x b status' slot' ∧
        Forward status status') ∧
    (∀ name, (name ∈ b.exports.names ↔ name ∈ names) ∧
      (name ∈ names → ∀ v, t.reflected? x name = some (.ok ()) ∧
        (t.handle x (.set name v)).reflection? x name = some (.ok v)) ∧
      (name ∉ names → ∀ v, t.reflection? x name = some (.error (.unknownExport url name)) ∧
        t.reflected? x name = some (.error (.unknownExport url name)) ∧
        t.handle x (.set name v) = t)) ∧
    (.instantiate ∉ calls → t.evaluate x = (t, .error (.evaluate url .uninstantiated))) ∧
    (RunsNext calls →
      let ran := t.runOf b (installed populate calls)
      let t' := (t.evaluate x).1
      (t.evaluate x).2 = ran.2.map (fun _ => none) ∧ t'.cells = ran.1.cells ∧
        (∀ later, (t'.handleAll x later).evaluate x =
          (t'.handleAll x later, ran.2.map fun _ => none)) ∧
        let running := t.setStatus x .evaluating
        running.beginLink x = (running, .ok []) ∧ running.instantiate x = (running, .ok ()) ∧
          running.evaluate x = (running, .ok none)) ∧
    (Early calls ∨ ∃ before after, calls = before ++ .evaluate :: after ∧ RunsNext before) ∧
    (Early calls → s₀.executed x calls = []) ∧
    ∀ before after, calls = before ++ .evaluate :: after → RunsNext before →
      s₀.executed x calls = (installed populate before).toList := by
  intro made added s₀ x b t
  have hmade : s₀.Stands x b .linked populate := s.stands_make url names populate
  have hnames := Bridge.names_make url names populate s.cells
  have hnodup : b.exports.names.Nodup := hnames.1.imp fun hlt => (Std.ne_of_lt hlt)
  obtain ⟨status, slot, hstands, hforward⟩ := Stands.handleAll hmade calls
  refine ⟨⟨status, slot, hstands, hforward, hstands.handle⟩, fun name => ⟨hnames.2 name, ?_, ?_⟩,
    fun hin => ?_, fun hready => ?_, early_or_runsNext calls, Stands.executed_early hmade, ?_⟩
  · exact fun hname v => hstands.takes hnodup ((hnames.2 name).mpr hname) v
  · exact fun hname => hstands.refuses fun hin => hname ((hnames.2 name).mp hin)
  · exact (Stands.linked hmade hin).1.evaluate_past (by simp)
  · have hopen := (Stands.ready hmade hready).1
    obtain ⟨hanswer, hcells, hsettled⟩ := hopen.run rfl
    refine ⟨hanswer, hcells, fun later => ?_, (hopen.setStatus .evaluating).reentered rfl⟩
    obtain ⟨slot', hlater⟩ := (hsettled.settled later).1
    exact hlater.replays
  · rintro before after rfl hready
    exact Stands.executed_ready hmade hready

/-- An executor that puts another one into the slot and then fails is the only one that runs. -/
example :
    let executor : Executor := [.set "x" .null, .install [.fail "again"], .fail "once"]
    let b : Bridge := { url := { scheme := "builtin", path := .rootless "x" }, exports := [("x", ⟨0⟩)] }
    let added := ({ cells := { values := #[.undefined] } } : Store).add (.bridge b)
    added.1.executed added.2 [.evaluate, .instantiate, .install executor, .evaluate, .evaluate] =
      [executor] := rfl

end Store

end ModuleLoader
