import Mathlib.Logic.Relation
import ModuleLoader.Proofs.JobSteps
/-!
# Components

An instantiation walks over everything that its job reaches and then instantiates the unit of that
job for all of them. What was walked over joins the component only if all went well, so a job that
reaches a failed one and is reached by it can be the root of an instantiation of its own.

Results:
1. `Walks.members_closed`: a walk that has ended has visited everything that its root reaches.
2. `Stops.unique`, `Walks.stops`: from each job there is one failed link phase that stops a walk.
3. `Grouped`: what holds of components, walks and outcomes; kept by every step.
4. `outcome_in_cycle`: when jobs that reach each other have the same outcome from one call on a
   unit. They do unless one of them failed by itself or the walks are stopped by different errors.
-/
namespace ModuleLoader

open Relation (ReflTransGen)

namespace Loader

/-! ## Walks -/

/-- A job has linked its unit to that of another. -/
def Edge (l : Loader) (a b : JobId) : Prop :=
  ∃ dependencies, l.linked? a = some (.ok dependencies) ∧ b ∈ dependencies

/-- A job reaches another over its dependencies. -/
def Reaches (l : Loader) : JobId → JobId → Prop := ReflTransGen l.Edge

/-- How a walk goes on over jobs that have linked their units. -/
inductive Walks (l : Loader) (start : Walk) : Walk → Prop
  | refl : l.Walks start start
  | pass {walk : Walk} {next : JobId} {rest : List JobId} :
      l.Walks start walk → walk.stack = next :: rest → next ∈ walk.members →
      l.Walks start { walk with stack := rest }
  | visit {walk : Walk} {next : JobId} {rest dependencies : List JobId} :
      l.Walks start walk → walk.stack = next :: rest → next ∉ walk.members →
      l.linked? next = some (.ok dependencies) →
      l.Walks start (walk.visit next rest dependencies)

/-- A walk will be stopped by a link phase that failed with this error. -/
inductive Stops (l : Loader) : Walk → LoadError → Prop
  | here {walk : Walk} {next : JobId} {rest : List JobId} {e : LoadError} :
      walk.stack = next :: rest → next ∉ walk.members → l.linked? next = some (.error e) →
      l.Stops walk e
  | pass {walk : Walk} {next : JobId} {rest : List JobId} {e : LoadError} :
      walk.stack = next :: rest → next ∈ walk.members →
      l.Stops { walk with stack := rest } e → l.Stops walk e
  | visit {walk : Walk} {next : JobId} {rest dependencies : List JobId} {e : LoadError} :
      walk.stack = next :: rest → next ∉ walk.members →
      l.linked? next = some (.ok dependencies) →
      l.Stops (walk.visit next rest dependencies) e → l.Stops walk e

variable {l l' : Loader}

theorem Walks.mono (h : l.Later l') {start walk : Walk} (hw : l.Walks start walk) :
    l'.Walks start walk := by
  induction hw with
  | refl => exact .refl
  | pass _ hstack hin ih => exact .pass ih hstack hin
  | visit _ hstack hnew hlinked ih => exact .visit ih hstack hnew (h.linked hlinked)

theorem Stops.mono (h : l.Later l') {walk : Walk} {e : LoadError} (hs : l.Stops walk e) :
    l'.Stops walk e := by
  induction hs with
  | here hstack hnew hlinked => exact .here hstack hnew (h.linked hlinked)
  | pass hstack hin _ ih => exact .pass hstack hin ih
  | visit hstack hnew hlinked _ ih => exact .visit hstack hnew (h.linked hlinked) ih

/-- A walk is stopped where it would have been stopped from the start. -/
theorem Walks.stops {start walk : Walk} {e : LoadError} (hw : l.Walks start walk)
    (hs : l.Stops walk e) : l.Stops start e := by
  induction hw with
  | refl => exact hs
  | pass _ hstack hin ih => exact ih (.pass hstack hin hs)
  | visit _ hstack hnew hlinked ih => exact ih (.visit hstack hnew hlinked hs)

/-- What stops a walk is a link phase that has failed. -/
theorem Stops.exists_failed {walk : Walk} {e : LoadError} (h : l.Stops walk e) :
    ∃ k, l.linked? k = some (.error e) := by
  induction h with
  | @here _ next _ _ _ _ hlinked => exact ⟨next, hlinked⟩
  | pass _ _ _ ih => exact ih
  | visit _ _ _ _ ih => exact ih

theorem Stops.unique {walk : Walk} {e e' : LoadError} (h : l.Stops walk e)
    (h' : l.Stops walk e') : e = e' := by
  induction h with
  | here hstack hnew hlinked =>
    cases h' with
    | here hstack' hnew' hlinked' =>
      cases hstack.symm.trans hstack'
      cases hlinked.symm.trans hlinked'
      rfl
    | pass hstack' hin =>
      cases hstack.symm.trans hstack'
      exact absurd hin hnew
    | visit hstack' hnew' hlinked' =>
      cases hstack.symm.trans hstack'
      cases hlinked.symm.trans hlinked'
  | pass hstack hin _ ih =>
    cases h' with
    | here hstack' hnew =>
      cases hstack.symm.trans hstack'
      exact absurd hin hnew
    | pass hstack' _ hrest =>
      cases hstack.symm.trans hstack'
      exact ih hrest
    | visit hstack' hnew =>
      cases hstack.symm.trans hstack'
      exact absurd hin hnew
  | visit hstack hnew hlinked _ ih =>
    cases h' with
    | here hstack' _ hlinked' =>
      cases hstack.symm.trans hstack'
      cases hlinked.symm.trans hlinked'
    | pass hstack' hin =>
      cases hstack.symm.trans hstack'
      exact absurd hin hnew
    | visit hstack' _ hlinked' hrest =>
      cases hstack.symm.trans hstack'
      cases hlinked.symm.trans hlinked'
      exact ih hrest

/-- What was visited has linked its unit, and its dependencies are visited or will be. -/
def Walked (l : Loader) (walk : Walk) : Prop :=
  ∀ x ∈ walk.members, ∃ dependencies, l.linked? x = some (.ok dependencies) ∧
    ∀ d ∈ dependencies, d ∈ walk.members ∨ d ∈ walk.stack

theorem walked_pass {walk : Walk} {next : JobId} {rest : List JobId} (h : l.Walked walk)
    (hstack : walk.stack = next :: rest) (hin : next ∈ walk.members) :
    l.Walked { walk with stack := rest } := by
  intro x hx
  obtain ⟨dependencies, hlinked, hall⟩ := h x hx
  refine ⟨dependencies, hlinked, fun d hd => ?_⟩
  rcases hall d hd with hmember | hwaiting
  · exact .inl hmember
  · rw [hstack] at hwaiting
    rcases List.mem_cons.mp hwaiting with rfl | hrest
    · exact .inl hin
    · exact .inr hrest

theorem mem_visit {walk : Walk} {next d : JobId} {rest dependencies : List JobId}
    (h : d ∈ walk.members ∨ d = next ∨ d ∈ rest ∨ d ∈ dependencies) :
    d ∈ (walk.visit next rest dependencies).members ∨
      d ∈ (walk.visit next rest dependencies).stack := by
  by_cases hmember : d ∈ walk.members ++ [next]
  · exact .inl hmember
  · rcases h with hold | rfl | hrest | hdep
    · exact absurd (List.mem_append_left _ hold) hmember
    · exact absurd (List.mem_append_right _ List.mem_cons_self) hmember
    · exact .inr (List.mem_append_right _ hrest)
    · refine .inr (List.mem_append_left _ (List.mem_filter.mpr ⟨hdep, ?_⟩))
      rw [Bool.not_eq_true', ← Bool.not_eq_true, List.elem_iff]
      exact hmember

theorem walked_visit {walk : Walk} {next : JobId} {rest dependencies : List JobId}
    (h : l.Walked walk) (hstack : walk.stack = next :: rest)
    (hlinked : l.linked? next = some (.ok dependencies)) :
    l.Walked (walk.visit next rest dependencies) := by
  intro x hx
  rcases List.mem_append.mp hx with hold | hnew
  · obtain ⟨deps, hdeps, hall⟩ := h x hold
    refine ⟨deps, hdeps, fun d hd => mem_visit ?_⟩
    rcases hall d hd with hmember | hwaiting
    · exact .inl hmember
    · rw [hstack] at hwaiting
      rcases List.mem_cons.mp hwaiting with rfl | hrest
      · exact .inr (.inl rfl)
      · exact .inr (.inr (.inl hrest))
  · cases List.mem_singleton.mp hnew
    exact ⟨dependencies, hlinked, fun d hd => mem_visit (.inr (.inr (.inr hd)))⟩

theorem Walks.walked {root : JobId} {walk : Walk} (h : l.Walks (.start root) walk) :
    l.Walked walk := by
  induction h with
  | refl => exact fun x hx => absurd hx List.not_mem_nil
  | pass _ hstack hin ih => exact walked_pass ih hstack hin
  | visit _ hstack _ hlinked ih => exact walked_visit ih hstack hlinked

theorem Walks.root {root : JobId} {walk : Walk} (h : l.Walks (.start root) walk) :
    root ∈ walk.members ∨ root ∈ walk.stack := by
  induction h with
  | refl => exact .inr List.mem_cons_self
  | pass _ hstack hin ih =>
    rcases ih with hmember | hwaiting
    · exact .inl hmember
    · rw [hstack] at hwaiting
      rcases List.mem_cons.mp hwaiting with rfl | hrest
      · exact .inl hin
      · exact .inr hrest
  | visit _ hstack _ _ ih =>
    rcases ih with hmember | hwaiting
    · exact mem_visit (.inl hmember)
    · rw [hstack] at hwaiting
      rcases List.mem_cons.mp hwaiting with rfl | hrest
      · exact mem_visit (.inr (.inl rfl))
      · exact mem_visit (.inr (.inr (.inl hrest)))

/-- Jobs that have linked their units to units of each other only. -/
def Closed (l : Loader) (members : List JobId) : Prop :=
  ∀ x ∈ members, ∃ dependencies, l.linked? x = some (.ok dependencies) ∧
    ∀ d ∈ dependencies, d ∈ members

/-- A walk that has ended has visited its root and everything that it reaches. -/
theorem Walks.members_closed {root : JobId} {walk : Walk} (h : l.Walks (.start root) walk)
    (hend : walk.stack = []) : root ∈ walk.members ∧ l.Closed walk.members := by
  refine ⟨h.root.resolve_right fun hin => ?_, fun x hx => ?_⟩
  · rw [hend] at hin
    cases hin
  · obtain ⟨dependencies, hlinked, hall⟩ := h.walked x hx
    refine ⟨dependencies, hlinked, fun d hd => (hall d hd).resolve_right fun hin => ?_⟩
    rw [hend] at hin
    cases hin

/-- A walk comes only to what its root reaches. -/
theorem Walks.reaches {root : JobId} {walk : Walk} (h : l.Walks (.start root) walk) {x : JobId}
    (hx : x ∈ walk.members ∨ x ∈ walk.stack) : l.Reaches root x := by
  induction h generalizing x with
  | refl =>
    rcases hx with hmember | hwaiting
    · cases hmember
    · cases List.mem_singleton.mp hwaiting
      exact .refl
  | pass _ hstack _ ih =>
    rcases hx with hmember | hwaiting
    · exact ih (.inl hmember)
    · exact ih (.inr (hstack ▸ List.mem_cons_of_mem _ hwaiting))
  | visit _ hstack _ hlinked ih =>
    have hnext := ih (.inr (hstack ▸ List.mem_cons_self))
    rcases hx with hmember | hwaiting
    · rcases List.mem_append.mp hmember with hold | hnew
      · exact ih (.inl hold)
      · cases List.mem_singleton.mp hnew
        exact hnext
    · rcases List.mem_append.mp hwaiting with hdep | hrest
      · exact hnext.tail ⟨_, hlinked, (List.mem_filter.mp hdep).1⟩
      · exact ih (.inr (hstack ▸ List.mem_cons_of_mem _ hrest))

theorem Reaches.mono (h : l.Later l') {a b : JobId} (hr : l.Reaches a b) : l'.Reaches a b :=
  ReflTransGen.mono (fun _ _ ⟨dependencies, hlinked, hin⟩ =>
    ⟨dependencies, h.linked hlinked, hin⟩) a b hr

theorem Closed.mono (h : l.Later l') {members : List JobId} (hc : l.Closed members) :
    l'.Closed members := by
  intro x hx
  obtain ⟨dependencies, hlinked, hall⟩ := hc x hx
  exact ⟨dependencies, h.linked hlinked, hall⟩

theorem Closed.reaches {members : List JobId} (hc : l.Closed members) {a b : JobId}
    (h : l.Reaches a b) (ha : a ∈ members) : b ∈ members := by
  induction h with
  | refl => exact ha
  | tail _ hedge ih =>
    obtain ⟨dependencies, hlinked, hd⟩ := hedge
    obtain ⟨others, hothers, hall⟩ := hc _ ih
    cases hlinked.symm.trans hothers
    exact hall _ hd

/-- No walk is stopped among jobs that have all linked their units to each other. -/
theorem Closed.not_stops {members : List JobId} (hc : l.Closed members) {walk : Walk}
    {e : LoadError} (hs : l.Stops walk e) (hstack : ∀ x ∈ walk.stack, x ∈ members) : False := by
  induction hs with
  | here hnext _ hlinked =>
    obtain ⟨_, hothers, -⟩ := hc _ (hstack _ (hnext ▸ List.mem_cons_self))
    cases hlinked.symm.trans hothers
  | pass hnext _ _ ih =>
    exact ih fun x hx => hstack x (hnext ▸ List.mem_cons_of_mem _ hx)
  | visit hnext _ hlinked _ ih =>
    refine ih fun x hx => ?_
    rcases List.mem_append.mp hx with hdep | hrest
    · obtain ⟨others, hothers, hall⟩ := hc _ (hstack _ (hnext ▸ List.mem_cons_self))
      cases hlinked.symm.trans hothers
      exact hall x (List.mem_filter.mp hdep).1
    · exact hstack x (hnext ▸ List.mem_cons_of_mem _ hrest)

/-! ## What holds of components -/

/-- The component of a job, with its number. -/
def Joined (l : Loader) (id : JobId) (i : Nat) (c : Component) : Prop :=
  ∃ job, l.job? id = some job ∧ job.component = some ⟨i⟩ ∧ l.components[i]? = some c

/-- A component that was made for its root, and which all members have joined if all went well. -/
structure Made (l : Loader) (i : Nat) (c : Component) : Prop where
  closed : l.Closed c.members
  root : c.root ∈ c.members
  reached : ∀ x ∈ c.members, l.Reaches c.root x
  own : l.Joined c.root i c
  all : c.outcome = .ok () → ∀ x ∈ c.members, ∃ k other, l.Joined x k other

/-- How the instantiation of a job can have ended: with its component, or without one. -/
def Ended (l : Loader) (id : JobId) (result : Except LoadError Unit) : Prop :=
  (∃ i c, l.Joined id i c ∧ result = c.outcome) ∨
    ∃ e, result = .error e ∧ (l.Stops (.start id) e ∨ l.prepared? id = some (.error e))

structure Grouped (l : Loader) : Prop where
  alive : l.alive = true
  made : ∀ (i : Nat) c, l.components[i]? = some c → l.Made i c
  /-- A component that has the root of a later one among its members has failed. -/
  apart : ∀ (i k : Nat) (c other : Component), i < k → l.components[i]? = some c →
    l.components[k]? = some other → c.outcome = .ok () → other.root ∉ c.members
  member : ∀ id job k, l.job? id = some job → job.component = some k →
    ∃ c, l.Joined id k.index c ∧ id ∈ c.members ∧ ∀ e, c.outcome = .error e → c.root = id
  walking : ∀ id job walk, l.job? id = some job → job.instantiation = .walking walk →
    l.Walks (.start id) walk
  ended : ∀ id job result, l.job? id = some job → job.instantiation = .done result →
    l.Ended id result

theorem Joined.mono (h : l.Later l') {id : JobId} {i : Nat} {c : Component}
    (hj : l.Joined id i c) : l'.Joined id i c := by
  obtain ⟨job, hjob, hi, hc⟩ := hj
  obtain ⟨job', hjob', hlater⟩ := h.job hjob
  exact ⟨job', hjob', hlater.component _ hi, h.component hc⟩

theorem Joined.component? {id : JobId} {i : Nat} {c : Component} (h : l.Joined id i c) :
    l.component? id = some c := by
  obtain ⟨job, hjob, hi, hc⟩ := h
  show (l.job? id).bind _ = _
  rw [hjob]
  show job.component.bind _ = _
  rw [hi]
  exact hc

theorem Joined.unique {id : JobId} {i k : Nat} {c other : Component} (h : l.Joined id i c)
    (h' : l.Joined id k other) : i = k ∧ c = other := by
  obtain ⟨job, hjob, hi, hc⟩ := h
  obtain ⟨job', hjob', hk, hother⟩ := h'
  cases hjob.symm.trans hjob'
  cases hi.symm.trans hk
  cases hc.symm.trans hother
  exact ⟨rfl, rfl⟩

theorem joined_of_component? {id : JobId} {c : Component} (h : l.component? id = some c) :
    ∃ i, l.Joined id i c := by
  obtain ⟨job, hjob, h⟩ := Option.bind_eq_some_iff.mp h
  obtain ⟨⟨i⟩, hi, hc⟩ := Option.bind_eq_some_iff.mp h
  exact ⟨i, job, hjob, hi, hc⟩

theorem Made.mono (h : l.Later l') {i : Nat} {c : Component} (hm : l.Made i c) : l'.Made i c where
  closed := hm.closed.mono h
  root := hm.root
  reached x hx := Reaches.mono h (hm.reached x hx)
  own := hm.own.mono h
  all hok x hx := by
    obtain ⟨k, other, hj⟩ := hm.all hok x hx
    exact ⟨k, other, hj.mono h⟩

theorem Ended.mono (h : l.Later l') {id : JobId} {result : Except LoadError Unit}
    (he : l.Ended id result) : l'.Ended id result := by
  rcases he with ⟨i, c, hj, hr⟩ | ⟨e, hr, hs | hp⟩
  · exact .inl ⟨i, c, hj.mono h, hr⟩
  · exact .inr ⟨e, hr, .inl (hs.mono h)⟩
  · exact .inr ⟨e, hr, .inr (h.prepared hp)⟩

theorem Grouped.quiet (hg : l.Grouped) (h : l.Quiet l') : l'.Grouped where
  alive := h.later.alive.trans hg.alive
  made i c hc := (hg.made i c (h.components ▸ hc)).mono h.later
  apart i k c other hik hc hother :=
    hg.apart i k c other hik (h.components ▸ hc) (h.components ▸ hother)
  member id job' k hjob' hk := by
    obtain ⟨job, hjob, hold⟩ := h.component hjob' hk
    obtain ⟨c, hj, hin, hroot⟩ := hg.member id job k hjob hold
    exact ⟨c, hj.mono h.later, hin, hroot⟩
  walking id job' walk hjob' hwalk := by
    obtain ⟨job, hjob, hold⟩ := h.walking hjob' hwalk
    exact (hg.walking id job walk hjob hold).mono h.later
  ended id job' result hjob' hdone := by
    obtain ⟨job, hjob, hold⟩ := h.done hjob' hdone
    exact (hg.ended id job result hjob hold).mono h.later

end Loader

namespace Machine

variable {m m' : Machine} {action : Action}

/-- What the next state of an instantiation has to satisfy. -/
def Fits (l : Loader) (id : JobId) : Instantiation → Prop
  | .walking walk => l.Walks (.start id) walk
  | .done result => l.Ended id result
  | _ => True

theorem grouped_setInstantiation (hg : m.loader.Grouped) {id : JobId} {job : Job}
    {p : Instantiation} (hjob : m.loader.job? id = some job)
    (hopen : ∀ result, job.instantiation ≠ .done result) (hfits : Fits m.loader id p) :
    (m.setInstantiation id p).loader.Grouped := by
  have hlater := later_setInstantiation p hjob hopen
  have hcase : ∀ i job', (m.setInstantiation id p).loader.job? i = some job' →
      ∃ old, m.loader.job? i = some old ∧ job'.component = old.component ∧
        (job'.instantiation = old.instantiation ∨ i = id ∧ job'.instantiation = p) := by
    intro i job' hjob'
    change (m.loader.changeJob id fun job => { job with instantiation := p }).job? i = _ at hjob'
    rw [Loader.job?_changeJob] at hjob'
    split at hjob'
    next hi =>
      obtain ⟨old, hold, rfl⟩ := Option.map_eq_some_iff.mp hjob'
      exact ⟨old, hold, rfl, .inr ⟨hi.symm, rfl⟩⟩
    next => exact ⟨job', hjob', rfl, .inl rfl⟩
  refine ⟨hlater.alive.trans hg.alive, fun i c hc => (hg.made i c hc).mono hlater, hg.apart,
    fun i job' k hjob' hk => ?_, fun i job' walk hjob' hwalk => ?_,
    fun i job' result hjob' hdone => ?_⟩
  · obtain ⟨old, hold, hsame, -⟩ := hcase i job' hjob'
    obtain ⟨c, hj, hin, hroot⟩ := hg.member i old k hold (hsame ▸ hk)
    exact ⟨c, hj.mono hlater, hin, hroot⟩
  · obtain ⟨old, hold, -, hsame | ⟨rfl, hp⟩⟩ := hcase i job' hjob'
    · exact (hg.walking i old walk hold (hsame ▸ hwalk)).mono hlater
    · rw [← hp, hwalk] at hfits
      exact Loader.Walks.mono hlater hfits
  · obtain ⟨old, hold, -, hsame | ⟨rfl, hp⟩⟩ := hcase i job' hjob'
    · exact (hg.ended i old result hold (hsame ▸ hdone)).mono hlater
    · rw [← hp, hdone] at hfits
      exact Loader.Ended.mono hlater hfits

theorem component_none (hg : m.loader.Grouped) {id : JobId} {job : Job}
    (hjob : m.loader.job? id = some job) (h : m.loader.component? id = none) :
    job.component = none := by
  cases hk : job.component with
  | none => rfl
  | some k =>
    obtain ⟨c, hj, -⟩ := hg.member id job k hjob hk
    rw [hj.component?] at h
    cases h

/-- A component that is made anew, as it is found afterwards. -/
theorem components_instantiateMembers (m : Machine) (id : JobId) (unit : UnitId)
    (members : List JobId) :
    (m.instantiateMembers id unit members).loader.components =
      m.loader.components.push ⟨id, members, (m.host.store.instantiate unit).2⟩ := by
  obtain ⟨jobs, hloader⟩ := loader_instantiateMembers m id unit members
  rw [hloader]

theorem mem_joining {id x : JobId} {members : List JobId} {outcome : Except LoadError Unit}
    (h : x ∈ joining id members outcome) :
    x = id ∨ outcome = .ok () ∧ x ∈ members := by
  cases outcome with
  | ok result =>
    rcases List.mem_cons.mp h with rfl | hin
    · exact .inl rfl
    · exact .inr ⟨rfl, hin⟩
  | error e => exact .inl (List.mem_singleton.mp h)

theorem mem_joining_self (id : JobId) (members : List JobId) (outcome : Except LoadError Unit) :
    id ∈ joining id members outcome := by
  cases outcome <;> exact List.mem_cons_self

end Machine

/-! ### A component is made -/

namespace Loader

variable {l l' : Loader} {id : JobId} {members : List JobId} {outcome : Except LoadError Unit}

/-- A root makes a component for the members that its walk has visited. -/
structure Makes (l : Loader) (id : JobId) (members : List JobId) (outcome : Except LoadError Unit)
    (l' : Loader) : Prop where
  later : l.Later l'
  components : l'.components = l.components.push ⟨id, members, outcome⟩
  jobs : ∀ i, l'.job? i = (l.job? i).map fun job =>
    { job with
      component :=
        if i ∈ Machine.joining id members outcome then
          some (job.component.getD ⟨l.components.size⟩)
        else job.component
      instantiation := if id = i then .done outcome else job.instantiation }
  free : ∃ job, l.job? id = some job ∧ job.component = none
  root : id ∈ members
  closed : l.Closed members
  reached : ∀ x ∈ members, l.Reaches id x

namespace Makes

theorem new (h : l.Makes id members outcome l') :
    l'.components[l.components.size]? = some ⟨id, members, outcome⟩ := by
  rw [h.components, Array.getElem?_push_size]

/-- Who joins has one component afterwards: the new one, unless it had another before. -/
theorem joined (h : l.Makes id members outcome l') (hg : l.Grouped) {x : JobId}
    (hx : x ∈ Machine.joining id members outcome) {job : Job} (hjob : l.job? x = some job) :
    ∃ k c, l'.Joined x k c := by
  cases hk : job.component with
  | none =>
    have hafter := h.jobs x
    rw [hjob, Option.map_some, if_pos hx, hk] at hafter
    exact ⟨_, _, _, hafter, rfl, h.new⟩
  | some k =>
    obtain ⟨c, hj, -⟩ := hg.member x job k hjob hk
    exact ⟨k.index, c, hj.mono h.later⟩

theorem own (h : l.Makes id members outcome l') :
    l'.Joined id l.components.size ⟨id, members, outcome⟩ := by
  obtain ⟨job, hjob, hfree⟩ := h.free
  have hafter := h.jobs id
  rw [hjob, Option.map_some, if_pos (Machine.mem_joining_self id members outcome), hfree] at hafter
  exact ⟨_, hafter, rfl, h.new⟩

theorem made (h : l.Makes id members outcome l') (hg : l.Grouped) {i : Nat} {c : Component}
    (hc : l'.components[i]? = some c) : l'.Made i c := by
  rw [h.components, Array.getElem?_push] at hc
  split at hc
  next hi =>
    cases hc
    refine ⟨h.closed.mono h.later, h.root, fun x hx => Reaches.mono h.later (h.reached x hx),
      hi ▸ h.own, fun hok x hx => ?_⟩
    obtain ⟨dependencies, hlinked, -⟩ := h.closed x hx
    obtain ⟨job, hjob, -⟩ := linked?_eq_some.mp hlinked
    change outcome = .ok () at hok
    subst hok
    exact h.joined hg (List.mem_cons_of_mem _ hx) hjob
  next => exact (hg.made i c hc).mono h.later

theorem apart (h : l.Makes id members outcome l') (hg : l.Grouped) {i k : Nat}
    {c other : Component} (hik : i < k) (hc : l'.components[i]? = some c)
    (hother : l'.components[k]? = some other) (hok : c.outcome = .ok ()) :
    other.root ∉ c.members := by
  rw [h.components, Array.getElem?_push] at hc hother
  split at hother
  next hk =>
    cases hother
    rw [if_neg (by omega)] at hc
    intro hin
    -- every member of a component that went well has joined one, and the root has not
    obtain ⟨n, c', job, hjob, hn, -⟩ := (hg.made i c hc).all hok id hin
    obtain ⟨job', hjob', hfree⟩ := h.free
    cases hjob.symm.trans hjob'
    rw [hfree] at hn
    cases hn
  next hk =>
    have hlt := (Array.getElem?_eq_some_iff.mp hother).1
    rw [if_neg (by omega)] at hc
    exact hg.apart i k c other hik hc hother hok

theorem member (h : l.Makes id members outcome l') (hg : l.Grouped) {i : JobId} {job' : Job}
    {k : ComponentId} (hjob' : l'.job? i = some job') (hk : job'.component = some k) :
    ∃ c, l'.Joined i k.index c ∧ i ∈ c.members ∧ ∀ e, c.outcome = .error e → c.root = i := by
  have hafter := h.jobs i
  rw [hjob'] at hafter
  obtain ⟨job, hjob, rfl⟩ := Option.map_eq_some_iff.mp hafter.symm
  cases hc : job.component with
  | some n =>
    obtain ⟨c, hj, hin, herror⟩ := hg.member i job n hjob hc
    have hn : k = n := by
      dsimp only at hk
      split at hk
      next => rw [hc] at hk; exact (Option.some.inj hk).symm
      next => exact Option.some.inj (hk.symm.trans hc)
    exact ⟨c, hn ▸ hj.mono h.later, hin, herror⟩
  | none =>
    dsimp only at hk
    split at hk
    next hjoins =>
      rw [hc] at hk
      cases hk
      refine ⟨_, ⟨_, hjob', ?_, h.new⟩, ?_, fun e he => ?_⟩
      · rw [if_pos hjoins, hc]
      · rcases Machine.mem_joining hjoins with rfl | ⟨-, hmember⟩
        · exact h.root
        · exact hmember
      · rcases Machine.mem_joining hjoins with rfl | ⟨hok, -⟩
        · rfl
        · rw [hok] at he
          cases he
    next => rw [hc] at hk; cases hk

theorem grouped (h : l.Makes id members outcome l') (hg : l.Grouped) : l'.Grouped where
  alive := h.later.alive.trans hg.alive
  made _ _ hc := h.made hg hc
  apart _ _ _ _ hik hc hother hok := h.apart hg hik hc hother hok
  member _ _ _ hjob' hk := h.member hg hjob' hk
  walking i job' walk hjob' hwalk := by
    rw [h.jobs] at hjob'
    obtain ⟨job, hjob, rfl⟩ := Option.map_eq_some_iff.mp hjob'
    dsimp only at hwalk
    split at hwalk
    next => cases hwalk
    next => exact (hg.walking i job walk hjob hwalk).mono h.later
  ended i job' result hjob' hdone := by
    rw [h.jobs] at hjob'
    obtain ⟨job, hjob, rfl⟩ := Option.map_eq_some_iff.mp hjob'
    dsimp only at hdone
    split at hdone
    next hi => cases hdone; exact .inl ⟨_, _, hi ▸ h.own, rfl⟩
    next => exact (hg.ended i job result hjob hdone).mono h.later

end Makes

end Loader

namespace Machine

variable {m m' : Machine} {action : Action}

/-- The direct call on the unit of a root makes one more component. -/
theorem makes_instantiateMembers (hg : m.loader.Grouped) {id : JobId} {job : Job} {walk : Walk}
    (unit : UnitId) (hjob : m.loader.job? id = some job)
    (hwalking : job.instantiation = .walking walk) (hstack : walk.stack = [])
    (hnone : m.loader.component? id = none) :
    m.loader.Makes id walk.members (m.host.store.instantiate unit).2
      (m.instantiateMembers id unit walk.members).loader := by
  have hwalks := hg.walking _ _ _ hjob hwalking
  obtain ⟨hroot, hclosed⟩ := hwalks.members_closed hstack
  have hopen : ∀ result, job.instantiation ≠ .done result := by
    intro result h
    rw [hwalking] at h
    cases h
  exact ⟨later_instantiateMembers unit _ hjob hopen,
    components_instantiateMembers m id unit walk.members,
    job?_instantiateMembers m id unit walk.members,
    ⟨job, hjob, component_none hg hjob hnone⟩, hroot, hclosed,
    fun x hx => hwalks.reaches (.inl hx)⟩

/-! ### All rules -/

theorem ended_of_component {id : JobId} {c : Component} (h : m.loader.component? id = some c) :
    m.loader.Ended id c.outcome := by
  obtain ⟨i, hj⟩ := Loader.joined_of_component? h
  exact .inl ⟨i, c, hj, rfl⟩

theorem Rule.grouped (h : Rule m action m') (hr : m.loader.resolver.Sound)
    (hg : m.loader.Grouped) : m'.loader.Grouped := by
  by_cases hinstantiate : ∃ id, action = .instantiate id
  · obtain ⟨id, rfl⟩ := hinstantiate
    cases h with
    | enterJoined hjob hentering hc =>
      exact grouped_setInstantiation hg hjob (fun _ h => by rw [hentering] at h; cases h)
        (ended_of_component hc)
    | @enterUnprepared _ job e hjob hentering hc hprep =>
      exact grouped_setInstantiation hg hjob (fun _ h => by rw [hentering] at h; cases h)
        (.inr ⟨e, rfl, .inr (Loader.prepared?_eq_some.mpr ⟨job, hjob, hprep⟩)⟩)
    | enterWalk hjob hentering =>
      exact grouped_setInstantiation hg hjob (fun _ h => by rw [hentering] at h; cases h)
        Loader.Walks.refl
    | enterDropped hjob hentering hc hprep hdropped =>
      rw [hg.alive] at hdropped
      cases hdropped
    | walkPass hjob hwalking hstack hin =>
      exact grouped_setInstantiation hg hjob (fun _ h => by rw [hwalking] at h; cases h)
        (.pass (hg.walking _ _ _ hjob hwalking) hstack hin)
    | walkVisit hjob hwalking hstack hnew hlinked =>
      exact grouped_setInstantiation hg hjob (fun _ h => by rw [hwalking] at h; cases h)
        (.visit (hg.walking _ _ _ hjob hwalking) hstack hnew hlinked)
    | walkStopped hjob hwalking hstack hnew hlinked =>
      exact grouped_setInstantiation hg hjob (fun _ h => by rw [hwalking] at h; cases h)
        (.inr ⟨_, rfl, .inl ((hg.walking _ _ _ hjob hwalking).stops (.here hstack hnew hlinked))⟩)
    | walkJoined hjob hwalking hstack hc =>
      exact grouped_setInstantiation hg hjob (fun _ h => by rw [hwalking] at h; cases h)
        (ended_of_component hc)
    | walkEnded hjob hwalking hstack hc hprep =>
      exact (makes_instantiateMembers hg _ hjob hwalking hstack hc).grouped hg
  · exact hg.quiet (h.quiet hr fun id hid => hinstantiate ⟨id, hid⟩)

theorem grouped_after (host : Host) (settings : Settings) (events : List Event) :
    ((ofSettings host settings).after events).loader.Grouped := by
  refine (after_induction (m := ofSettings host settings)
    (P := fun m => m.loader.resolver.Sound ∧ m.loader.Grouped)
    (fun hrule h => ⟨hrule.resolver.sound h.1, hrule.grouped h.1 h.2⟩) (fun _ h => h)
    ⟨Resolver.sound_ofSettings settings, ?_⟩ events).2
  refine ⟨rfl, fun i c h => ?_, fun i k c other hik h => ?_, ?_, ?_, ?_⟩
  · cases h
  · cases h
  all_goals intro id job _ h; cases h

end Machine

/-! ## Outcomes in a cycle -/

namespace Loader

/-- The loader has instantiated the unit of this job by a call of its own. -/
def CalledDirectly (l : Loader) (id : JobId) : Prop := ∃ c ∈ l.components, c.root = id

/-- The loader has instantiated the unit of this job by a call of its own, and it failed. -/
def FailedDirectly (l : Loader) (id : JobId) : Prop :=
  ∃ c ∈ l.components, c.root = id ∧ ∃ e, c.outcome = .error e

variable {l : Loader} {j k : JobId} {r s : Except LoadError Unit}

theorem Grouped.made_of_mem (hg : l.Grouped) {c : Component} (h : c ∈ l.components) :
    ∃ i, l.components[i]? = some c ∧ l.Made i c := by
  obtain ⟨i, hi⟩ := Array.mem_iff_getElem?.mp h
  exact ⟨i, hi, hg.made i c hi⟩

theorem Joined.mem {i : Nat} {c : Component} (h : l.Joined j i c) : c ∈ l.components :=
  let ⟨_, _, _, hc⟩ := h
  Array.mem_of_getElem? hc

/-- A job belongs to its component, which only its root has if it failed. -/
theorem Grouped.of_joined (hg : l.Grouped) {i : Nat} {c : Component} (h : l.Joined j i c) :
    j ∈ c.members ∧ ∀ e, c.outcome = .error e → c.root = j := by
  obtain ⟨job, hjob, hi, hc⟩ := h
  obtain ⟨other, hj, hin, hroot⟩ := hg.member j job ⟨i⟩ hjob hi
  obtain ⟨-, rfl⟩ := hj.unique ⟨job, hjob, hi, hc⟩
  exact ⟨hin, hroot⟩

/-- The walk of a job in a component is not stopped. -/
theorem Grouped.not_stops (hg : l.Grouped) {i : Nat} {c : Component} (h : l.Joined j i c)
    (hreach : l.Reaches j k) (e : LoadError) : ¬ l.Stops (.start k) e := by
  intro hstops
  have hclosed := (hg.made i c (let ⟨_, _, _, hc⟩ := h; hc)).closed
  refine hclosed.not_stops hstops fun x hx => ?_
  cases List.mem_singleton.mp hx
  exact hclosed.reaches hreach (hg.of_joined h).1

/-- The root of a failed component sees its error. -/
theorem Grouped.failedDirectly_iff (hg : l.Grouped) {i : Nat} {c : Component}
    (h : l.Joined j i c) : l.FailedDirectly j ↔ ∃ e, c.outcome = .error e := by
  constructor
  · rintro ⟨other, hin, rfl, he⟩
    obtain ⟨_, _, hmade⟩ := hg.made_of_mem hin
    obtain ⟨-, rfl⟩ := hmade.own.unique h
    exact he
  · rintro ⟨e, he⟩
    exact ⟨c, h.mem, (hg.of_joined h).2 e he, e, he⟩

/-- Of two components whose roots reach each other, the earlier one failed. -/
theorem Grouped.failed_of_lt (hg : l.Grouped) {i n : Nat} {c other : Component} (hin : i < n)
    (hc : l.components[i]? = some c) (hother : l.components[n]? = some other)
    (hreach : l.Reaches c.root other.root) : c.root ≠ other.root ∧ ∃ e, c.outcome = .error e := by
  have hmade := hg.made i c hc
  refine ⟨fun heq => ?_, ?_⟩
  · obtain ⟨rfl, -⟩ := hmade.own.unique (heq ▸ (hg.made n other hother).own)
    exact Nat.lt_irrefl _ hin
  · cases hok : c.outcome with
    | error e => exact ⟨e, rfl⟩
    | ok result =>
      have hmember := hmade.closed.reaches hreach hmade.root
      exact absurd hmember (hg.apart i n c other hin hc hother hok)

/-- Of two jobs that reach each other, only one was called directly unless one of them failed. -/
theorem Grouped.failed_of_called (hg : l.Grouped) (hne : j ≠ k) (hjk : l.Reaches j k)
    (hkj : l.Reaches k j) (hj : l.CalledDirectly j) (hk : l.CalledDirectly k) :
    l.FailedDirectly j ∨ l.FailedDirectly k := by
  obtain ⟨c, hc, rfl⟩ := hj
  obtain ⟨other, hother, rfl⟩ := hk
  obtain ⟨i, hi, -⟩ := hg.made_of_mem hc
  obtain ⟨n, hn, -⟩ := hg.made_of_mem hother
  rcases Nat.lt_trichotomy i n with hlt | rfl | hgt
  · exact .inl ⟨c, hc, rfl, (hg.failed_of_lt hlt hi hn hjk).2⟩
  · cases hi.symm.trans hn
    exact absurd rfl hne
  · exact .inr ⟨other, hother, rfl, (hg.failed_of_lt hgt hn hi hkj).2⟩

/-- What two jobs of one cycle agree on if each has a component. -/
theorem Grouped.agree_of_joined (hg : l.Grouped) (hne : j ≠ k) (hjk : l.Reaches j k)
    (hkj : l.Reaches k j) {i n : Nat} {c other : Component} (hj : l.Joined j i c)
    (hk : l.Joined k n other) :
    (c.outcome = other.outcome ∧ ¬ (l.CalledDirectly j ∧ l.CalledDirectly k)) ↔
      ¬ l.FailedDirectly j ∧ ¬ l.FailedDirectly k := by
  have hcalled : ∀ {x}, l.FailedDirectly x → l.CalledDirectly x :=
    fun ⟨c, hc, hroot, _⟩ => ⟨c, hc, hroot⟩
  constructor
  · rintro ⟨heq, hboth⟩
    have hfailed : l.FailedDirectly j ↔ l.FailedDirectly k := by
      rw [hg.failedDirectly_iff hj, hg.failedDirectly_iff hk, heq]
    exact ⟨fun hf => hboth ⟨hcalled hf, hcalled (hfailed.mp hf)⟩,
      fun hf => hboth ⟨hcalled (hfailed.mpr hf), hcalled hf⟩⟩
  · rintro ⟨hfj, hfk⟩
    have hok : ∀ {x m d}, l.Joined x m d → ¬ l.FailedDirectly x → d.outcome = .ok () := by
      intro x m d hx hf
      cases ho : d.outcome with
      | ok _ => rfl
      | error e => exact absurd ((hg.failedDirectly_iff hx).mpr ⟨e, ho⟩) hf
    refine ⟨(hok hj hfj).trans (hok hk hfk).symm, fun ⟨hcj, hck⟩ => ?_⟩
    rcases hg.failed_of_called hne hjk hkj hcj hck with hf | hf
    · exact hfj hf
    · exact hfk hf

/-- A job whose walk is stopped was not instantiated by a call of its own. -/
theorem Grouped.not_called_of_stops (hg : l.Grouped) {e : LoadError}
    (h : l.Stops (.start j) e) : ¬ l.CalledDirectly j := by
  rintro ⟨c, hc, rfl⟩
  obtain ⟨i, -, hmade⟩ := hg.made_of_mem hc
  exact hg.not_stops hmade.own .refl e h

end Loader

namespace Machine

/-- A job that has linked its unit ends with a component or with the error that stops its walk. -/
theorem ended_of_linked {m : Machine} (hg : m.loader.Grouped)
    (hunits : ∀ id job, m.loader.job? id = some job → job.HasUnit) {j : JobId}
    {dependencies : List JobId} {r : Except LoadError Unit}
    (hlinked : m.loader.linked? j = some (.ok dependencies))
    (hr : m.loader.instantiated? j = some r) :
    (∃ i c, m.loader.Joined j i c ∧ r = c.outcome) ∨
      ∃ e, r = .error e ∧ m.loader.Stops (.start j) e := by
  obtain ⟨job, hjob, hdone⟩ := Loader.instantiated?_eq_some.mp hr
  rcases hg.ended j job r hjob hdone with hjoined | ⟨e, he, hstops | hprepared⟩
  · exact .inl hjoined
  · exact .inr ⟨e, he, hstops⟩
  · obtain ⟨other, hother, hl⟩ := Loader.linked?_eq_some.mp hlinked
    obtain ⟨unit, hunit⟩ := hunits j other hother (.inr ⟨_, hl⟩)
    obtain ⟨_, hjob', hp⟩ := Loader.prepared?_eq_some.mp hprepared
    cases hother.symm.trans hjob'
    rw [hunit] at hp
    cases hp

theorem exists_linked_of_reaches {l : Loader} {j k : JobId} (hne : j ≠ k) (h : l.Reaches j k) :
    ∃ dependencies, l.linked? j = some (.ok dependencies) := by
  rcases ReflTransGen.cases_head h with rfl | ⟨_, ⟨dependencies, hlinked, -⟩, -⟩
  · exact absurd rfl hne
  · exact ⟨dependencies, hlinked⟩

/--
Two jobs that reach each other and are both through with their instantiations have the same outcome
from at most one direct call on a unit exactly if either both walks are stopped by the same error,
or no failed link phase stops them and none of the two failed by a direct call. After a direct call
that failed, the next one of the cycle can be called directly as well, and gets an outcome of its
own. This holds for any files, libraries and units, since the host may change in any way meanwhile.
-/
theorem outcome_in_cycle (host : Host) (settings : Settings) (events : List Event) {j k : JobId}
    {r s : Except LoadError Unit} (hne : j ≠ k)
    (hjk : ((ofSettings host settings).after events).loader.Reaches j k)
    (hkj : ((ofSettings host settings).after events).loader.Reaches k j)
    (hr : ((ofSettings host settings).after events).loader.instantiated? j = some r)
    (hs : ((ofSettings host settings).after events).loader.instantiated? k = some s) :
    let l := ((ofSettings host settings).after events).loader
    (r = s ∧ ¬ (l.CalledDirectly j ∧ l.CalledDirectly k)) ↔
      (∃ e, l.Stops (.start j) e ∧ l.Stops (.start k) e) ∨
      (∀ e, ¬ l.Stops (.start j) e ∧ ¬ l.Stops (.start k) e) ∧
        ¬ l.FailedDirectly j ∧ ¬ l.FailedDirectly k := by
  intro l
  have hg : l.Grouped := grouped_after host settings events
  have hunits := hasUnit_after host settings events
  obtain ⟨_, hlj⟩ := exists_linked_of_reaches hne hjk
  obtain ⟨_, hlk⟩ := exists_linked_of_reaches hne.symm hkj
  -- who has a component is not stopped, nor is anyone that it reaches: the mixed cases are out
  rcases ended_of_linked hg hunits hlj hr with ⟨i, c, hj, rfl⟩ | ⟨e, rfl, hej⟩
  · rcases ended_of_linked hg hunits hlk hs with ⟨n, other, hk, rfl⟩ | ⟨e, rfl, hek⟩
    · rw [hg.agree_of_joined hne hjk hkj hj hk]
      have hfree : ∀ e, ¬ l.Stops (.start j) e ∧ ¬ l.Stops (.start k) e :=
        fun e => ⟨hg.not_stops hj .refl e, hg.not_stops hj hjk e⟩
      constructor
      · exact fun h => .inr ⟨hfree, h⟩
      · rintro (⟨e, hstops, -⟩ | ⟨-, h⟩)
        · exact absurd hstops (hfree e).1
        · exact h
    · exact absurd hek (hg.not_stops hj hjk e)
  · rcases ended_of_linked hg hunits hlk hs with ⟨n, other, hk, rfl⟩ | ⟨e', rfl, hek⟩
    · exact absurd hej (hg.not_stops hk hkj e)
    · constructor
      · rintro ⟨heq, -⟩
        cases heq
        exact .inl ⟨e, hej, hek⟩
      · rintro (⟨d, hdj, hdk⟩ | ⟨hfree, -⟩)
        · rw [hej.unique hdj, hek.unique hdk]
          exact ⟨rfl, fun h => hg.not_called_of_stops hej h.1⟩
        · exact absurd hej (hfree e).1

/-! ### A cycle with a member that fails -/

/-- Two modules that import each other; one of them asks for a name that the other does not have. -/
def brokenCycle : Machine :=
  ofSettings (.ofScripts [("/a", "import { nope } from './b';"), ("/b", "import './a';")]) .atRoot

/-- First the one that fails is instantiated, and then the other one. -/
def bothInstantiated : List Event :=
  (brokenCycle.answering 60 [.find "./a" none .instantiated, .find "./b" none .instantiated]).map
    .step

theorem edge_of_elem {l : Loader} {a b : JobId}
    (h : ((l.linked? a).any fun linked => (linked.toOption.getD []).elem b) = true) :
    l.Edge a b := by
  cases hlinked : l.linked? a with
  | none => rw [hlinked] at h; cases h
  | some linked =>
    rw [hlinked] at h
    cases linked with
    | ok dependencies => exact ⟨dependencies, hlinked, List.elem_iff.mp h⟩
    | error e => cases h

theorem brokenCycle_reaches :
    (brokenCycle.after bothInstantiated).loader.Reaches ⟨0⟩ ⟨1⟩ ∧
      (brokenCycle.after bothInstantiated).loader.Reaches ⟨1⟩ ⟨0⟩ :=
  ⟨.single (edge_of_elem (by decide +kernel)), .single (edge_of_elem (by decide +kernel))⟩

theorem failed_of_any {l : Loader} {id : JobId}
    (h : ((l.instantiated? id).any fun outcome => !outcome.isOk) = true) :
    ∃ e, l.instantiated? id = some (.error e) := by
  cases houtcome : l.instantiated? id with
  | none => rw [houtcome] at h; cases h
  | some outcome =>
    rw [houtcome] at h
    cases outcome with
    | ok _ => cases h
    | error e => exact ⟨e, rfl⟩

theorem ok_of_any {l : Loader} {id : JobId}
    (h : ((l.instantiated? id).any fun outcome => outcome.isOk) = true) :
    l.instantiated? id = some (.ok ()) := by
  cases houtcome : l.instantiated? id with
  | none => rw [houtcome] at h; cases h
  | some outcome =>
    rw [houtcome] at h
    cases outcome with
    | ok _ => rfl
    | error e => cases h

/-- The one that fails has failed, and the other one is instantiated all the same. -/
theorem brokenCycle_outcomes :
    (∃ e, (brokenCycle.after bothInstantiated).loader.instantiated? ⟨0⟩ = some (.error e)) ∧
      (brokenCycle.after bothInstantiated).loader.instantiated? ⟨1⟩ = some (.ok ()) :=
  ⟨failed_of_any (by decide +kernel), ok_of_any (by decide +kernel)⟩

/-- The exact condition at the broken cycle, where it does not hold. -/
theorem outcome_in_brokenCycle :
    ∃ e, (brokenCycle.after bothInstantiated).loader.instantiated? ⟨0⟩ = some (.error e) ∧
      ((.error e = (.ok () : Except LoadError Unit) ∧
        ¬ ((brokenCycle.after bothInstantiated).loader.CalledDirectly ⟨0⟩ ∧
          (brokenCycle.after bothInstantiated).loader.CalledDirectly ⟨1⟩)) ↔
        (∃ e, (brokenCycle.after bothInstantiated).loader.Stops (.start ⟨0⟩) e ∧
          (brokenCycle.after bothInstantiated).loader.Stops (.start ⟨1⟩) e) ∨
        (∀ e, ¬ (brokenCycle.after bothInstantiated).loader.Stops (.start ⟨0⟩) e ∧
          ¬ (brokenCycle.after bothInstantiated).loader.Stops (.start ⟨1⟩) e) ∧
          ¬ (brokenCycle.after bothInstantiated).loader.FailedDirectly ⟨0⟩ ∧
          ¬ (brokenCycle.after bothInstantiated).loader.FailedDirectly ⟨1⟩) :=
  let ⟨⟨e, he⟩, hok⟩ := brokenCycle_outcomes
  ⟨e, he, outcome_in_cycle _ _ _ (by decide) brokenCycle_reaches.1 brokenCycle_reaches.2 he hok⟩

/-- Jobs that reach each other can have different outcomes, each from a direct call on its unit. -/
theorem outcomes_differ_in_cycle :
    (brokenCycle.after bothInstantiated).loader.Reaches ⟨0⟩ ⟨1⟩ ∧
      (brokenCycle.after bothInstantiated).loader.Reaches ⟨1⟩ ⟨0⟩ ∧
      (∃ e, (brokenCycle.after bothInstantiated).loader.instantiated? ⟨0⟩ = some (.error e)) ∧
      (brokenCycle.after bothInstantiated).loader.instantiated? ⟨1⟩ = some (.ok ()) ∧
      (brokenCycle.after bothInstantiated).loader.CalledDirectly ⟨0⟩ ∧
      (brokenCycle.after bothInstantiated).loader.CalledDirectly ⟨1⟩ := by
  have hroots : ∀ id ∈ [JobId.mk 0, ⟨1⟩],
      id ∈ (brokenCycle.after bothInstantiated).loader.components.toList.map Component.root := by
    decide +kernel
  have hcalled : ∀ id ∈ [JobId.mk 0, ⟨1⟩],
      (brokenCycle.after bothInstantiated).loader.CalledDirectly id := by
    intro id hid
    obtain ⟨c, hc, hroot⟩ := List.mem_map.mp (hroots id hid)
    exact ⟨c, Array.mem_toList_iff.mp hc, hroot⟩
  exact ⟨brokenCycle_reaches.1, brokenCycle_reaches.2, brokenCycle_outcomes.1,
    brokenCycle_outcomes.2, hcalled _ (by decide), hcalled _ (by decide)⟩

end Machine

end ModuleLoader
