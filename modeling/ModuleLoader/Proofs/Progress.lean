import Mathlib.Logic.Relation
import ModuleLoader.Proofs.Standing
/-!
# No deadlock

Calls, instantiations, link phases, dependencies and questions to the file system wait for each other.
A link phase waits for preparations only, and an instantiation waits for link phases only, whatever
the modules import. So the waiting comes to an end, also where modules import each other, and whoever
is at its end can go on.

Results:
1. `Task`, `Pending`, `Waits`: what is under way, and who waits for whom.
2. `Waits.blocked`, `Pending.goes_on`: a task can take a step exactly if it waits for nobody.
3. `Waits.rank_lt`: nobody waits for himself, over however many others.
4. `no_deadlock`: as long as anything is under way, a task on which it depends can take a step.
-/
namespace ModuleLoader

open Relation (TransGen ReflTransGen)

/-- What can be under way in a loader. -/
inductive Task
  | call (id : CallId)
  | instantiation (id : JobId)
  | linking (id : JobId)
  | dependency (id : JobId) (index : Nat)
  | preparation (id : JobId)
  | question (probe : Probe)

namespace Machine

/-- The action by which a task goes on. -/
def actionOf (m : Machine) : Task → Action
  | .call id => .advance id
  | .instantiation id => .instantiate id
  | .linking id => .link id
  | .dependency id index => .wire id index
  | .preparation id =>
    match (m.loader.job? id).map Job.preparation with
    | some (.reading _) => .read id
    | _ => .prepare id
  | .question probe =>
    if probe ∈ m.loader.resolver.outstanding then .answer probe else .acquire probe

theorem actionOf_preparation (m : Machine) (id : JobId) : m.actionOf (.preparation id) =
    match (m.loader.job? id).map Job.preparation with
    | some (.reading _) => .read id
    | _ => .prepare id := rfl

theorem actionOf_question (m : Machine) (probe : Probe) : m.actionOf (.question probe) =
    if probe ∈ m.loader.resolver.outstanding then .answer probe else .acquire probe := rfl

/-- The tasks that are begun, or are to begin by themselves, and have not come to their end. -/
inductive Pending (m : Machine) : Task → Prop
  | call {id : CallId} {state : Call} :
      m.loader.calls[id.index]? = some state → state.answer? = none → m.Pending (.call id)
  | entering {id : JobId} {job : Job} :
      m.loader.job? id = some job → job.instantiation = .entering → m.Pending (.instantiation id)
  | walking {id : JobId} {job : Job} {walk : Walk} :
      m.loader.job? id = some job → job.instantiation = .walking walk →
      m.Pending (.instantiation id)
  | linking {id : JobId} {job : Job} :
      m.loader.job? id = some job → job.linking.result? = none → m.Pending (.linking id)
  | dependency {id : JobId} {index : Nat} {job : Job} {dependencies : List Dependency}
      {dependency : Dependency} :
      m.loader.job? id = some job → job.linking = .wiring dependencies →
      dependencies[index]? = some dependency → dependency.wiring.wired? = none →
      m.Pending (.dependency id index)
  | preparation {id : JobId} {job : Job} :
      m.loader.job? id = some job → job.preparation.result? = none → m.Pending (.preparation id)
  | question {probe : Probe} {p : Probing} :
      m.loader.resolver.requests[probe.request.index]? = some (.probing p) →
      (p.inquiry probe.candidate).found? = none → m.Pending (.question probe)

/-- `m.Waits t t'`: the next step of `t` needs something that `t'` has yet to bring about. -/
inductive Waits (m : Machine) : Task → Task → Prop
  -- a call waits for its request, and then for what it wants of the job
  | resolving {id : CallId} {request : RequestId} {candidate : Candidate} :
      m.loader.calls[id.index]? = some (.resolving request) →
      m.Pending (.question ⟨request, candidate⟩) →
      m.Waits (.call id) (.question ⟨request, candidate⟩)
  | locating {id : CallId} {request : RequestId} {wish : Wish} {candidate : Candidate} :
      m.loader.calls[id.index]? = some (.locating request wish) →
      m.Pending (.question ⟨request, candidate⟩) →
      m.Waits (.call id) (.question ⟨request, candidate⟩)
  | unit {id : CallId} {job : JobId} {wish : Wish} :
      m.loader.calls[id.index]? = some (.serving job wish) → wish = .unit ∨ wish = .namespace →
      m.Pending (.preparation job) → m.Waits (.call id) (.preparation job)
  | linked {id : CallId} {job : JobId} {wish : Wish} :
      m.loader.calls[id.index]? = some (.serving job wish) →
      wish = .linked ∨ wish = .dependencies → m.Pending (.linking job) →
      m.Waits (.call id) (.linking job)
  | instantiated {id : CallId} {job : JobId} {wish : Wish} :
      m.loader.calls[id.index]? = some (.serving job wish) → needsInstantiation wish = true →
      m.Pending (.instantiation job) → m.Waits (.call id) (.instantiation job)
  -- an instantiation waits for its own unit, and then for the link phase of the next job
  | entering {id : JobId} {job : Job} :
      m.loader.job? id = some job → job.instantiation = .entering →
      m.loader.component? id = none → m.Pending (.preparation id) →
      m.Waits (.instantiation id) (.preparation id)
  | walking {id next : JobId} {job : Job} {walk : Walk} {rest : List JobId} :
      m.loader.job? id = some job → job.instantiation = .walking walk →
      walk.stack = next :: rest → next ∉ walk.members → m.Pending (.linking next) →
      m.Waits (.instantiation id) (.linking next)
  -- a link phase waits for its own unit, and then for each of its dependencies
  | prepared {id : JobId} {job : Job} :
      m.loader.job? id = some job → job.linking = .waiting → m.Pending (.preparation id) →
      m.Waits (.linking id) (.preparation id)
  | wiring {id : JobId} {index : Nat} :
      m.Pending (.dependency id index) → m.Waits (.linking id) (.dependency id index)
  -- a dependency waits for its request, and then for the unit of the job, not for its link phase
  | requested {id : JobId} {index : Nat} {job : Job} {dependencies : List Dependency}
      {dependency : Dependency} {request : RequestId} {candidate : Candidate} :
      m.loader.job? id = some job → job.linking = .wiring dependencies →
      dependencies[index]? = some dependency → dependency.wiring = .resolving request →
      m.Pending (.question ⟨request, candidate⟩) →
      m.Waits (.dependency id index) (.question ⟨request, candidate⟩)
  | located {id found : JobId} {index : Nat} {job : Job} {dependencies : List Dependency}
      {dependency : Dependency} :
      m.loader.job? id = some job → job.linking = .wiring dependencies →
      dependencies[index]? = some dependency → dependency.wiring = .located found →
      m.Pending (.preparation found) → m.Waits (.dependency id index) (.preparation found)
  -- a question waits for those that hold the permits
  | permit {probe holder : Probe} :
      probe ∈ m.loader.resolver.limiter.waiting → holder ∈ m.loader.resolver.limiter.holders →
      m.Waits (.question probe) (.question holder)

variable {m : Machine} {t t' : Task}

/-! ## Waiting comes to an end -/

/-- How far a task is from those that wait for nobody. -/
def rank (m : Machine) : Task → Nat
  | .call _ => 5
  | .instantiation _ => 4
  | .linking _ => 3
  | .dependency .. => 2
  | .preparation _ => 0
  | .question probe => if probe ∈ m.loader.resolver.limiter.waiting then 1 else 0

theorem rank_question (m : Machine) (probe : Probe) : m.rank (.question probe) =
    if probe ∈ m.loader.resolver.limiter.waiting then 1 else 0 := rfl

theorem rank_question_le (m : Machine) (probe : Probe) : m.rank (.question probe) ≤ 1 := by
  rw [rank_question]
  split
  next => exact Nat.le_refl 1
  next => exact Nat.zero_le 1

/-- Whoever waits is further away than the one for whom he waits. -/
theorem Waits.rank_lt (h : m.Waits t t') (hr : m.loader.resolver.Sound) : m.rank t' < m.rank t := by
  cases h with
  | resolving | locating | requested =>
    refine Nat.lt_of_le_of_lt (m.rank_question_le _) ?_
    simp [rank]
  | permit hwaiting hholder =>
    -- nobody holds a permit and waits for one
    have hnot := fun hin => (List.nodup_append.mp hr.users_once).2.2 _ hholder _ hin rfl
    rw [rank_question, rank_question, if_pos hwaiting, if_neg hnot]
    exact Nat.zero_lt_one
  | _ => simp [rank]

theorem rank_lt_of_transGen (h : TransGen m.Waits t t') (hr : m.loader.resolver.Sound) :
    m.rank t' < m.rank t := by
  induction h with
  | single h => exact h.rank_lt hr
  | tail _ h ih => exact (h.rank_lt hr).trans ih

/-! ## Whoever waits takes no step -/

theorem outcome?_of_question {request : RequestId} {candidate : Candidate}
    (h : m.Pending (.question ⟨request, candidate⟩)) : m.loader.resolver.outcome? request = none := by
  cases h with
  | @question _ p hp hfound =>
    unfold Resolver.outcome?
    rw [show m.loader.resolver.requests[request.index]? = _ from hp, Option.bind_some]
    dsimp only [Request.outcome?]
    cases candidate with
    | literal => rw [show p.literal.found? = none from hfound]; rfl
    | extended =>
      rw [show p.extended.found? = none from hfound]
      cases p.literal.found? <;> rfl

theorem prepared?_of_pending {id : JobId} (h : m.Pending (.preparation id)) :
    m.loader.prepared? id = none := by
  cases h with
  | preparation hjob hnone =>
    unfold Loader.prepared?
    rw [hjob, Option.bind_some, hnone]

theorem linked?_of_pending {id : JobId} (h : m.Pending (.linking id)) :
    m.loader.linked? id = none := by
  cases h with
  | linking hjob hnone =>
    unfold Loader.linked?
    rw [hjob, Option.bind_some, hnone]

/-- A link phase does not end as long as one dependency is not wired. -/
theorem mapM_wired?_eq_none {dependencies : List Dependency} {index : Nat} {d : Dependency}
    (hd : dependencies[index]? = some d) (hnone : d.wiring.wired? = none) :
    (dependencies.mapM fun d => d.wiring.wired?) = none := by
  cases hall : dependencies.mapM fun d => d.wiring.wired? with
  | none => rfl
  | some jobs =>
    have hin : d.wiring.wired? ∈ jobs.map some := by
      rw [← map_eq_of_mapM hall]
      exact List.mem_map_of_mem (f := fun d => d.wiring.wired?) (List.mem_of_getElem? hd)
    obtain ⟨job, -, hjob⟩ := List.mem_map.mp hin
    rw [hnone] at hjob
    cases hjob

/-- A task that waits for another cannot go on before that one has. -/
theorem Waits.blocked (h : m.Waits t t') (hr : m.loader.resolver.Sound) :
    m.step? (m.actionOf t) = none := by
  refine step?_eq_none fun m' hrule => ?_
  -- every rule for the task has a premise that is against what it waits for
  cases h with
  | resolving hcall hpending | locating hcall hpending =>
    have hnone := outcome?_of_question hpending
    cases hrule <;> simp_all
  | @unit id job wish hcall hwish hpending =>
    have hnone := prepared?_of_pending hpending
    have hanswer : m.answer? job wish = none := by
      rcases hwish with rfl | rfl <;> simp [answer?, hnone]
    have hneeds : needsInstantiation wish = false := by rcases hwish with rfl | rfl <;> rfl
    cases hrule <;> simp_all
  | @linked id job wish hcall hwish hpending =>
    have hnone := linked?_of_pending hpending
    have hanswer : m.answer? job wish = none := by
      rcases hwish with rfl | rfl <;> simp [answer?, hnone]
    have hneeds : needsInstantiation wish = false := by rcases hwish with rfl | rfl <;> rfl
    cases hrule <;> simp_all
  | instantiated hcall hneeds hpending =>
    cases hpending <;> cases hrule <;> simp_all
  | entering hjob hentering hcomponent hpending =>
    have hnone := prepared?_of_pending hpending
    unfold Loader.prepared? at hnone
    cases hrule <;> simp_all [Preparation.result?]
  | walking hjob hwalking hstack hnew hpending =>
    have hnone := linked?_of_pending hpending
    cases hrule <;> simp_all
  | prepared hjob hwaiting hpending =>
    have hnone := prepared?_of_pending hpending
    unfold Loader.prepared? at hnone
    cases hrule <;> simp_all [Preparation.result?]
  | wiring hpending =>
    cases hpending with
    | dependency hjob hwiring hd hunwired =>
      have hnone := mapM_wired?_eq_none hd hunwired
      cases hrule <;> simp_all
  | requested hjob hwiring hd hresolving hpending =>
    have hnone := outcome?_of_question hpending
    cases hrule <;> simp_all
  | located hjob hwiring hd hlocated hpending =>
    have hnone := prepared?_of_pending hpending
    cases hrule <;> simp_all
  | @permit probe holder hwaiting hholder =>
    have hnot : probe ∉ m.loader.resolver.outstanding :=
      fun hin => (List.nodup_append.mp hr.users_once).2.2 _ hin _ hwaiting rfl
    obtain ⟨p, hp, hasked⟩ := hr.users_open probe (List.mem_append_right _ hwaiting)
    rw [actionOf_question, if_neg hnot] at hrule
    cases hrule with
    | acquire hr' =>
      unfold Resolver.acquire? at hr'
      simp [Resolver.probing?_eq_some.mpr hp, hasked] at hr'

/-! ## Whoever waits for nobody takes a step -/

/-- A question goes on if it is not asked yet or has a permit, and else it waits for one. -/
theorem question_goes_on (hs : m.loader.Standing)
    (hprobes : 1 ≤ m.loader.resolver.settings.maxProbes) {probe : Probe}
    (h : m.Pending (.question probe)) :
    (m.step? (m.actionOf (.question probe))).isSome = true ∨
      ∃ t', m.Waits (.question probe) t' := by
  obtain ⟨log, hw⟩ := hs.waiting
  cases h with
  | @question _ p hp hfound =>
    have hprobing := Resolver.probing?_eq_some.mpr hp
    rw [actionOf_question]
    cases hinquiry : p.inquiry probe.candidate with
    | answered found => rw [hinquiry] at hfound; cases hfound
    | unasked =>
      refine .inl ?_
      have hnot : probe ∉ m.loader.resolver.outstanding := by
        intro hin
        obtain ⟨q, hq, hasked⟩ := hw.sound.open_of_holder hin
        cases hp.symm.trans hq
        rw [hinquiry] at hasked
        cases hasked
      rw [if_neg hnot]
      show ((m.loader.resolver.acquire? probe).map m.withResolver).isSome = true
      unfold Resolver.acquire?
      simp [hprobing, hinquiry]
    | asked =>
      rcases List.mem_append.mp (hs.staffed.users probe ⟨p, hp, hinquiry⟩) with hheld | hwaiting
      · refine .inl ?_
        have hout : probe ∈ m.loader.resolver.outstanding := hheld
        rw [if_pos hout]
        show ((m.loader.resolver.answer? m.host.files probe).map m.withResolver).isSome = true
        unfold Resolver.answer?
        simp [hprobing, hout]
      · obtain ⟨holder, hholder⟩ := hs.staffed.full.exists_holder hprobes
          (List.ne_nil_of_mem hwaiting)
        exact .inr ⟨_, .permit hwaiting hholder⟩

/-- A source is asked for, or the file system gives it. -/
theorem preparation_goes_on {id : JobId} (h : m.Pending (.preparation id)) :
    (m.step? (m.actionOf (.preparation id))).isSome = true := by
  cases h with
  | @preparation _ job hjob hnone =>
    rw [actionOf_preparation, hjob, Option.map_some]
    cases hpreparation : job.preparation with
    | done result => rw [hpreparation] at hnone; cases hnone
    | reading path => exact (Rule.read hjob hpreparation).isSome_step?
    | idle =>
      cases hplace : job.url.sourcePlace job.evalSource with
      | here source => exact (Rule.prepareHere hjob hpreparation hplace).isSome_step?
      | file path => exact (Rule.prepareFile hjob hpreparation hplace).isSome_step?

/-- Somebody's request has an outcome, or a question of it is under way. -/
theorem request_goes_on {request : RequestId} (hlive : m.loader.resolver.Live request) :
    (∃ outcome, m.loader.resolver.outcome? request = some outcome) ∨
      ∃ candidate, m.Pending (.question ⟨request, candidate⟩) := by
  rcases hlive.outcome_or_question with houtcome | ⟨p, candidate, hp, hfound⟩
  · exact .inl (Option.isSome_iff_exists.mp houtcome)
  · exact .inr ⟨candidate, .question hp hfound⟩

theorem linking_of_job {id : JobId} (hid : (m.loader.job? id).isSome = true) :
    (∃ result, m.loader.linked? id = some result) ∨ m.Pending (.linking id) := by
  obtain ⟨job, hjob⟩ := Option.isSome_iff_exists.mp hid
  cases hresult : job.linking.result? with
  | none => exact .inr (.linking hjob hresult)
  | some result =>
    refine .inl ⟨result, ?_⟩
    unfold Loader.linked?
    rw [hjob, Option.bind_some, hresult]

theorem preparation_of_job {id : JobId} (hid : (m.loader.job? id).isSome = true) :
    (∃ result, m.loader.prepared? id = some result) ∨ m.Pending (.preparation id) := by
  obtain ⟨job, hjob⟩ := Option.isSome_iff_exists.mp hid
  cases hresult : job.preparation.result? with
  | none => exact .inr (.preparation hjob hresult)
  | some result =>
    refine .inl ⟨result, ?_⟩
    unfold Loader.prepared?
    rw [hjob, Option.bind_some, hresult]

theorem dependency_goes_on (hs : m.loader.Standing) {id : JobId} {index : Nat}
    (h : m.Pending (.dependency id index)) :
    (m.step? (m.actionOf (.dependency id index))).isSome = true ∨
      ∃ t', m.Waits (.dependency id index) t' := by
  cases h with
  | @dependency _ _ job dependencies d hjob hwiring hd hunwired =>
    cases hstate : d.wiring with
    | wired found => rw [hstate] at hunwired; cases hunwired
    | unasked =>
      cases halive : m.loader.alive with
      | true => exact .inl (Rule.wireAsked hjob hwiring hd hstate halive).isSome_step?
      | false => exact .inl (Rule.wireDropped hjob hwiring hd hstate halive).isSome_step?
    | resolving request =>
      have hawaited : m.loader.awaited? (.dependency id index) = some request := by
        show (m.loader.job? id).bind _ = _
        rw [hjob, Option.bind_some, hwiring, awaited?_wiring hd, hstate]
      rcases request_goes_on (hs.heard.awaited _ _ hawaited) with ⟨outcome, houtcome⟩ | ⟨c, hc⟩
      · cases outcome with
        | error e => exact .inl (Rule.wireUnresolved hjob hwiring hd hstate houtcome).isSome_step?
        | ok target => exact .inl (Rule.wireServed hjob hwiring hd hstate houtcome).isSome_step?
      · exact .inr ⟨_, .requested hjob hwiring hd hstate hc⟩
    | located found =>
      have hthere : (m.loader.job? found).isSome = true := by
        refine (hs.fits id job hjob).linking found ?_
        rw [hwiring]
        exact List.mem_filterMap.mpr ⟨d, List.mem_of_getElem? hd, by rw [hstate]; rfl⟩
      rcases preparation_of_job hthere with ⟨result, hprepared⟩ | hpending
      · -- the unit that is linked is there
        obtain ⟨unit, hunit⟩ := hs.units id job hjob (.inl ⟨dependencies, hwiring⟩)
        have hown := Loader.prepared?_eq_some.mpr ⟨job, hjob, hunit⟩
        cases result with
        | error e => exact .inl (Rule.wireUnprepared hjob hwiring hd hstate hprepared).isSome_step?
        | ok other => exact .inl (Rule.wireEnded hjob hwiring hd hstate hprepared hown).isSome_step?
      · exact .inr ⟨_, .located hjob hwiring hd hstate hpending⟩

theorem isSome_wired {dependencies : List Dependency}
    (h : ∀ d ∈ dependencies, d.wiring.wired? ≠ none) :
    (dependencies.mapM fun d : Dependency => d.wiring.wired?).isSome = true := by
  induction dependencies with
  | nil => rfl
  | cons d rest ih =>
    obtain ⟨jobs, hjobs⟩ := Option.isSome_iff_exists.mp
      (ih fun d' hd' => h d' (List.mem_cons_of_mem _ hd'))
    obtain ⟨job, hjob⟩ := Option.ne_none_iff_exists'.mp (h d List.mem_cons_self)
    rw [List.mapM_cons, hjob, hjobs]
    rfl

theorem linking_goes_on {id : JobId} (h : m.Pending (.linking id)) :
    (m.step? (m.actionOf (.linking id))).isSome = true ∨ ∃ t', m.Waits (.linking id) t' := by
  cases h with
  | @linking _ job hjob hnone =>
    cases hlinking : job.linking with
    | done result => rw [hlinking] at hnone; cases hnone
    | waiting =>
      cases hresult : job.preparation.result? with
      | none => exact .inr ⟨_, .prepared hjob hlinking (.preparation hjob hresult)⟩
      | some result =>
        have hprep := preparation_done hresult
        cases result with
        | error e => exact .inl (Rule.linkUnprepared hjob hlinking hprep).isSome_step?
        | ok unit =>
          rcases hlink : m.host.store.beginLink unit with ⟨store, e | specifiers⟩
          · exact .inl (Rule.linkRefused hjob hlinking hprep hlink).isSome_step?
          · exact .inl (Rule.linkBegun hjob hlinking hprep hlink).isSome_step?
    | wiring dependencies =>
      by_cases hall : ∃ d ∈ dependencies, d.wiring.wired? = none
      · obtain ⟨d, hd, hunwired⟩ := hall
        obtain ⟨index, hindex⟩ := List.getElem?_of_mem hd
        exact .inr ⟨_, .wiring (.dependency hjob hlinking hindex hunwired)⟩
      · obtain ⟨jobs, hjobs⟩ := Option.isSome_iff_exists.mp
          (isSome_wired fun d hd hnone => hall ⟨d, hd, hnone⟩)
        exact .inl (Rule.linkEnded hjob hlinking hjobs).isSome_step?

theorem entering_goes_on {id : JobId} {job : Job} (hjob : m.loader.job? id = some job)
    (hentering : job.instantiation = .entering) :
    (m.step? (m.actionOf (.instantiation id))).isSome = true ∨
      ∃ t', m.Waits (.instantiation id) t' := by
  cases hcomponent : m.loader.component? id with
  | some c => exact .inl (Rule.enterJoined hjob hentering hcomponent).isSome_step?
  | none =>
    cases hresult : job.preparation.result? with
    | none => exact .inr ⟨_, .entering hjob hentering hcomponent (.preparation hjob hresult)⟩
    | some result =>
      have hprep := preparation_done hresult
      cases result with
      | error e => exact .inl (Rule.enterUnprepared hjob hentering hcomponent hprep).isSome_step?
      | ok unit =>
        cases halive : m.loader.alive with
        | true => exact .inl (Rule.enterWalk hjob hentering hcomponent hprep halive).isSome_step?
        | false =>
          exact .inl (Rule.enterDropped hjob hentering hcomponent hprep halive).isSome_step?

theorem walking_goes_on (hs : m.loader.Standing) {id : JobId} {job : Job} {walk : Walk}
    (hjob : m.loader.job? id = some job) (hwalking : job.instantiation = .walking walk) :
    (m.step? (m.actionOf (.instantiation id))).isSome = true ∨
      ∃ t', m.Waits (.instantiation id) t' := by
  cases hstack : walk.stack with
  | nil =>
    refine .inl ?_
    -- a walk has a unit to instantiate when it comes to its end
    obtain ⟨unit, hunit⟩ := (hs.fits id job hjob).unit walk hwalking
    cases hcomponent : m.loader.component? id with
    | some c => exact (Rule.walkJoined hjob hwalking hstack hcomponent).isSome_step?
    | none => exact (Rule.walkEnded hjob hwalking hstack hcomponent hunit).isSome_step?
  | cons next rest =>
    by_cases hmem : next ∈ walk.members
    · exact .inl (Rule.walkPass hjob hwalking hstack hmem).isSome_step?
    · have hthere : (m.loader.job? next).isSome = true := by
        refine (hs.fits id job hjob).instantiation next ?_
        rw [hwalking]
        show next ∈ Walk.stack _
        rw [hstack]
        exact List.mem_cons_self
      rcases linking_of_job hthere with ⟨result, hlinked⟩ | hpending
      · cases result with
        | error e => exact .inl (Rule.walkStopped hjob hwalking hstack hmem hlinked).isSome_step?
        | ok dependencies =>
          exact .inl (Rule.walkVisit hjob hwalking hstack hmem hlinked).isSome_step?
      · exact .inr ⟨_, .walking hjob hwalking hstack hmem hpending⟩

/-- A call on a job is answered, or waits for what it wants of the job. -/
theorem serving_goes_on (hs : m.loader.Standing) {id : CallId} {jobId : JobId} {wish : Wish}
    (hcall : m.loader.calls[id.index]? = some (.serving jobId wish)) :
    (m.step? (m.actionOf (.call id))).isSome = true ∨ ∃ t', m.Waits (.call id) t' := by
  have hid := hs.served _ _ _ hcall
  obtain ⟨job, hjob⟩ := Option.isSome_iff_exists.mp hid
  cases hneeds : needsInstantiation wish with
  | true =>
    cases hinstantiation : job.instantiation with
    | entering => exact .inr ⟨_, .instantiated hcall hneeds (.entering hjob hinstantiation)⟩
    | walking walk => exact .inr ⟨_, .instantiated hcall hneeds (.walking hjob hinstantiation)⟩
    | unasked => exact .inl (Rule.callEnters hcall hneeds hjob hinstantiation).isSome_step?
    | done result =>
      cases result with
      | error e => exact .inl (Rule.callFailed hcall hneeds hjob hinstantiation).isSome_step?
      | ok _ => exact .inl (Rule.callInstantiated hcall hneeds hjob hinstantiation).isSome_step?
  | false =>
    have hanswer : ∀ answer, m.answer? jobId wish = some answer →
        (m.step? (m.actionOf (.call id))).isSome = true :=
      fun answer hanswer => (Rule.callAnswered hcall hneeds hanswer).isSome_step?
    have hpreparation (hwish : wish = .unit ∨ wish = .namespace)
        (hgiven : ∀ result, m.loader.prepared? jobId = some result →
          ∃ answer, m.answer? jobId wish = some answer) :
        (m.step? (m.actionOf (.call id))).isSome = true ∨ ∃ t', m.Waits (.call id) t' := by
      rcases preparation_of_job hid with ⟨result, hresult⟩ | hpending
      · obtain ⟨answer, hgot⟩ := hgiven result hresult
        exact .inl (hanswer answer hgot)
      · exact .inr ⟨_, .unit hcall hwish hpending⟩
    have hlinking (hwish : wish = .linked ∨ wish = .dependencies)
        (hgiven : ∀ result, m.loader.linked? jobId = some result →
          ∃ answer, m.answer? jobId wish = some answer) :
        (m.step? (m.actionOf (.call id))).isSome = true ∨ ∃ t', m.Waits (.call id) t' := by
      rcases linking_of_job hid with ⟨result, hresult⟩ | hpending
      · obtain ⟨answer, hgot⟩ := hgiven result hresult
        exact .inl (hanswer answer hgot)
      · exact .inr ⟨_, .linked hcall hwish hpending⟩
    cases wish with
    | job => exact .inl (hanswer _ rfl)
    | unit => exact hpreparation (.inl rfl) fun result h =>
        Option.isSome_iff_exists.mp (by simp [answer?, h])
    | «namespace» => exact hpreparation (.inr rfl) fun result h =>
        Option.isSome_iff_exists.mp (by simp [answer?, h])
    | linked => exact hlinking (.inl rfl) fun result h =>
        Option.isSome_iff_exists.mp (by simp [answer?, h])
    | dependencies => exact hlinking (.inr rfl) fun result h =>
        Option.isSome_iff_exists.mp (by simp [answer?, h])
    | instantiated | completion | imported => cases hneeds

/-- A call is answered, gets further, or waits for somebody. -/
theorem call_goes_on (hs : m.loader.Standing) {id : CallId} (h : m.Pending (.call id)) :
    (m.step? (m.actionOf (.call id))).isSome = true ∨ ∃ t', m.Waits (.call id) t' := by
  cases h with
  | @call _ state hcall hnone =>
    cases state with
    | answered answer => cases hnone
    | serving job wish => exact serving_goes_on hs hcall
    | resolving request =>
      rcases request_goes_on (hs.heard.resolving _ _ hcall).1 with ⟨outcome, houtcome⟩ | ⟨c, hc⟩
      · exact .inl (Rule.callResolved hcall houtcome).isSome_step?
      · exact .inr ⟨_, .resolving hcall hc⟩
    | locating request wish =>
      have hawaited : m.loader.awaited? (.call id) = some request := by
        show (m.loader.calls[id.index]?).bind _ = _
        rw [hcall]
        rfl
      rcases request_goes_on (hs.heard.awaited _ _ hawaited) with ⟨outcome, houtcome⟩ | ⟨c, hc⟩
      · cases outcome with
        | error e => exact .inl (Rule.callUnresolved hcall houtcome).isSome_step?
        | ok target => exact .inl (Rule.callServed hcall houtcome).isSome_step?
      · exact .inr ⟨_, .locating hcall hc⟩

/-- Whoever is not at his end can take a step, or waits for somebody. -/
theorem Pending.goes_on (h : m.Pending t) (hs : m.loader.Standing)
    (hprobes : 1 ≤ m.loader.resolver.settings.maxProbes) :
    (m.step? (m.actionOf t)).isSome = true ∨ ∃ t', m.Waits t t' := by
  cases t with
  | call id => exact call_goes_on hs h
  | instantiation id =>
    cases h with
    | entering hjob hentering => exact entering_goes_on hjob hentering
    | walking hjob hwalking => exact walking_goes_on hs hjob hwalking
  | linking id => exact linking_goes_on h
  | dependency id index => exact dependency_goes_on hs h
  | preparation id => exact .inl (preparation_goes_on h)
  | question probe => exact question_goes_on hs hprobes h

/-- Those for whom others wait are under way themselves. -/
theorem Waits.pending (h : m.Waits t t') (hr : m.loader.resolver.Sound) : m.Pending t' := by
  cases h with
  | permit _ hholder =>
    obtain ⟨p, hp, hasked⟩ := hr.open_of_holder hholder
    exact .question hp (by rw [hasked]; rfl)
  | _ => assumption

/-- A task can take a step exactly if it waits for nobody. -/
theorem Pending.goes_on_iff (h : m.Pending t) (hs : m.loader.Standing)
    (hprobes : 1 ≤ m.loader.resolver.settings.maxProbes) :
    (m.step? (m.actionOf t)).isSome = true ↔ ¬ ∃ t', m.Waits t t' := by
  obtain ⟨log, hw⟩ := hs.waiting
  constructor
  · rintro hstep ⟨t', hwaits⟩
    rw [hwaits.blocked hw.sound] at hstep
    cases hstep
  · exact (h.goes_on hs hprobes).resolve_right

/-- Behind every task there is one that can take a step. -/
theorem Pending.exists_step (h : m.Pending t) (hs : m.loader.Standing)
    (hprobes : 1 ≤ m.loader.resolver.settings.maxProbes) :
    ∃ t', ReflTransGen m.Waits t t' ∧ m.Pending t' ∧
      (m.step? (m.actionOf t')).isSome = true := by
  obtain ⟨log, hw⟩ := hs.waiting
  -- along the wait-for relation the rank falls
  induction hrank : m.rank t using Nat.strong_induction_on generalizing t with
  | _ rank ih =>
    rcases h.goes_on hs hprobes with hstep | ⟨next, hwaits⟩
    · exact ⟨t, .refl, h, hstep⟩
    · obtain ⟨last, hpath, hpending, hstep⟩ := ih (m.rank next)
        (hrank ▸ hwaits.rank_lt hw.sound) (hwaits.pending hw.sound) rfl
      exact ⟨last, .head hwaits hpath, hpending, hstep⟩

/--
As long as anything is under way, a task on which it depends can take a step, and nobody depends on
himself. This holds after every run over any files and libraries, whatever the modules import and
however the calls come.
-/
theorem no_deadlock (host : Host) (settings : Settings) (events : List Event)
    (hprobes : 1 ≤ settings.maxProbes) (hjobs : OnJobs (ofSettings host settings) events) :
    let m := (ofSettings host settings).after events
    (∀ t, ¬ TransGen m.Waits t t) ∧
    (∀ t t', m.Waits t t' → m.Pending t') ∧
    (∀ t, m.Pending t → ((m.step? (m.actionOf t)).isSome = true ↔ ¬ ∃ t', m.Waits t t')) ∧
    ∀ t, m.Pending t → ∃ t', ReflTransGen m.Waits t t' ∧ m.Pending t' ∧
      (m.step? (m.actionOf t')).isSome = true := by
  intro m
  have hs : m.loader.Standing := standing_after (standing_fresh host settings) hjobs
  have hprobes' : 1 ≤ m.loader.resolver.settings.maxProbes := by
    rw [(later_after (Resolver.sound_ofSettings settings) events).resolver.settings]
    exact hprobes
  obtain ⟨log, hw⟩ := hs.waiting
  exact ⟨fun t hself => (rank_lt_of_transGen hself hw.sound).false,
    fun t t' hwaits => hwaits.pending hw.sound,
    fun t hpending => hpending.goes_on_iff hs hprobes',
    fun t hpending => hpending.exists_step hs hprobes'⟩

/-- Two modules that import each other, and one of them itself, with one permit for all questions. -/
def selfish : Machine :=
  ofSettings (.ofScripts [("/a", "import './a'; import './b';"), ("/b", "import './a';")])
    { Settings.atRoot with maxProbes := 1 }

/-- Both are called for, and only one question is asked so far. -/
def bothAsked : List Event :=
  [.step (.start (.find "./a" none .imported)), .step (.start (.find "./b" none .instantiated)),
    .step (.acquire ⟨⟨0⟩, .literal⟩), .step (.acquire ⟨⟨1⟩, .literal⟩)]

theorem pending_of_any {id : CallId}
    (h : (m.loader.calls[id.index]?).any (fun state => state.answer?.isNone) = true) :
    m.Pending (.call id) := by
  obtain ⟨state, hstate, hnone⟩ := (Option.any_eq_true _ _).mp h
  exact .call hstate (Option.isNone_iff_eq_none.mp hnone)

/-- The second call waits for a question that waits for the first one's. -/
theorem no_deadlock_selfish : 1 ≤ selfish.loader.resolver.settings.maxProbes ∧
    OnJobs selfish bothAsked ∧ (selfish.after bothAsked).Pending (.call ⟨1⟩) ∧
    ∃ t', ReflTransGen (selfish.after bothAsked).Waits (.call ⟨1⟩) t' ∧
      (selfish.after bothAsked).Pending t' ∧
      ((selfish.after bothAsked).step? ((selfish.after bothAsked).actionOf t')).isSome = true :=
  have hprobes : 1 ≤ selfish.loader.resolver.settings.maxProbes := by decide
  have hjobs : OnJobs selfish bothAsked := ⟨trivial, trivial, trivial, trivial, trivial⟩
  have hpending : (selfish.after bothAsked).Pending (.call ⟨1⟩) :=
    pending_of_any (by decide +kernel)
  ⟨hprobes, hjobs, hpending, (no_deadlock _ _ bothAsked hprobes hjobs).2.2.2 _ hpending⟩

end Machine

end ModuleLoader
