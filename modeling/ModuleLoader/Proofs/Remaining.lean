import Mathlib.Algebra.Order.BigOperators.Group.Finset
import ModuleLoader.Proofs.Importing
import ModuleLoader.Proofs.Probing

/-!
# What is left to do

What a loader still has to do is counted here: for jobs, for jobs that are not made yet, for requests
and for calls. The count needs a bound on the jobs that there will be and on their dependencies.

Results:
1. `Machine.toGo`: the steps that a loader still has to take.
2. `Walk.toGo_visit`, `Walk.toGo_pass`: a walk over jobs comes closer to its end, also where jobs
   depend on each other.
3. `Rule.toGo_lt`: every step of the loader itself takes something from the count.
-/

namespace ModuleLoader

/-! ## What is left to do -/

/-- The steps that a preparation still has to take. -/
def Preparation.toGo : Preparation → Nat
  | idle => 2
  | reading _ => 1
  | done _ => 0

theorem Preparation.toGo_le (p : Preparation) : p.toGo ≤ 2 := by
  unfold toGo
  split <;> decide

/-- The steps that a dependency still has to take, with those of its request to come. -/
def Wiring.toGo : Wiring → Nat
  | unasked => 7
  | resolving _ => 2
  | located _ => 1
  | wired _ => 0

/-- The steps that a link phase still has to take, with at most so many dependencies. -/
def Linking.toGo (width : Nat) : Linking → Nat
  | waiting => 7 * width + 2
  | wiring dependencies => (dependencies.map fun d => d.wiring.toGo).sum + 1
  | done _ => 0

/-- The jobs that a walk has not visited, of so many. -/
def Walk.unvisited (most : Nat) (w : Walk) : Nat :=
  ((Finset.range most).filter fun i => (⟨i⟩ : JobId) ∉ w.members).card

/-- The steps that a walk still has to take. Each visit may add so many jobs to the stack. -/
def Walk.toGo (most width : Nat) (w : Walk) : Nat :=
  w.stack.length + (width + 1) * w.unvisited most + 1

/-- The steps that an instantiation still has to take. -/
def Instantiation.toGo (most width : Nat) : Instantiation → Nat
  | unasked => (width + 1) * most + 4
  | entering => (width + 1) * most + 3
  | walking w => w.toGo most width
  | done _ => 0

/-- The steps that a job still has to take. -/
def Job.toGo (most width : Nat) (job : Job) : Nat :=
  job.preparation.toGo + job.linking.toGo width + job.instantiation.toGo most width

/-- The steps of a job from the beginning. -/
def Job.whole (most width : Nat) : Nat := 2 + (7 * width + 2) + ((width + 1) * most + 4)

def Call.toGo : Call → Nat
  | resolving _ => 1
  | locating .. => 2
  | serving .. => 1
  | answered _ => 0

namespace Loader

/-- The steps of one job, also if it is not made yet. -/
def toGoAt (most width : Nat) (l : Loader) (id : JobId) : Nat :=
  (l.job? id).elim (Job.whole most width) (Job.toGo most width)

/-- The steps that all jobs still have to take, of which there will be so many. -/
def jobsToGo (most width : Nat) (l : Loader) : Nat :=
  ∑ i ∈ Finset.range most, l.toGoAt most width ⟨i⟩

/-- The steps that all calls still have to take by themselves. -/
def callsToGo (l : Loader) : Nat := (l.calls.toList.map Call.toGo).sum

end Loader

/-- The steps that a loader still has to take. -/
def Machine.toGo (most width : Nat) (m : Machine) : Nat :=
  m.loader.jobsToGo most width + m.loader.resolver.remaining + m.loader.callsToGo

/-- The jobs of a loader are not more than these, and none has more dependencies. -/
structure Machine.Bounded (most width : Nat) (m : Machine) : Prop where
  jobs : m.loader.jobs.size ≤ most
  wiring : ∀ id job dependencies, m.loader.job? id = some job →
    job.linking = .wiring dependencies → dependencies.length ≤ width
  linked : ∀ id jobs, m.loader.linked? id = some (.ok jobs) → jobs.length ≤ width

/-! ## Parts of the count -/

namespace Walk

variable {most width : Nat} {w : Walk} {next : JobId} {rest dependencies : List JobId}

theorem unvisited_visit (rest dependencies : List JobId) (hnew : next ∉ w.members)
    (hlt : next.index < most) :
    (w.visit next rest dependencies).unvisited most < w.unvisited most := by
  have hmembers : (w.visit next rest dependencies).members = w.members ++ [next] := rfl
  unfold unvisited
  rw [hmembers]
  refine Finset.card_lt_card ⟨fun i hi => ?_, fun hsubset => ?_⟩
  · obtain ⟨hrange, hnot⟩ := Finset.mem_filter.mp hi
    exact Finset.mem_filter.mpr ⟨hrange, fun hin => hnot (List.mem_append_left _ hin)⟩
  · have hin := hsubset (Finset.mem_filter.mpr ⟨Finset.mem_range.mpr hlt, hnew⟩)
    exact (Finset.mem_filter.mp hin).2 (List.mem_append_right _ (List.mem_singleton_self _))

theorem toGo_pos (most width : Nat) (w : Walk) : 0 < w.toGo most width := Nat.succ_pos _

theorem toGo_start (root : JobId) : (start root).toGo most width ≤ (width + 1) * most + 2 := by
  have hcard : (start root).unvisited most ≤ most := by
    have hfilter := Finset.card_filter_le (Finset.range most) fun i => (⟨i⟩ : JobId) ∉ (start root).members
    rwa [Finset.card_range] at hfilter
  have hmul := Nat.mul_le_mul_left (width + 1) hcard
  have hstack : (start root).stack.length = 1 := rfl
  unfold toGo
  omega

theorem toGo_pass (hstack : w.stack = next :: rest) :
    ({ w with stack := rest } : Walk).toGo most width < w.toGo most width := by
  have hbefore : w.stack.length = rest.length + 1 := by
    rw [hstack]
    rfl
  have hsame : ({ w with stack := rest } : Walk).unvisited most = w.unvisited most := rfl
  unfold toGo
  rw [hsame]
  dsimp only
  omega

theorem toGo_visit (hstack : w.stack = next :: rest) (hnew : next ∉ w.members)
    (hlt : next.index < most) (hwidth : dependencies.length ≤ width) :
    (w.visit next rest dependencies).toGo most width < w.toGo most width := by
  have hmul := Nat.mul_le_mul_left (width + 1) (unvisited_visit rest dependencies hnew hlt)
  have hfilter := List.length_filter_le (fun d => !(w.members ++ [next]).elem d) dependencies
  have hlength : (w.visit next rest dependencies).stack.length =
      (dependencies.filter fun d => !(w.members ++ [next]).elem d).length + rest.length :=
    List.length_append
  have hbefore : w.stack.length = rest.length + 1 := by
    rw [hstack]
    rfl
  rw [Nat.succ_eq_add_one, Nat.mul_add] at hmul
  unfold toGo
  omega

end Walk

namespace Linking

variable {width : Nat} {dependencies : List Dependency} {index : Nat} {d : Dependency}

/-- A link phase that begins asks for each of its dependencies. -/
theorem toGo_begun {specifiers : List String} (h : specifiers.length ≤ width) :
    (Linking.wiring (specifiers.map fun specifier => { specifier })).toGo width + 1 ≤
      Linking.waiting.toGo width := by
  have hsum : ((specifiers.map fun specifier => ({ specifier } : Dependency)).map
      fun d => d.wiring.toGo).sum = 7 * specifiers.length := by
    rw [List.map_map]
    change (specifiers.map fun _ => 7).sum = _
    rw [List.map_const', List.sum_replicate_nat, Nat.mul_comm]
  have hmul := Nat.mul_le_mul_left 7 h
  change (List.map _ _).sum + 1 + 1 ≤ 7 * width + 2
  rw [hsum]
  omega

/-- One dependency gets further. -/
theorem toGo_modify (width : Nat) (hd : dependencies[index]? = some d) (wiring : Wiring) :
    (Linking.wiring (dependencies.modify index fun d => { d with wiring })).toGo width +
      d.wiring.toGo = (Linking.wiring dependencies).toGo width + wiring.toGo := by
  have hsum := sum_map_modify (fun d : Dependency => { d with wiring }) (fun d => d.wiring.toGo) hd
  unfold toGo
  dsimp only at hsum ⊢
  omega

end Linking

namespace Resolver

/-- A request that is withdrawn has nothing left to do. -/
theorem remaining_abandon (r : Resolver) (id : RequestId) :
    (r.abandon id).remaining ≤ r.remaining := by
  unfold abandon
  split
  next => exact Nat.le_refl _
  next =>
    unfold remaining
    rw [Array.toList_modify]
    cases hrequest : r.requests[id.index]? with
    | none =>
      rw [List.modify_eq_self (Array.getElem?_eq_none_iff.mp hrequest)]
    | some request =>
      have hsum := sum_map_modify (fun _ => Request.abandoned) Request.remaining
        (Array.getElem?_toList ▸ hrequest)
      have hnone : Request.abandoned.remaining = 0 := rfl
      omega

theorem remaining_abandonAll (r : Resolver) (dependencies : List Dependency) :
    (r.abandonAll dependencies).remaining ≤ r.remaining :=
  abandonAll_induction (P := fun r' => r'.remaining ≤ r.remaining)
    (fun id h => Nat.le_trans (remaining_abandon _ id) h) (Nat.le_refl _) dependencies

end Resolver

namespace Job

variable {most width d : Nat} {job : Job}

theorem toGo_setPreparation {p : Preparation} (h : p.toGo + d ≤ job.preparation.toGo) :
    ({ job with preparation := p } : Job).toGo most width + d ≤ job.toGo most width := by
  unfold toGo
  dsimp only
  omega

theorem toGo_setLinking {p : Linking} (h : p.toGo width + d ≤ job.linking.toGo width) :
    ({ job with linking := p } : Job).toGo most width + d ≤ job.toGo most width := by
  unfold toGo
  dsimp only
  omega

theorem toGo_setInstantiation {p : Instantiation}
    (h : p.toGo most width + d ≤ job.instantiation.toGo most width) :
    ({ job with instantiation := p } : Job).toGo most width + d ≤ job.toGo most width := by
  unfold toGo
  dsimp only
  omega

end Job

namespace Loader

variable {most width : Nat} {l l' : Loader} {id : JobId} {job : Job} {f : Job → Job}

theorem jobsToGo_le (h : ∀ id, l'.toGoAt most width id ≤ l.toGoAt most width id) :
    l'.jobsToGo most width ≤ l.jobsToGo most width :=
  Finset.sum_le_sum fun i _ => h ⟨i⟩

/-- One job gets further, and no other one back. -/
theorem jobsToGo_add_le {d : Nat} (hid : id.index < most)
    (hown : l'.toGoAt most width id + d ≤ l.toGoAt most width id)
    (hothers : ∀ i, id ≠ i → l'.toGoAt most width i ≤ l.toGoAt most width i) :
    l'.jobsToGo most width + d ≤ l.jobsToGo most width := by
  obtain ⟨own⟩ := id
  have hin : own ∈ Finset.range most := Finset.mem_range.mpr hid
  have hrest : ∑ i ∈ (Finset.range most).erase own, l'.toGoAt most width ⟨i⟩ ≤
      ∑ i ∈ (Finset.range most).erase own, l.toGoAt most width ⟨i⟩ :=
    Finset.sum_le_sum fun i hi => hothers ⟨i⟩ fun heq =>
      (Finset.mem_erase.mp hi).1 (congrArg JobId.index heq).symm
  unfold jobsToGo
  rw [← Finset.add_sum_erase _ _ hin, ← Finset.add_sum_erase _ _ hin]
  omega

theorem toGoAt_of_job? (h : l.job? id = some job) :
    l.toGoAt most width id = job.toGo most width := by
  unfold toGoAt
  rw [h]
  rfl

/-- One job gets further. -/
theorem jobsToGo_changeJob {d : Nat} (hsize : l.jobs.size ≤ most) (hjob : l.job? id = some job)
    (hless : (f job).toGo most width + d ≤ job.toGo most width) :
    (l.changeJob id f).jobsToGo most width + d ≤ l.jobsToGo most width := by
  refine jobsToGo_add_le (Nat.lt_of_lt_of_le (job?_lt hjob) hsize) ?_ fun i hi => ?_
  · rw [toGoAt_of_job? hjob, toGoAt_of_job? (job?_changeJob_self f hjob)]
    exact hless
  · unfold toGoAt
    rw [job?_changeJob, if_neg hi]

theorem callsToGo_of_setCall {call : CallId} {state : Call}
    (h : l.calls[call.index]? = some state) (state' : Call)
    (hcalls : l'.calls = l.calls.setIfInBounds call.index state') :
    l'.callsToGo + state.toGo = l.callsToGo + state'.toGo := by
  unfold callsToGo
  rw [hcalls, Array.toList_setIfInBounds, List.set_eq_modify]
  exact sum_map_modify _ Call.toGo (Array.getElem?_toList ▸ h)

end Loader

/-! ## Every step takes something -/

namespace Machine

variable {most width : Nat} {m m' : Machine} {action : Action} {id : JobId} {job : Job}

/-- A job that is made is one that was to come. -/
theorem jobsToGo_serve (m : Machine) (request : RequestId) (target : Resolved) :
    (m.serve request target).1.loader.jobsToGo most width ≤ m.loader.jobsToGo most width := by
  refine Loader.jobsToGo_le fun i => ?_
  cases hjob : (m.serve request target).1.loader.job? i with
  | none =>
    have hbefore : m.loader.job? i = none := by
      cases hold : m.loader.job? i with
      | none => rfl
      | some job => cases hjob.symm.trans (job?_serve request target hold)
    unfold Loader.toGoAt
    rw [hjob, hbefore]
  | some job =>
    rcases job?_of_serve hjob with hold | ⟨-, rfl, preparation, rfl⟩
    · rw [Loader.toGoAt_of_job? hjob, Loader.toGoAt_of_job? hold]
    · have hnone : m.loader.job? ⟨m.loader.jobs.size⟩ = none := Array.getElem?_eq_none (Nat.le_refl _)
      have hpreparation := preparation.toGo_le
      rw [Loader.toGoAt_of_job? hjob]
      unfold Loader.toGoAt
      rw [hnone]
      change preparation.toGo + (7 * width + 2) + ((width + 1) * most + 4) ≤
        2 + (7 * width + 2) + ((width + 1) * most + 4)
      omega

/-- Those who join a component have no steps less to take for that, only its root. -/
theorem jobsToGo_instantiateMembers {walk : Walk} (width : Nat)
    (hsize : m.loader.jobs.size ≤ most) (hjob : m.loader.job? id = some job)
    (hwalking : job.instantiation = .walking walk) (unit : UnitId) (members : List JobId) :
    (m.instantiateMembers id unit members).loader.jobsToGo most width + 1 ≤
      m.loader.jobsToGo most width := by
  refine Loader.jobsToGo_add_le (Nat.lt_of_lt_of_le (Loader.job?_lt hjob) hsize) ?_ fun i hi => ?_
  · have hafter := job?_instantiateMembers m id unit members id
    rw [hjob] at hafter
    rw [Loader.toGoAt_of_job? hjob, Loader.toGoAt_of_job? hafter]
    unfold Job.toGo
    dsimp only
    rw [if_pos rfl, hwalking]
    exact Nat.add_le_add_left (walk.toGo_pos most width) _
  · unfold Loader.toGoAt
    rw [job?_instantiateMembers]
    cases m.loader.job? i with
    | none => exact Nat.le_refl _
    | some other =>
      rw [Option.map_some, Option.elim_some, Option.elim_some]
      unfold Job.toGo
      dsimp only
      rw [if_neg hi]

/-- One job gets further, maybe with a request to come that counts for less. -/
theorem toGo_lt_of_changeJob {l : Loader} {f : Job → Job} (d : Nat) (hsize : l.jobs.size ≤ most)
    (hjob : l.job? id = some job)
    (hless : (f job).toGo most width + (d + 1) ≤ job.toGo most width)
    (hjobs : l.jobsToGo most width ≤ m.loader.jobsToGo most width)
    (hresolver : l.resolver.remaining ≤ m.loader.resolver.remaining + d)
    (hcalls : l.calls = m.loader.calls) (hafter : m'.loader = l.changeJob id f) :
    m'.toGo most width < m.toGo most width := by
  have hchanged := Loader.jobsToGo_changeJob hsize hjob hless
  have hsame : (l.changeJob id f).resolver.remaining = l.resolver.remaining := rfl
  have hother : (l.changeJob id f).callsToGo = m.loader.callsToGo := by
    change (l.calls.toList.map Call.toGo).sum = _
    rw [hcalls]
    rfl
  unfold toGo
  rw [hafter, hother, hsame]
  omega

/-- One job gets further, and nothing else happens. -/
theorem toGo_lt_of_job {f : Job → Job} (hm : m.Bounded most width)
    (hjob : m.loader.job? id = some job)
    (hless : (f job).toGo most width + 1 ≤ job.toGo most width)
    (hafter : m'.loader = m.loader.changeJob id f) : m'.toGo most width < m.toGo most width :=
  toGo_lt_of_changeJob 0 hm.jobs hjob hless (Nat.le_refl _) (Nat.le_refl _) rfl hafter

/-- A call gets further, and no job or request back. -/
theorem toGo_lt_setCall {n : Machine} {call : CallId} {state state' : Call}
    (hcall : m.loader.calls[call.index]? = some state) (hless : state'.toGo < state.toGo)
    (hcalls : n.loader.calls = m.loader.calls)
    (hjobs : n.loader.jobsToGo most width ≤ m.loader.jobsToGo most width)
    (hresolver : n.loader.resolver.remaining ≤ m.loader.resolver.remaining) :
    (n.setCall call state').toGo most width < m.toGo most width := by
  have hsum : (n.setCall call state').loader.callsToGo + state.toGo =
      m.loader.callsToGo + state'.toGo :=
    Loader.callsToGo_of_setCall hcall state' (congrArg (·.setIfInBounds call.index state') hcalls)
  change n.loader.jobsToGo most width + n.loader.resolver.remaining + _ < _
  unfold toGo
  omega

/-- A call is answered, with whatever happens in the host. -/
theorem toGo_lt_answered {n : Machine} {call : CallId} {state : Call}
    (hcall : m.loader.calls[call.index]? = some state) (hopen : 0 < state.toGo)
    (hloader : n.loader = m.loader) (answer : Except LoadError Answer) :
    (n.setCall call (.answered answer)).toGo most width < m.toGo most width :=
  toGo_lt_setCall hcall hopen (congrArg Loader.calls hloader)
    (Nat.le_of_eq (congrArg (Loader.jobsToGo most width) hloader))
    (Nat.le_of_eq (congrArg (fun l : Loader => l.resolver.remaining) hloader))

theorem toGo_lt_of_resolver {r : Resolver} (h : r.remaining + 1 ≤ m.loader.resolver.remaining) :
    (m.withResolver r).toGo most width < m.toGo most width := by
  change m.loader.jobsToGo most width + r.remaining + m.loader.callsToGo <
    m.loader.jobsToGo most width + m.loader.resolver.remaining + m.loader.callsToGo
  omega

/-- A link phase that fails has nothing more to do, and its requests have not either. -/
theorem toGo_lt_failLinking {dependencies : List Dependency} (hm : m.Bounded most width)
    (hjob : m.loader.job? id = some job) (hwiring : job.linking = .wiring dependencies)
    (e : LoadError) : (m.failLinking id dependencies e).toGo most width < m.toGo most width := by
  rw [failLinking_eq]
  refine toGo_lt_of_changeJob 0
    (l := (m.withResolver (m.loader.resolver.abandonAll dependencies)).loader) hm.jobs hjob
    (Job.toGo_setLinking ?_) (Nat.le_refl _) (Resolver.remaining_abandonAll _ dependencies) rfl rfl
  rw [hwiring]
  exact Nat.succ_le_succ (Nat.zero_le _)

/-- A walk that has ended takes nothing more for its root. -/
theorem toGo_lt_instantiateMembers {walk : Walk} (hm : m.Bounded most width)
    (hjob : m.loader.job? id = some job) (hwalking : job.instantiation = .walking walk)
    (unit : UnitId) (members : List JobId) :
    (m.instantiateMembers id unit members).toGo most width < m.toGo most width := by
  have hjobs := jobsToGo_instantiateMembers width hm.jobs hjob hwalking unit members
  obtain ⟨jobs, hloader⟩ := loader_instantiateMembers m id unit members
  have hresolver := congrArg (fun l : Loader => l.resolver.remaining) hloader
  have hcalls := congrArg Loader.callsToGo hloader
  change _ = m.loader.resolver.remaining at hresolver
  change _ = m.loader.callsToGo at hcalls
  unfold toGo
  omega

/-- Every step of the loader itself takes something. -/
theorem Rule.toGo_lt (h : Rule m action m') (hinternal : action.Internal)
    (hr : m.loader.resolver.Sound) (hm : m.Bounded most width) (hm' : m'.Bounded most width) :
    m'.toGo most width < m.toGo most width := by
  cases h with
  | startResolve | startFind | startEval | startAsk | supply => cases hinternal
  | @acquire probe r hacquire =>
    have hevent : m.loader.resolver.step? m.host.files (.acquire probe) = some r := hacquire
    exact toGo_lt_of_resolver (Resolver.remaining_step hevent hr)
  | @answer probe r hanswer =>
    have hevent : m.loader.resolver.step? m.host.files (.answer probe) = some r := hanswer
    exact toGo_lt_of_resolver (Resolver.remaining_step hevent hr)
  | prepareHere hjob hidle | prepareFile hjob hidle =>
    refine toGo_lt_of_job hm hjob (Job.toGo_setPreparation ?_) rfl
    rw [hidle]
    first | exact Nat.le_succ 1 | exact Nat.le_refl 2
  | read hjob hreading =>
    refine toGo_lt_of_job hm hjob (Job.toGo_setPreparation ?_) rfl
    rw [hreading]
    exact Nat.le_refl 1
  | linkUnprepared hjob hwaiting | linkRefused hjob hwaiting =>
    refine toGo_lt_of_job hm hjob (Job.toGo_setLinking ?_) rfl
    rw [hwaiting]
    exact Nat.succ_le_succ (Nat.zero_le _)
  | @linkBegun id job unit store specifiers hjob hwaiting =>
    have hwidth := hm'.wiring id _ _ (Loader.job?_changeJob_self _ hjob) rfl
    rw [List.length_map] at hwidth
    refine toGo_lt_of_job hm hjob (Job.toGo_setLinking ?_) rfl
    rw [hwaiting]
    exact Linking.toGo_begun hwidth
  | linkEnded hjob hwiring =>
    refine toGo_lt_of_job hm hjob (Job.toGo_setLinking ?_) rfl
    rw [hwiring]
    exact Nat.succ_le_succ (Nat.zero_le _)
  | @wireAsked id index job dependencies d hjob hwiring hdep hunasked =>
    have hmodify := Linking.toGo_modify width hdep
      (.resolving (m.ask d.specifier (some job.url)).2)
    rw [hunasked] at hmodify
    refine toGo_lt_of_changeJob 4 (l := (m.ask d.specifier (some job.url)).1.loader) hm.jobs hjob
      (Job.toGo_setLinking ?_) (Nat.le_refl _) (Resolver.remaining_ask _ _ _) rfl rfl
    rw [hwiring]
    exact Nat.le_of_add_le_add_right (b := 2) (Nat.le_of_eq hmodify)
  | wireDropped hjob hwiring | wireUnresolved hjob hwiring | wireUnprepared hjob hwiring =>
    exact toGo_lt_failLinking hm hjob hwiring _
  | @wireServed id index job dependencies d request target hjob hwiring hdep hresolving =>
    have hmodify := Linking.toGo_modify width hdep (.located (m.serve request target).2)
    rw [hresolving] at hmodify
    have hsize : (m.serve request target).1.loader.jobs.size ≤ most :=
      Array.size_modify ▸ hm'.jobs
    refine toGo_lt_of_changeJob 0 hsize (job?_serve request target hjob) (Job.toGo_setLinking ?_)
      (jobsToGo_serve m request target) (Nat.le_of_eq (by rw [resolver_serve]; rfl))
      (calls_serve m request target) rfl
    rw [hwiring]
    exact Nat.le_of_add_le_add_right (b := 1) (Nat.le_of_eq hmodify)
  | @wireEnded id index job dependencies d found other unit hjob hwiring hdep hlocated =>
    have hmodify := Linking.toGo_modify width hdep (.wired found)
    rw [hlocated] at hmodify
    refine toGo_lt_of_job hm hjob (Job.toGo_setLinking ?_) rfl
    rw [hwiring]
    exact Nat.le_of_eq hmodify
  | enterJoined hjob hentering | enterUnprepared hjob hentering | enterDropped hjob hentering =>
    refine toGo_lt_of_job hm hjob (Job.toGo_setInstantiation ?_) rfl
    rw [hentering]
    exact Nat.succ_le_succ (Nat.zero_le _)
  | enterWalk hjob hentering =>
    refine toGo_lt_of_job hm hjob (Job.toGo_setInstantiation ?_) rfl
    rw [hentering]
    exact Nat.succ_le_succ (Walk.toGo_start _)
  | walkPass hjob hwalking hstack =>
    refine toGo_lt_of_job hm hjob (Job.toGo_setInstantiation ?_) rfl
    rw [hwalking]
    exact Walk.toGo_pass hstack
  | walkVisit hjob hwalking hstack hnew hlinked =>
    obtain ⟨other, hother, -⟩ := Loader.linked?_eq_some.mp hlinked
    refine toGo_lt_of_job hm hjob (Job.toGo_setInstantiation ?_) rfl
    rw [hwalking]
    exact Walk.toGo_visit hstack hnew (Nat.lt_of_lt_of_le (Loader.job?_lt hother) hm.jobs)
      (hm.linked _ _ hlinked)
  | @walkStopped _ _ _ walk _ _ hjob hwalking | @walkJoined _ _ walk _ hjob hwalking =>
    refine toGo_lt_of_job hm hjob (Job.toGo_setInstantiation ?_) rfl
    rw [hwalking]
    exact walk.toGo_pos most width
  | walkEnded hjob hwalking =>
    exact toGo_lt_instantiateMembers hm hjob hwalking _ _
  | callResolved hcall | callUnresolved hcall | callFailed hcall | callAnswered hcall =>
    exact toGo_lt_answered hcall (Nat.succ_pos _) rfl _
  | @callServed call request wish target hcall =>
    exact toGo_lt_setCall hcall (Nat.le_refl _) (calls_serve m request target)
      (jobsToGo_serve m request target)
      (Nat.le_of_eq (congrArg Resolver.remaining (resolver_serve m request target)))
  | callEnters _ _ hjob hunasked =>
    refine toGo_lt_of_job hm hjob (Job.toGo_setInstantiation ?_) rfl
    rw [hunasked]
    exact Nat.le_refl _
  | @callInstantiated call id wish job hcall =>
    exact toGo_lt_answered hcall (Nat.succ_pos _) (loader_serveInstantiated m id wish) _

end Machine

end ModuleLoader
