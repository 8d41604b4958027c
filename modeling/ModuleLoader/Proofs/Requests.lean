import ModuleLoader.Resolve.Resolver
/-!
# Requests of a resolver

A request that has an outcome keeps it. What could go wrong is an answer of the file system to a
question that has its answer already. It cannot come, because whoever uses the limiter has a
question that is asked and not answered, and is there once.

Results:
1. `Limiter.users_acquire`, `users_release`, `users_withdraw`: who uses a limiter, up to order.
2. `Resolver.Sound`: the users of the limiter are open questions, each there once; kept by every
   operation of a resolver.
3. `Resolver.Extends`: outcomes are kept, also by every operation.
4. `Resolver.Sound.error_isResolution`: a request fails with a resolution error only.
-/
namespace ModuleLoader

/-! ## The users of a limiter -/

namespace Limiter

variable {α : Type}

/-- Those with a permit, and those who wait for one. -/
def users (l : Limiter α) : List α := l.holders ++ l.waiting

theorem users_acquire (l : Limiter α) (a : α) : (l.acquire a).users.Perm (l.users ++ [a]) := by
  unfold acquire users
  split
  next => rw [List.append_assoc]
  next =>
    simp only [List.append_assoc]
    have hswap : ([a] ++ l.waiting).Perm (l.waiting ++ [a]) := List.perm_append_comm
    exact hswap.append_left _

variable [BEq α] [LawfulBEq α]

theorem users_release {l : Limiter α} {a : α} (h : a ∈ l.holders) :
    (l.release a).users.Perm (l.users.erase a) := by
  unfold release users
  rw [if_pos (List.elem_iff.mpr h), List.erase_append_left _ h]
  split
  next next rest hwaiting => rw [hwaiting, List.append_assoc]; rfl
  next hwaiting => rw [hwaiting]

theorem release_of_not_holder {l : Limiter α} {a : α} (h : a ∉ l.holders) : l.release a = l := by
  unfold release
  rw [if_neg fun he => h (List.elem_iff.mp he)]

theorem users_withdraw {l : Limiter α} (a : α) (h : l.users.Nodup) :
    (l.withdraw a).users.Perm (l.users.erase a) := by
  unfold withdraw
  by_cases hh : a ∈ l.holders
  · have hw : a ∉ l.waiting := fun hw => (List.nodup_append.mp h).2.2 a hh a hw rfl
    rw [List.erase_of_not_mem hw]
    exact users_release hh
  · rw [release_of_not_holder (l := { l with waiting := l.waiting.erase a }) hh]
    simp only [users, List.erase_append_right _ hh]
    exact .refl _

end Limiter

/-! ## Open questions -/

namespace Resolver

/-- A question that is asked and has no answer yet. -/
def Open (r : Resolver) (probe : Probe) : Prop :=
  ∃ p, r.requests[probe.request.index]? = some (.probing p) ∧ p.inquiry probe.candidate = .asked

/-- What holds of every resolver at work. -/
structure Sound (r : Resolver) : Prop where
  /-- Whoever uses the limiter has an open question. -/
  users_open : ∀ probe ∈ r.limiter.users, r.Open probe
  users_once : r.limiter.users.Nodup
  /-- What fails without a question to the file system fails with a resolution error. -/
  settled_error : ∀ (i : Nat) (e : LoadError),
    r.requests[i]? = some (.settled (.error e)) → e.isResolution = true

/-- What a resolver keeps of an earlier one. -/
structure Extends (r r' : Resolver) : Prop where
  settings : r'.settings = r.settings
  size : r.requests.size ≤ r'.requests.size
  outcome : ∀ id outcome, r.outcome? id = some outcome → r'.outcome? id = some outcome

theorem Extends.refl (r : Resolver) : r.Extends r := ⟨rfl, Nat.le_refl _, fun _ _ h => h⟩

theorem Extends.trans {r s t : Resolver} (h : r.Extends s) (h' : s.Extends t) : r.Extends t :=
  ⟨h'.settings.trans h.settings, Nat.le_trans h.size h'.size,
    fun id o ho => h'.outcome id o (h.outcome id o ho)⟩

theorem outcome?_lt {r : Resolver} {id : RequestId} {outcome : Except LoadError Resolved}
    (h : r.outcome? id = some outcome) : id.index < r.requests.size := by
  obtain ⟨request, hrequest, -⟩ := Option.bind_eq_some_iff.mp h
  exact (Array.getElem?_eq_some_iff.mp hrequest).1

theorem probing?_eq_some {r : Resolver} {id : RequestId} {p : Probing} :
    r.probing? id = some p ↔ r.requests[id.index]? = some (.probing p) := by
  unfold probing?
  split
  next q hq => simp [hq]
  next hne =>
    constructor
    · intro h; cases h
    · intro h; exact absurd h (hne p)

theorem inquiry_withInquiry (p : Probing) (inquiry : Inquiry) (c d : Candidate) :
    (p.withInquiry inquiry c).inquiry d = if c = d then inquiry else p.inquiry d := by
  cases c <;> cases d <;> rfl

theorem candidates_withInquiry (p : Probing) (inquiry : Inquiry) (c : Candidate) :
    (p.withInquiry inquiry c).candidates = p.candidates := by
  cases c <;> rfl

theorem getElem?_setInquiry (r : Resolver) (probe : Probe) (inquiry : Inquiry) (i : Nat) :
    (r.setInquiry probe inquiry).requests[i]? =
      if probe.request.index = i then
        r.requests[i]?.map fun
          | .probing p => .probing (p.withInquiry inquiry probe.candidate)
          | request => request
      else r.requests[i]? :=
  Array.getElem?_modify

/-- Setting one question leaves the others of all requests as they are. -/
theorem Open.setInquiry {r : Resolver} {probe other : Probe} {inquiry : Inquiry}
    (h : r.Open other) (hne : probe ≠ other) : (r.setInquiry probe inquiry).Open other := by
  obtain ⟨p, hp, hasked⟩ := h
  unfold Open
  rw [getElem?_setInquiry]
  by_cases hi : probe.request.index = other.request.index
  · refine ⟨p.withInquiry inquiry probe.candidate, by rw [if_pos hi, hp]; rfl, ?_⟩
    have hc : probe.candidate ≠ other.candidate := by
      intro hc
      obtain ⟨⟨i⟩, c⟩ := probe
      obtain ⟨⟨j⟩, d⟩ := other
      exact hne (by simp_all)
    rw [inquiry_withInquiry, if_neg hc]
    exact hasked
  · exact ⟨p, by rw [if_neg hi]; exact hp, hasked⟩

/-- A question that was not answered before gets no outcome of its request lost. -/
theorem outcome?_setInquiry {r : Resolver} {probe : Probe} {inquiry : Inquiry} {p : Probing}
    (hp : r.requests[probe.request.index]? = some (.probing p))
    (hopen : (p.inquiry probe.candidate).found? = none) {id : RequestId}
    {outcome : Except LoadError Resolved} (h : r.outcome? id = some outcome) :
    (r.setInquiry probe inquiry).outcome? id = some outcome := by
  by_cases hi : probe.request.index = id.index
  · -- the request of the question has no outcome, since both answers are needed for one
    exfalso
    unfold outcome? at h
    rw [← hi, hp] at h
    obtain ⟨⟨i⟩, c⟩ := probe
    cases c <;> simp_all [Request.outcome?, Probing.inquiry]
  · unfold outcome?
    rw [getElem?_setInquiry, if_neg hi]
    exact h

theorem settled_error_setInquiry {r : Resolver} (h : r.Sound) (probe : Probe) (inquiry : Inquiry)
    (i : Nat) (e : LoadError)
    (he : (r.setInquiry probe inquiry).requests[i]? = some (.settled (.error e))) :
    e.isResolution = true := by
  rw [getElem?_setInquiry] at he
  split at he
  next =>
    obtain ⟨request, hrequest, hr⟩ := Option.map_eq_some_iff.mp he
    split at hr
    next => cases hr
    next => exact h.settled_error i e (hr ▸ hrequest)
  next => exact h.settled_error i e he

/-! ## What each operation keeps -/

theorem sound_ofSettings (settings : Settings) : (ofSettings settings).Sound where
  users_open _ h := absurd h List.not_mem_nil
  users_once := List.nodup_nil
  settled_error i e h := by simp [ofSettings] at h

theorem target_error {settings : Settings} {specifier : String} {referrer : Option Url}
    {e : LoadError} (h : settings.target specifier referrer = .settled (.error e)) :
    e.isResolution = true := by
  unfold Settings.target Settings.targetOf at h
  repeat' split at h
  all_goals cases h
  all_goals rfl

theorem getElem?_ask (r : Resolver) (specifier : String) (referrer : Option Url) (i : Nat) :
    (r.ask specifier referrer).1.requests[i]? =
      if i = r.requests.size then
        some (match r.settings.target specifier referrer with
          | .settled result => .settled result
          | .candidates candidates => .probing { candidates })
      else r.requests[i]? := by
  unfold ask
  exact Array.getElem?_push

theorem extends_ask (r : Resolver) (specifier : String) (referrer : Option Url) :
    r.Extends (r.ask specifier referrer).1 where
  settings := rfl
  size := by simp [ask]
  outcome id o h := by
    have hlt := outcome?_lt h
    unfold outcome? at h ⊢
    rw [getElem?_ask, if_neg (Nat.ne_of_lt hlt)]
    exact h

theorem sound_ask {r : Resolver} (h : r.Sound) (specifier : String) (referrer : Option Url) :
    (r.ask specifier referrer).1.Sound where
  users_open probe hprobe := by
    obtain ⟨p, hp, hasked⟩ := h.users_open probe hprobe
    refine ⟨p, ?_, hasked⟩
    rw [getElem?_ask, if_neg (Nat.ne_of_lt (Array.getElem?_eq_some_iff.mp hp).1)]
    exact hp
  users_once := h.users_once
  settled_error i e he := by
    rw [getElem?_ask] at he
    split at he
    next =>
      split at he
      next result htarget =>
        cases he
        exact target_error htarget
      next => cases he
    next => exact h.settled_error i e he

theorem acquire?_eq_some {r r' : Resolver} {probe : Probe} (h : r.acquire? probe = some r') :
    ∃ p, r.requests[probe.request.index]? = some (.probing p) ∧
      p.inquiry probe.candidate = .unasked ∧
      r' = { r.setInquiry probe .asked with limiter := r.limiter.acquire probe } := by
  obtain ⟨p, hp, h⟩ := Option.bind_eq_some_iff.mp h
  split at h
  next hunasked => cases h; exact ⟨p, probing?_eq_some.mp hp, hunasked, rfl⟩
  next => cases h

theorem extends_acquire {r r' : Resolver} {probe : Probe} (h : r.acquire? probe = some r') :
    r.Extends r' := by
  obtain ⟨p, hp, hunasked, rfl⟩ := acquire?_eq_some h
  refine ⟨rfl, by simp [setInquiry], fun id o ho => ?_⟩
  exact outcome?_setInquiry (r := r) hp (by rw [hunasked]; rfl) ho

theorem sound_acquire {r r' : Resolver} {probe : Probe} (hr : r.Sound)
    (h : r.acquire? probe = some r') : r'.Sound := by
  obtain ⟨p, hp, hunasked, rfl⟩ := acquire?_eq_some h
  have hnew : probe ∉ r.limiter.users := by
    intro hin
    obtain ⟨q, hq, hasked⟩ := hr.users_open probe hin
    rw [hp] at hq
    cases hq
    rw [hunasked] at hasked
    cases hasked
  refine ⟨?_, ?_, settled_error_setInquiry hr probe .asked⟩
  · intro other hother
    have hmem := (Limiter.users_acquire r.limiter probe).mem_iff.mp hother
    rcases List.mem_append.mp hmem with hold | hnewest
    · exact (hr.users_open other hold).setInquiry (by rintro rfl; exact hnew hold)
    · cases List.mem_singleton.mp hnewest
      refine ⟨p.withInquiry .asked probe.candidate, ?_, ?_⟩
      · show (r.setInquiry probe .asked).requests[probe.request.index]? = _
        rw [getElem?_setInquiry, if_pos rfl, hp]
        rfl
      · rw [inquiry_withInquiry, if_pos rfl]
  · refine (Limiter.users_acquire r.limiter probe).nodup_iff.mpr ?_
    rw [List.nodup_append]
    refine ⟨hr.users_once, List.nodup_cons.mpr ⟨List.not_mem_nil, List.nodup_nil⟩, ?_⟩
    intro a ha b hb hab
    cases List.mem_singleton.mp hb
    exact hnew (hab ▸ ha)

theorem answer?_eq_some {r r' : Resolver} {files : Files} {probe : Probe}
    (h : r.answer? files probe = some r') :
    ∃ p, r.requests[probe.request.index]? = some (.probing p) ∧ probe ∈ r.limiter.holders ∧
      r' = { r.setInquiry probe (.answered (files.hasFile (p.path probe.candidate))) with
        limiter := r.limiter.release probe } := by
  obtain ⟨p, hp, h⟩ := Option.bind_eq_some_iff.mp h
  split at h
  next hheld => cases h; exact ⟨p, probing?_eq_some.mp hp, List.elem_iff.mp hheld, rfl⟩
  next => cases h

/-- An answer goes to a question that is open. -/
theorem Sound.open_of_holder {r : Resolver} (hr : r.Sound) {probe : Probe}
    (h : probe ∈ r.limiter.holders) : r.Open probe :=
  hr.users_open probe (List.mem_append_left _ h)

theorem extends_answer {r r' : Resolver} {files : Files} {probe : Probe} (hr : r.Sound)
    (h : r.answer? files probe = some r') : r.Extends r' := by
  obtain ⟨p, hp, hheld, rfl⟩ := answer?_eq_some h
  obtain ⟨q, hq, hasked⟩ := hr.open_of_holder hheld
  rw [hp] at hq
  cases hq
  refine ⟨rfl, by simp [setInquiry], fun id o ho => ?_⟩
  exact outcome?_setInquiry (r := r) hp (by rw [hasked]; rfl) ho

theorem sound_answer {r r' : Resolver} {files : Files} {probe : Probe} (hr : r.Sound)
    (h : r.answer? files probe = some r') : r'.Sound := by
  obtain ⟨p, hp, hheld, rfl⟩ := answer?_eq_some h
  have hperm := Limiter.users_release hheld
  refine ⟨?_, hperm.nodup_iff.mpr (hr.users_once.erase _), settled_error_setInquiry hr probe _⟩
  intro other hother
  obtain ⟨hne, hmem⟩ := (hr.users_once.mem_erase_iff).mp (hperm.mem_iff.mp hother)
  exact (hr.users_open other hmem).setInquiry (Ne.symm hne)

theorem getElem?_abandoned (r : Resolver) (id : RequestId) (i : Nat) :
    (r.requests.modify id.index fun _ => Request.abandoned)[i]? =
      if id.index = i then r.requests[i]?.map fun _ => .abandoned else r.requests[i]? :=
  Array.getElem?_modify

theorem extends_abandon (r : Resolver) (id : RequestId) : r.Extends (r.abandon id) := by
  unfold abandon
  split
  next => exact .refl r
  next hnone =>
    refine ⟨rfl, by simp, fun other o ho => ?_⟩
    have hne : id.index ≠ other.index := by
      intro hi
      obtain ⟨i⟩ := id
      obtain ⟨j⟩ := other
      cases hi
      rw [hnone] at ho
      cases ho
    unfold outcome?
    rw [getElem?_abandoned, if_neg hne]
    exact ho

theorem sound_abandon {r : Resolver} (hr : r.Sound) (id : RequestId) : (r.abandon id).Sound := by
  unfold abandon
  split
  next => exact hr
  next hnone =>
    have h₁ := Limiter.users_withdraw (l := r.limiter) ⟨id, .literal⟩ hr.users_once
    have once₁ := h₁.nodup_iff.mpr (hr.users_once.erase _)
    have h₂ := Limiter.users_withdraw ⟨id, .extended⟩ once₁
    refine ⟨?_, h₂.nodup_iff.mpr (once₁.erase _), ?_⟩
    · intro other hother
      obtain ⟨hext, hmem⟩ := (once₁.mem_erase_iff).mp (h₂.mem_iff.mp hother)
      obtain ⟨hlit, hmem⟩ := (hr.users_once.mem_erase_iff).mp (h₁.mem_iff.mp hmem)
      obtain ⟨p, hp, hasked⟩ := hr.users_open other hmem
      have hne : id.index ≠ other.request.index := by
        intro hi
        obtain ⟨i⟩ := id
        obtain ⟨⟨j⟩, c⟩ := other
        cases hi
        cases c
        · exact hlit rfl
        · exact hext rfl
      refine ⟨p, ?_, hasked⟩
      show (r.requests.modify id.index fun _ => Request.abandoned)[other.request.index]? = _
      rw [getElem?_abandoned, if_neg hne]
      exact hp
    · intro i e he
      rw [show (r.requests.modify id.index fun _ => Request.abandoned)[i]? = _ from
        getElem?_abandoned r id i] at he
      split at he
      next => obtain ⟨_, _, h⟩ := Option.map_eq_some_iff.mp he; cases h
      next => exact hr.settled_error i e he

/-! ## Failures -/

/-- Every request that fails does so with a resolution error. -/
theorem Sound.error_isResolution {r : Resolver} (hr : r.Sound) {id : RequestId} {e : LoadError}
    (h : r.outcome? id = some (.error e)) : e.isResolution = true := by
  obtain ⟨request, hrequest, houtcome⟩ := Option.bind_eq_some_iff.mp h
  cases request with
  | settled result =>
    cases houtcome
    exact hr.settled_error id.index e hrequest
  | probing p =>
    obtain ⟨literal, -, houtcome⟩ := Option.bind_eq_some_iff.mp houtcome
    obtain ⟨extended, -, houtcome⟩ := Option.bind_eq_some_iff.mp houtcome
    have hconclude := Option.some.inj houtcome
    unfold Candidates.conclude at hconclude
    repeat' split at hconclude
    all_goals cases hconclude
    rfl
  | abandoned => cases houtcome

end Resolver

end ModuleLoader
