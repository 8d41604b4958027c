import ModuleLoader.Proofs.Keeping
/-!
# Permits and live requests

Whoever waits for a permit waits for those who hold one, and these have questions that the file system
can answer. A request that nobody has given up has an outcome, or questions that are open or not asked
yet.

Results:
1. `Limiter.Full`: no permit is lost, and none is free while somebody waits.
2. `Resolver.Staffed`: every question that is asked is with the limiter; kept by every operation.
3. `Resolver.Live`: requests that are not given up, and which operations keep them so.
-/
namespace ModuleLoader

/-! ## Permits -/

namespace Limiter

variable {α : Type} {l : Limiter α} {count : Nat}

/-- All permits are there, and those who wait find none free. -/
structure Full (l : Limiter α) (count : Nat) : Prop where
  permits : l.permits = count
  busy : l.waiting ≠ [] → l.free = 0

/-- Somebody has a permit that others wait for. -/
theorem Full.exists_holder (h : l.Full count) (hcount : 1 ≤ count) (hwaiting : l.waiting ≠ []) :
    ∃ a, a ∈ l.holders := by
  refine List.exists_mem_of_length_pos ?_
  have hpermits := h.permits
  have hfree := h.busy hwaiting
  unfold Limiter.permits at hpermits
  omega

theorem Full.acquire (h : l.Full count) (a : α) : (l.acquire a).Full count := by
  have hpermits := h.permits
  unfold Limiter.acquire
  split
  next hfree => exact ⟨hpermits, fun _ => hfree⟩
  next hfree =>
    refine ⟨?_, fun hwaiting => absurd (h.busy hwaiting) hfree⟩
    unfold Limiter.permits at hpermits ⊢
    rw [List.length_append, List.length_singleton]
    dsimp only
    omega

variable [BEq α] [LawfulBEq α]

theorem Full.release (h : l.Full count) (a : α) : (l.release a).Full count := by
  have hpermits := h.permits
  unfold Limiter.release
  split
  next helem =>
    have hlength := List.length_erase_of_mem (List.elem_iff.mp helem)
    have hpos := List.length_pos_of_mem (List.elem_iff.mp helem)
    unfold Limiter.permits at hpermits
    split
    next next rest hwaiting =>
      refine ⟨?_, fun _ => h.busy (by rw [hwaiting]; exact List.cons_ne_nil _ _)⟩
      unfold Limiter.permits
      rw [List.length_append, List.length_singleton]
      dsimp only
      omega
    next hwaiting =>
      refine ⟨?_, fun hne => absurd hwaiting hne⟩
      unfold Limiter.permits
      dsimp only
      omega
  next => exact h

theorem Full.withdraw (h : l.Full count) (a : α) : (l.withdraw a).Full count := by
  have hrest : { l with waiting := l.waiting.erase a }.Full count := by
    refine ⟨h.permits, fun hne => h.busy fun hnil => hne ?_⟩
    dsimp only
    rw [hnil, List.erase_nil]
  exact hrest.release a

end Limiter

namespace Resolver

variable {r r' : Resolver} {files : Files} {probe : Probe} {id : RequestId}

/-- No permit is lost, and every open question is with the limiter. -/
structure Staffed (r : Resolver) : Prop where
  full : r.limiter.Full r.settings.maxProbes
  users : ∀ probe, r.Open probe → probe ∈ r.limiter.users

theorem staffed_ofSettings (settings : Settings) : (ofSettings settings).Staffed where
  full := ⟨rfl, fun h => absurd rfl h⟩
  users probe h := by
    obtain ⟨p, hp, -⟩ := h
    cases hp

/-- A question that is open after one was set was open before, unless it is that one. -/
theorem Open.of_setInquiry {other : Probe} {inquiry : Inquiry}
    (h : (r.setInquiry probe inquiry).Open other) :
    other = probe ∧ inquiry = .asked ∨ other ≠ probe ∧ r.Open other := by
  obtain ⟨p, hp, hasked⟩ := h
  rw [getElem?_setInquiry] at hp
  split at hp
  next hrequest =>
    obtain ⟨request, hrequest', hnew⟩ := Option.map_eq_some_iff.mp hp
    cases request with
    | probing q =>
      cases hnew
      rw [inquiry_withInquiry] at hasked
      split at hasked
      next hcandidate =>
        obtain ⟨⟨i⟩, c⟩ := probe
        obtain ⟨⟨j⟩, d⟩ := other
        cases hrequest
        cases hcandidate
        exact .inl ⟨rfl, hasked⟩
      next hne => exact .inr ⟨fun heq => hne (heq ▸ rfl), q, hrequest', hasked⟩
    | settled result => cases hnew
    | abandoned => cases hnew
  next hne => exact .inr ⟨fun heq => hne (heq ▸ rfl), p, hp, hasked⟩

theorem Staffed.ask (h : r.Staffed) (specifier : String) (referrer : Option Url) :
    (r.ask specifier referrer).1.Staffed where
  full := h.full
  users probe hopen := by
    obtain ⟨p, hp, hasked⟩ := hopen
    rw [getElem?_ask] at hp
    split at hp
    next =>
      split at hp
      next => cases hp
      next candidates _ =>
        cases hp
        exact absurd hasked (by cases probe.candidate <;> nofun)
    next => exact h.users probe ⟨p, hp, hasked⟩

theorem Staffed.acquire (h : r.Staffed) (hacquire : r.acquire? probe = some r') : r'.Staffed := by
  obtain ⟨p, -, -, rfl⟩ := acquire?_eq_some hacquire
  refine ⟨h.full.acquire probe, fun other hopen => ?_⟩
  rw [(Limiter.users_acquire r.limiter probe).mem_iff]
  rcases Open.of_setInquiry (r := r) hopen with ⟨rfl, -⟩ | ⟨-, hopen⟩
  · exact List.mem_append_right _ (List.mem_singleton_self _)
  · exact List.mem_append_left _ (h.users other hopen)

theorem Staffed.answer (h : r.Staffed) (hr : r.Sound) (hanswer : r.answer? files probe = some r') :
    r'.Staffed := by
  obtain ⟨p, -, hheld, rfl⟩ := answer?_eq_some hanswer
  refine ⟨h.full.release probe, fun other hopen => ?_⟩
  rw [(Limiter.users_release hheld).mem_iff, hr.users_once.mem_erase_iff]
  rcases Open.of_setInquiry (r := r) hopen with ⟨-, hasked⟩ | ⟨hne, hopen⟩
  · cases hasked
  · exact ⟨hne, h.users other hopen⟩

theorem Staffed.abandon (h : r.Staffed) (hr : r.Sound) (id : RequestId) : (r.abandon id).Staffed := by
  unfold Resolver.abandon
  split
  next => exact h
  next =>
    have hliteral := Limiter.users_withdraw (l := r.limiter) ⟨id, .literal⟩ hr.users_once
    have honce := hliteral.nodup_iff.mpr (hr.users_once.erase _)
    have hextended := Limiter.users_withdraw ⟨id, .extended⟩ honce
    refine ⟨(h.full.withdraw _).withdraw _, fun other hopen => ?_⟩
    obtain ⟨p, hp, hasked⟩ := hopen
    rw [show (r.requests.modify id.index fun _ => Request.abandoned)[other.request.index]? = _ from
      getElem?_abandoned r id other.request.index] at hp
    split at hp
    next => obtain ⟨_, -, hnew⟩ := Option.map_eq_some_iff.mp hp; cases hnew
    next hne =>
      rw [hextended.mem_iff, honce.mem_erase_iff, hliteral.mem_iff, hr.users_once.mem_erase_iff]
      exact ⟨fun heq => hne (heq ▸ rfl), fun heq => hne (heq ▸ rfl),
        h.users other ⟨p, hp, hasked⟩⟩

variable {asked : List (String × Option Url)}

theorem Step.staffed (h : r.Step files asked r') (hr : r.Sound) (hs : r.Staffed) : r'.Staffed := by
  cases h with
  | none => exact hs
  | ask specifier referrer => exact hs.ask specifier referrer
  | acquire h => exact hs.acquire h
  | answer h => exact hs.answer hr h
  | abandonAll dependencies =>
    refine (abandonAll_induction (P := fun r => r.Sound ∧ r.Staffed) (fun id h => ?_)
      ⟨hr, hs⟩ dependencies).2
    exact ⟨sound_abandon h.1 id, h.2.abandon h.1 id⟩

/-! ## Live requests -/

/-- The request was made, and is not given up. -/
def Live (r : Resolver) (id : RequestId) : Prop :=
  ∃ request, r.requests[id.index]? = some request ∧ request ≠ .abandoned

/-- A live request has an outcome, or a question without an answer. -/
theorem Live.outcome_or_question (h : r.Live id) : (r.outcome? id).isSome = true ∨
    ∃ p candidate, r.requests[id.index]? = some (.probing p) ∧
      (p.inquiry candidate).found? = none := by
  obtain ⟨request, hrequest, hlive⟩ := h
  unfold outcome?
  rw [hrequest]
  cases request with
  | abandoned => exact absurd rfl hlive
  | settled result => exact .inl rfl
  | probing p =>
    cases hliteral : p.literal.found? with
    | none => exact .inr ⟨p, .literal, rfl, hliteral⟩
    | some first =>
      cases hextended : p.extended.found? with
      | none => exact .inr ⟨p, .extended, rfl, hextended⟩
      | some second =>
        refine .inl ?_
        dsimp only [Option.bind_some, Request.outcome?]
        rw [hliteral, hextended]
        rfl

theorem live_ask (h : r.Live id) (specifier : String) (referrer : Option Url) :
    (r.ask specifier referrer).1.Live id := by
  obtain ⟨request, hrequest, hlive⟩ := h
  refine ⟨request, ?_, hlive⟩
  rw [getElem?_ask, if_neg (Nat.ne_of_lt (Array.getElem?_eq_some_iff.mp hrequest).1)]
  exact hrequest

/-- A new request is live. -/
theorem live_ask_self (r : Resolver) (specifier : String) (referrer : Option Url) :
    (r.ask specifier referrer).1.Live (r.ask specifier referrer).2 := by
  refine ⟨_, (getElem?_ask r specifier referrer r.requests.size).trans (if_pos rfl), ?_⟩
  split <;> exact nofun

theorem live_setInquiry (h : r.Live id) (inquiry : Inquiry) : (r.setInquiry probe inquiry).Live id := by
  obtain ⟨request, hrequest, hlive⟩ := h
  unfold Live
  rw [getElem?_setInquiry]
  split
  next =>
    rw [hrequest]
    cases request with
    | probing p => exact ⟨_, rfl, nofun⟩
    | settled result => exact ⟨_, rfl, nofun⟩
    | abandoned => exact absurd rfl hlive
  next => exact ⟨request, hrequest, hlive⟩

theorem live_abandon {other : RequestId} (h : r.Live id) (hne : other ≠ id) :
    (r.abandon other).Live id := by
  unfold abandon
  split
  next => exact h
  next =>
    obtain ⟨request, hrequest, hlive⟩ := h
    refine ⟨request, ?_, hlive⟩
    rw [show (r.requests.modify other.index fun _ => Request.abandoned)[id.index]? = _ from
      getElem?_abandoned r other id.index, if_neg fun heq => hne ?_]
    · exact hrequest
    · obtain ⟨i⟩ := other
      obtain ⟨j⟩ := id
      exact congrArg RequestId.mk heq

/-- A link phase that fails gives up its own requests only. -/
theorem live_abandonAll {dependencies : List Dependency} (h : r.Live id)
    (hother : ∀ d ∈ dependencies, d.wiring ≠ .resolving id) : (r.abandonAll dependencies).Live id := by
  unfold abandonAll
  induction dependencies generalizing r with
  | nil => exact h
  | cons d rest ih =>
    refine ih ?_ fun d hd => hother d (List.mem_cons_of_mem _ hd)
    dsimp only
    split
    next request hresolving =>
      refine live_abandon h fun heq => hother d List.mem_cons_self ?_
      rw [hresolving, heq]
    next => exact h

end Resolver

end ModuleLoader
