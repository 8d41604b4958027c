import Mathlib.Algebra.GroupWithZero.Nat
import ModuleLoader.Proofs.Format
import ModuleLoader.Proofs.Permits
/-!
# Requests that are resolved at the same time

Many requests share one limiter, their questions wait in line for it, and the file system answers in
any order. None of this shows in the outcomes: each request comes to what a reader would find who looks
for one path after the other. Meanwhile no more questions are out than there are permits, and when all
requests are done all permits are back.

Results:
1. `Settings.Finds`: what a request comes to, one path after the other; `finds_iff`.
2. `Resolver.history?`: what happens to a resolver step by step, and the questions that go out.
3. `Logged.step`: every question goes out once, from when it has a permit on.
4. `remaining_step`: a request has four steps and no more.
5. `resolved_together`: permits, questions, outcomes and the end of all requests.
-/
namespace ModuleLoader

/-! ## Settings of a configuration -/

/-- What a configuration has that a loader can work with. -/
structure Config.Valid (config : Config) : Prop where
  probes : 1 ≤ config.maxProbes
  builtinPrefix : config.builtinPrefix ≠ ""
  sourceExtension : config.sourceExtension ≠ ""
  bare : config.sourceExtension.toList.head? ≠ some '.'
  evalSpecifier : config.evalSpecifier ≠ ""

theorem Config.validate_eq_ok {config : Config} : config.validate = .ok () ↔ config.Valid := by
  unfold Config.validate
  constructor
  · intro h
    split at h
    next => cases h
    next hprobes =>
      split at h
      next => cases h
      next hprefix =>
        split at h
        next => cases h
        next hextension =>
          split at h
          next => cases h
          next heval =>
            exact ⟨Nat.pos_of_ne_zero hprobes, hprefix, fun h => hextension (.inl h),
              fun h => hextension (.inr h), heval⟩
  · intro h
    rw [if_neg (Nat.ne_of_gt h.probes), if_neg h.builtinPrefix, if_neg, if_neg h.evalSpecifier]
    exact not_or.mpr ⟨h.sourceExtension, h.bare⟩

theorem Settings.ofConfig_eq_ok {config : Config} {settings : Settings}
    (h : Settings.ofConfig config = .ok settings) :
    config.Valid ∧ config.baseOrCwdUrl = .ok settings.baseUrl ∧
      config.cwdUrl = .ok settings.cwdUrl ∧ settings.sourceExtension = config.sourceExtension ∧
      settings.builtinPrefix = config.builtinPrefix ∧
      settings.evalSpecifier = config.evalSpecifier ∧ settings.maxProbes = config.maxProbes := by
  unfold Settings.ofConfig at h
  cases hvalid : config.validate with
  | error e => rw [hvalid] at h; cases h
  | ok =>
    cases hbase : config.baseOrCwdUrl with
    | error e => rw [hvalid, hbase] at h; cases h
    | ok base =>
      cases hcwd : config.cwdUrl with
      | error e => rw [hvalid, hbase, hcwd] at h; cases h
      | ok cwd =>
        rw [hvalid, hbase, hcwd] at h
        cases h
        exact ⟨Config.validate_eq_ok.mp hvalid, rfl, rfl, rfl, rfl, rfl, rfl⟩

/-! ## One path after the other -/

namespace Settings

variable {settings : Settings} {files : Files} {specifier : String} {referrer : Option Url}
  {outcome : Except LoadError Resolved}

/-- What a request comes to. A local module is the file of the literal path, or else that of the path
with the extension; directories, other entries and paths that cannot be asked for are no files. -/
inductive Finds (settings : Settings) (files : Files) (specifier : String) (referrer : Option Url) :
    Except LoadError Resolved → Prop
  /-- No file is needed to tell. -/
  | settled {outcome : Except LoadError Resolved} :
      settings.target specifier referrer = .settled outcome →
      Finds settings files specifier referrer outcome
  | literal {c : Candidates} :
      settings.target specifier referrer = .candidates c → files.stat? c.literal = some .file →
      Finds settings files specifier referrer (.ok ⟨c.url, .js⟩)
  | extended {c : Candidates} :
      settings.target specifier referrer = .candidates c → files.stat? c.literal ≠ some .file →
      files.stat? (c.literal.withExtension settings.sourceExtension) = some .file →
      Finds settings files specifier referrer (.ok ⟨c.extendedUrl, .js⟩)
  | missing {c : Candidates} :
      settings.target specifier referrer = .candidates c → files.stat? c.literal ≠ some .file →
      files.stat? (c.literal.withExtension settings.sourceExtension) ≠ some .file →
      Finds settings files specifier referrer
        (.error (.notFound specifier [c.literal, c.literal.withExtension settings.sourceExtension]))

/-- The candidates of a request: the path of the URL, and the same path with the extension. -/
theorem candidates_eq {c : Candidates} (h : settings.target specifier referrer = .candidates c) :
    c.specifier = specifier ∧ c.extended = c.literal.withExtension settings.sourceExtension ∧
      c.sourceExtension = settings.sourceExtension ∧ c.url.toFilePath? = some c.literal := by
  unfold target at h
  split at h
  next => cases h
  next =>
    split at h
    next => split at h <;> cases h
    next =>
      split at h
      next url _ =>
        unfold targetOf at h
        split at h
        next =>
          split at h
          next => cases h
          next path hpath => cases h; exact ⟨rfl, rfl, rfl, hpath⟩
        next => split at h <;> cases h
      next => cases h

theorem hasFile_iff {path : FilePath} : files.hasFile path = true ↔ files.stat? path = some .file :=
  beq_iff_eq

theorem finds_resolve (settings : Settings) (files : Files) (specifier : String)
    (referrer : Option Url) :
    settings.Finds files specifier referrer (settings.resolve files specifier referrer) := by
  unfold resolve
  cases htarget : settings.target specifier referrer with
  | settled outcome => exact .settled htarget
  | candidates c =>
    obtain ⟨hspecifier, hextended, -, -⟩ := candidates_eq htarget
    dsimp only
    unfold Candidates.conclude
    rw [hspecifier, hextended]
    by_cases hliteral : files.hasFile c.literal = true
    · rw [if_pos hliteral]
      exact .literal htarget (hasFile_iff.mp hliteral)
    · rw [if_neg hliteral]
      have hliteral' := mt hasFile_iff.mpr hliteral
      split
      next hfound => exact .extended htarget hliteral' (hasFile_iff.mp hfound)
      next hmissing => exact .missing htarget hliteral' (mt hasFile_iff.mpr hmissing)

/-- It is what the request resolves to, and nothing else. -/
theorem finds_iff : settings.Finds files specifier referrer outcome ↔
    settings.resolve files specifier referrer = outcome := by
  refine ⟨fun h => ?_, fun h => h ▸ finds_resolve settings files specifier referrer⟩
  unfold resolve
  cases h with
  | settled htarget => rw [htarget]
  | literal htarget hliteral =>
    rw [htarget]
    exact if_pos (hasFile_iff.mpr hliteral)
  | extended htarget hliteral hextended =>
    rw [← (candidates_eq htarget).2.1] at hextended
    rw [htarget]
    exact (if_neg (mt hasFile_iff.mp hliteral)).trans (if_pos (hasFile_iff.mpr hextended))
  | missing htarget hliteral hextended =>
    obtain ⟨hspecifier, hpath, -, -⟩ := candidates_eq htarget
    rw [← hpath] at hextended ⊢
    rw [htarget, ← hspecifier]
    exact (if_neg (mt hasFile_iff.mp hliteral)).trans (if_neg (mt hasFile_iff.mp hextended))

end Settings

/-! ## Questions and their states -/

/-- The steps that a question still has to take. -/
def Inquiry.remaining : Inquiry → Nat
  | unasked => 2
  | asked => 1
  | answered _ => 0

/-- The steps that a request still has to take. -/
def Request.remaining : Request → Nat
  | probing p => p.literal.remaining + p.extended.remaining
  | _ => 0

theorem sum_map_modify {α : Type} (f : α → α) (g : α → Nat) : ∀ {l : List α} {i : Nat} {a : α},
    l[i]? = some a → ((l.modify i f).map g).sum + g a = (l.map g).sum + g (f a)
  | b :: l, 0, a, h => by
    cases h
    simp only [List.modify_zero_cons, List.map_cons, List.sum_cons]
    omega
  | b :: l, i + 1, a, h => by
    have hrest := sum_map_modify f g (l := l) (i := i) h
    simp only [List.modify_succ_cons, List.map_cons, List.sum_cons]
    omega

namespace Resolver

variable {settings : Settings} {files : Files} {r r' : Resolver} {probe other : Probe}
  {event : Event} {events : List Event} {probes log : List Probe} {id : RequestId}
  {asked : List (String × Option Url)}

/-- How far a question has come. -/
def inquiry? (r : Resolver) (probe : Probe) : Option Inquiry :=
  (r.probing? probe.request).map fun p => p.inquiry probe.candidate

/-- The path that a question is about. -/
def path? (r : Resolver) (probe : Probe) : Option FilePath :=
  (r.probing? probe.request).map fun p => p.path probe.candidate

theorem probing?_setInquiry (r : Resolver) (probe : Probe) (inquiry : Inquiry) (id : RequestId) :
    (r.setInquiry probe inquiry).probing? id =
      if probe.request = id then (r.probing? id).map (·.withInquiry inquiry probe.candidate)
      else r.probing? id := by
  obtain ⟨⟨i⟩, c⟩ := probe
  obtain ⟨j⟩ := id
  unfold probing?
  rw [getElem?_setInquiry]
  simp only [RequestId.mk.injEq]
  by_cases hi : i = j
  · rw [if_pos hi, if_pos hi]
    cases r.requests[j]? with
    | none => rfl
    | some request => cases request <;> rfl
  · rw [if_neg hi, if_neg hi]

/-- Setting one question leaves the others as they are. -/
theorem inquiry?_setInquiry (r : Resolver) (probe : Probe) (inquiry : Inquiry) (other : Probe) :
    (r.setInquiry probe inquiry).inquiry? other =
      if probe = other then (r.inquiry? other).map fun _ => inquiry else r.inquiry? other := by
  obtain ⟨i, c⟩ := probe
  obtain ⟨j, d⟩ := other
  unfold inquiry?
  rw [probing?_setInquiry]
  simp only [Probe.mk.injEq]
  by_cases hi : i = j
  · rw [if_pos hi, Option.map_map, Option.map_map]
    by_cases hc : c = d
    · rw [if_pos ⟨hi, hc⟩]
      refine congrArg (fun f => (r.probing? j).map f) (funext fun p => ?_)
      exact (inquiry_withInquiry p inquiry c d).trans (if_pos hc)
    · rw [if_neg fun h => hc h.2]
      refine congrArg (fun f => (r.probing? j).map f) (funext fun p => ?_)
      exact (inquiry_withInquiry p inquiry c d).trans (if_neg hc)
  · rw [if_neg hi, if_neg fun h => hi h.1]

theorem probing?_ask (r : Resolver) (specifier : String) (referrer : Option Url) (id : RequestId) :
    (r.ask specifier referrer).1.probing? id =
      if id.index = r.requests.size then
        match r.settings.target specifier referrer with
        | .settled _ => none
        | .candidates candidates => some { candidates }
      else r.probing? id := by
  unfold probing?
  rw [getElem?_ask]
  by_cases hi : id.index = r.requests.size
  · rw [if_pos hi, if_pos hi]
    cases r.settings.target specifier referrer <;> rfl
  · rw [if_neg hi, if_neg hi]

theorem probing?_size (r : Resolver) (h : id.index = r.requests.size) : r.probing? id = none := by
  unfold probing?
  rw [h, Array.getElem?_eq_none (Nat.le_refl _)]

theorem open_iff : r.Open probe ↔ r.inquiry? probe = some .asked := by
  unfold Open inquiry?
  rw [Option.map_eq_some_iff]
  exact exists_congr fun p => and_congr_left' probing?_eq_some.symm

/-! ## What happens, and what goes out -/

/-- The questions that go out to the file system between two states: those that get a permit. -/
def issued (r r' : Resolver) : List Probe :=
  r'.outstanding.filter fun probe => !r.outstanding.elem probe

/-- The resolver after some events, one after the other, and the questions that go out meanwhile; if
all of the events can happen. -/
def history? (files : Files) : Resolver → List Event → Option (List Probe × Resolver)
  | r, [] => some ([], r)
  | r, event :: events => do
    let next ← r.step? files event
    let (probes, last) ← next.history? files events
    return (r.issued next ++ probes, last)

/-- The request that an event makes. -/
def Event.request? : Event → Option (String × Option Url)
  | .ask specifier referrer => some (specifier, referrer)
  | _ => none

/-- The requests that are made, in order. -/
def requested (events : List Event) : List (String × Option Url) :=
  events.filterMap Event.request?

/-! ### Each question goes out once -/

/-- A question that went out holds a permit until it is answered. -/
theorem inquiry?_step (h : r.step? files event = some r') (hr : r.Sound)
    (hanswered : ∃ found, r.inquiry? probe = some (.answered found)) :
    r'.inquiry? probe = r.inquiry? probe := by
  obtain ⟨found, hfound⟩ := hanswered
  cases event with
  | ask specifier referrer =>
    cases h
    unfold inquiry? at hfound ⊢
    rw [probing?_ask, if_neg fun hi => ?_]
    rw [probing?_size r hi] at hfound
    cases hfound
  | acquire asking =>
    obtain ⟨p, hp, hunasked, rfl⟩ := acquire?_eq_some h
    refine (inquiry?_setInquiry r asking .asked probe).trans (if_neg ?_)
    rintro rfl
    rw [inquiry?, probing?_eq_some.mpr hp, Option.map_some, hunasked] at hfound
    cases hfound
  | answer answering =>
    obtain ⟨p, hp, hheld, rfl⟩ := answer?_eq_some h
    refine (inquiry?_setInquiry r answering _ probe).trans (if_neg ?_)
    rintro rfl
    rw [open_iff.mp (hr.open_of_holder hheld)] at hfound
    cases hfound

/-- What is answered after an event was answered before, or was out. -/
theorem answered_of_step {found : Bool} (h : r.step? files event = some r')
    (hfound : r'.inquiry? probe = some (.answered found)) :
    r.inquiry? probe = some (.answered found) ∨ probe ∈ r.outstanding := by
  cases event with
  | ask specifier referrer =>
    cases h
    unfold inquiry? at hfound ⊢
    rw [probing?_ask] at hfound
    split at hfound
    next =>
      split at hfound
      next => cases hfound
      next => cases hcandidate : probe.candidate <;> simp [hcandidate, Probing.inquiry] at hfound
    next => exact .inl hfound
  | acquire asking =>
    obtain ⟨p, hp, hunasked, rfl⟩ := acquire?_eq_some h
    change (r.setInquiry asking .asked).inquiry? probe = _ at hfound
    rw [inquiry?_setInquiry] at hfound
    split at hfound
    next => obtain ⟨_, -, hnew⟩ := Option.map_eq_some_iff.mp hfound; cases hnew
    next => exact .inl hfound
  | answer answering =>
    obtain ⟨p, hp, hheld, rfl⟩ := answer?_eq_some h
    change (r.setInquiry answering _).inquiry? probe = _ at hfound
    rw [inquiry?_setInquiry] at hfound
    split at hfound
    next hsame => exact .inr (hsame ▸ hheld)
    next => exact .inl hfound

/-- A question that is out stays out until it is answered. -/
theorem outstanding_step (h : r.step? files event = some r') (hout : probe ∈ r.outstanding) :
    probe ∈ r'.outstanding ∨ ∃ found, r'.inquiry? probe = some (.answered found) := by
  cases event with
  | ask specifier referrer => cases h; exact .inl hout
  | acquire asking =>
    obtain ⟨p, hp, hunasked, rfl⟩ := acquire?_eq_some h
    refine .inl ?_
    show probe ∈ (r.limiter.acquire asking).holders
    unfold Limiter.acquire
    split
    next => exact hout
    next => exact List.mem_append_left _ hout
  | answer answering =>
    obtain ⟨p, hp, hheld, rfl⟩ := answer?_eq_some h
    by_cases hsame : answering = probe
    · refine .inr ⟨files.hasFile (p.path answering.candidate), ?_⟩
      change (r.setInquiry answering _).inquiry? probe = _
      rw [inquiry?_setInquiry, if_pos hsame, ← hsame, inquiry?, probing?_eq_some.mpr hp]
      rfl
    · refine .inl ?_
      have hkept : probe ∈ r.limiter.holders.erase answering :=
        (List.mem_erase_of_ne fun heq => hsame heq.symm).mpr hout
      show probe ∈ (r.limiter.release answering).holders
      unfold Limiter.release
      rw [if_pos (List.elem_iff.mpr hheld)]
      split
      next => exact List.mem_append_left _ hkept
      next => exact hkept

/-- The questions that went out so far: each one once, and it is out still or has its answer. -/
structure Logged (r : Resolver) (log : List Probe) : Prop where
  once : log.Nodup
  gone : ∀ probe, probe ∈ log ↔
    probe ∈ r.outstanding ∨ ∃ found, r.inquiry? probe = some (.answered found)

theorem mem_issued : probe ∈ r.issued r' ↔ probe ∈ r'.outstanding ∧ probe ∉ r.outstanding := by
  unfold issued
  rw [List.mem_filter, Bool.not_eq_true', ← Bool.not_eq_true, List.elem_iff]

theorem Logged.step (h : r.Logged log) (hr : r.Sound) (hr' : r'.Sound)
    (hstep : r.step? files event = some r') : r'.Logged (log ++ r.issued r') where
  once := by
    have hholders : r'.outstanding.Nodup := (List.nodup_append.mp hr'.users_once).1
    refine List.nodup_append.mpr ⟨h.once, hholders.filter _, fun probe hlog other hnew heq => ?_⟩
    obtain ⟨hout, hfresh⟩ := mem_issued.mp (heq ▸ hnew)
    rcases (h.gone probe).mp hlog with hold | ⟨found, hfound⟩
    · exact hfresh hold
    · have hsame := inquiry?_step hstep hr ⟨found, hfound⟩
      rw [hfound, open_iff.mp (hr'.open_of_holder hout)] at hsame
      cases hsame
  gone probe := by
    rw [List.mem_append, h.gone, mem_issued]
    constructor
    · rintro ((hout | ⟨found, hfound⟩) | ⟨hout, -⟩)
      · exact outstanding_step hstep hout
      · exact .inr ⟨found, (inquiry?_step hstep hr ⟨found, hfound⟩).trans hfound⟩
      · exact .inl hout
    · rintro (hout | ⟨found, hfound⟩)
      · by_cases hold : probe ∈ r.outstanding
        · exact .inl (.inl hold)
        · exact .inr ⟨hout, hold⟩
      · exact .inl ((answered_of_step hstep hfound).elim (fun h => .inr ⟨found, h⟩) .inl)

/-! ### Each request has four steps -/

/-- The steps that all requests still have to take. -/
def remaining (r : Resolver) : Nat := (r.requests.toList.map Request.remaining).sum

theorem remaining_setInquiry {p : Probing} (inquiry : Inquiry)
    (hp : r.requests[probe.request.index]? = some (.probing p)) :
    (r.setInquiry probe inquiry).remaining + (p.inquiry probe.candidate).remaining =
      r.remaining + inquiry.remaining := by
  have hsum : (r.setInquiry probe inquiry).remaining + (Request.probing p).remaining =
      r.remaining + (Request.probing (p.withInquiry inquiry probe.candidate)).remaining := by
    unfold remaining setInquiry
    rw [Array.toList_modify]
    exact sum_map_modify _ Request.remaining (Array.getElem?_toList ▸ hp)
  have hone : (Request.probing (p.withInquiry inquiry probe.candidate)).remaining +
      (p.inquiry probe.candidate).remaining =
        (Request.probing p).remaining + inquiry.remaining := by
    cases probe.candidate <;>
      simp only [Request.remaining, Probing.withInquiry, Probing.inquiry] <;> omega
  omega

theorem remaining_ask (r : Resolver) (specifier : String) (referrer : Option Url) :
    (r.ask specifier referrer).1.remaining ≤ r.remaining + 4 := by
  unfold remaining ask
  rw [Array.toList_push, List.map_append, List.sum_append]
  cases r.settings.target specifier referrer with
  | settled outcome => exact Nat.le_add_right _ 4
  | candidates c => exact Nat.le_refl _

/-- Every event but a new request is one of the steps that remained. -/
theorem remaining_step (h : r.step? files event = some r') (hr : r.Sound) :
    r'.remaining + (if event.request?.isSome then 0 else 1) ≤
      r.remaining + if event.request?.isSome then 4 else 0 := by
  cases event with
  | ask specifier referrer => cases h; exact remaining_ask r specifier referrer
  | acquire asking =>
    obtain ⟨p, hp, hunasked, rfl⟩ := acquire?_eq_some h
    have hsum := remaining_setInquiry .asked hp
    rw [hunasked] at hsum
    exact Nat.le_of_eq (Nat.add_right_cancel (m := 1) hsum)
  | answer answering =>
    obtain ⟨p, hp, hheld, rfl⟩ := answer?_eq_some h
    have hsum :=
      remaining_setInquiry (.answered (files.hasFile (p.path answering.candidate))) hp
    obtain ⟨q, hq, hasked⟩ := hr.open_of_holder hheld
    cases hp.symm.trans hq
    rw [hasked] at hsum
    exact Nat.le_of_eq hsum

/-! ## What is known of a resolver at work -/

/-- A resolver after some requests, and the questions that went out. -/
structure Working (settings : Settings) (files : Files) (asked : List (String × Option Url))
    (log : List Probe) (r : Resolver) : Prop where
  sound : r.Sound
  staffed : r.Staffed
  asked : r.Asked settings files asked
  logged : r.Logged log
  live : ∀ i < r.requests.size, r.Live ⟨i⟩

theorem working_ofSettings : (ofSettings settings).Working settings files [] [] where
  sound := sound_ofSettings settings
  staffed := staffed_ofSettings settings
  asked := asked_ofSettings
  logged := ⟨List.nodup_nil, fun probe => by
    refine iff_of_false List.not_mem_nil ?_
    rintro (h | ⟨found, h⟩)
    · exact List.not_mem_nil h
    · cases h⟩
  live i h := absurd h (Nat.not_lt_zero i)

theorem Working.step (h : r.Working settings files asked log) (hstep : r.step? files event = some r') :
    r'.Working settings files (asked ++ event.request?.toList) (log ++ r.issued r') := by
  have hsound : r'.Sound := by
    cases event with
    | ask specifier referrer => cases hstep; exact sound_ask h.sound specifier referrer
    | acquire asking => exact sound_acquire h.sound hstep
    | answer answering => exact sound_answer h.sound hstep
  refine ⟨hsound, ?_, ?_, h.logged.step h.sound hsound hstep, ?_⟩
  · cases event with
    | ask specifier referrer => cases hstep; exact h.staffed.ask specifier referrer
    | acquire asking => exact h.staffed.acquire hstep
    | answer answering => exact h.staffed.answer h.sound hstep
  · cases event with
    | ask specifier referrer => cases hstep; exact h.asked.ask specifier referrer
    | acquire asking => exact h.asked.step (.acquire hstep)
    | answer answering => exact h.asked.step (.answer hstep)
  · intro i hi
    cases event with
    | ask specifier referrer =>
      cases hstep
      by_cases hold : i < r.requests.size
      · exact live_ask (h.live i hold) specifier referrer
      · have hsize : i = r.requests.size := by
          have := (Array.size_push _ : (r.requests.push _).size = _) ▸ hi
          omega
        exact hsize ▸ live_ask_self r specifier referrer
    | acquire asking =>
      obtain ⟨p, hp, hunasked, rfl⟩ := acquire?_eq_some hstep
      exact live_setInquiry (h.live i (Array.size_modify ▸ hi)) _
    | answer answering =>
      obtain ⟨p, hp, hheld, rfl⟩ := answer?_eq_some hstep
      exact live_setInquiry (h.live i (Array.size_modify ▸ hi)) _

theorem Working.history (h : r.Working settings files asked log)
    (hhistory : r.history? files events = some (probes, r')) :
    r'.Working settings files (asked ++ requested events) (log ++ probes) := by
  induction events generalizing r asked log probes with
  | nil =>
    cases hhistory
    rw [requested, List.filterMap_nil, List.append_nil, List.append_nil]
    exact h
  | cons event events ih =>
    obtain ⟨next, hnext, hrest⟩ := Option.bind_eq_some_iff.mp hhistory
    obtain ⟨⟨rest, last⟩, hlast, heq⟩ := Option.bind_eq_some_iff.mp hrest
    cases heq
    have hwork := ih (h.step hnext) hlast
    rw [List.append_assoc, List.append_assoc] at hwork
    have hrequested : requested (event :: events) = event.request?.toList ++ requested events := by
      unfold requested
      rw [List.filterMap_cons]
      cases event.request? <;> rfl
    rw [hrequested]
    exact hwork

/-- Every request has four steps, so no more than so many events can happen. -/
theorem Working.bounded (h : r.Working settings files asked log)
    (hhistory : r.history? files events = some (probes, r')) :
    events.length + r'.remaining ≤ r.remaining + 5 * (requested events).length := by
  induction events generalizing r asked log probes with
  | nil => cases hhistory; exact Nat.le_of_eq (Nat.zero_add _)
  | cons event events ih =>
    obtain ⟨next, hnext, hrest⟩ := Option.bind_eq_some_iff.mp hhistory
    obtain ⟨⟨rest, last⟩, hlast, heq⟩ := Option.bind_eq_some_iff.mp hrest
    cases heq
    have hstep := remaining_step hnext h.sound
    have hbound := ih (h.step hnext) hlast
    unfold requested at hbound ⊢
    rw [List.filterMap_cons]
    cases hrequest : event.request? with
    | none => simp [hrequest] at hstep ⊢; omega
    | some request => simp [hrequest] at hstep ⊢; omega

namespace Working

/-- No more questions are out than there are permits. -/
theorem outstanding_le (h : r.Working settings files asked log) :
    r.outstanding.length ≤ settings.maxProbes := by
  have hpermits := h.staffed.full.permits
  unfold Limiter.permits at hpermits
  rw [h.asked.configured] at hpermits
  unfold outstanding
  omega

/-- When all requests are done, nobody uses the limiter any more. -/
theorem limiter_eq (h : r.Working settings files asked log)
    (hdone : ∀ i < r.requests.size, (r.outcome? ⟨i⟩).isSome = true) :
    r.limiter = { free := settings.maxProbes } := by
  have hnobody : r.limiter.users = [] := by
    refine List.eq_nil_iff_forall_not_mem.mpr fun probe hprobe => ?_
    obtain ⟨p, hp, hasked⟩ := h.sound.users_open probe hprobe
    have hsome := hdone probe.request.index (Array.getElem?_eq_some_iff.mp hp).1
    unfold outcome? at hsome
    rw [hp] at hsome
    cases hcandidate : probe.candidate <;>
      simp_all [Probing.inquiry, Request.outcome?, Inquiry.found?]
  obtain ⟨hholders, hwaiting⟩ := List.append_eq_nil_iff.mp hnobody
  have hpermits := h.staffed.full.permits
  rw [h.asked.configured, Limiter.permits, hholders] at hpermits
  cases hlimiter : r.limiter with
  | mk free holders waiting =>
    rw [hlimiter] at hholders hwaiting hpermits
    cases hholders
    cases hwaiting
    cases hpermits
    rfl

/-- As long as a request is not done, a question can be asked, or one that is out can be answered. -/
theorem done_of_stuck (h : r.Working settings files asked log) (hprobes : 1 ≤ settings.maxProbes)
    (hstuck : ∀ probe, r.step? files (.acquire probe) = none ∧
      r.step? files (.answer probe) = none) :
    ∀ i < r.requests.size, (r.outcome? ⟨i⟩).isSome = true := by
  have hholder : ∀ probe, probe ∉ r.limiter.holders := by
    intro probe hheld
    obtain ⟨p, hp, -⟩ := h.sound.open_of_holder hheld
    have hnone := (hstuck probe).2
    simp [step?, answer?, probing?_eq_some.mpr hp, outstanding, hheld] at hnone
  intro i hi
  rcases (h.live i hi).outcome_or_question with hdone | ⟨p, candidate, hp, hopen⟩
  · exact hdone
  · exfalso
    cases hinquiry : p.inquiry candidate with
    | answered found => rw [hinquiry] at hopen; cases hopen
    | unasked =>
      have hnone := (hstuck ⟨⟨i⟩, candidate⟩).1
      simp [step?, acquire?, probing?_eq_some.mpr hp, hinquiry] at hnone
    | asked =>
      have huser := h.staffed.users ⟨⟨i⟩, candidate⟩ ⟨p, hp, hinquiry⟩
      rcases List.mem_append.mp huser with hheld | hwaits
      · exact hholder _ hheld
      · obtain ⟨other, hheld⟩ := h.staffed.full.exists_holder
          (h.asked.configured ▸ hprobes) (List.ne_nil_of_mem hwaits)
        exact hholder other hheld

/-- Who has no questions asks none. -/
theorem not_asked (h : r.Working settings files asked log) (hnone : r.probing? id = none) :
    log.filter (·.request = id) = [] := by
  refine List.filter_eq_nil_iff.mpr fun probe hlog hsame => ?_
  have hinquiry : r.inquiry? probe = none := by
    unfold inquiry?
    rw [of_decide_eq_true hsame, hnone]
    rfl
  rcases (h.logged.gone probe).mp hlog with hout | ⟨found, hfound⟩
  · cases hinquiry.symm.trans (open_iff.mp (h.sound.open_of_holder hout))
  · cases hinquiry.symm.trans hfound

/-- Who has the answers to both questions has asked them, and nothing else. -/
theorem asked_both (h : r.Working settings files asked log) {p : Probing}
    (hp : r.probing? id = some p) (hanswered : ∀ candidate, (p.inquiry candidate).found? ≠ none) :
    (log.filter (·.request = id)).Perm [⟨id, .literal⟩, ⟨id, .extended⟩] := by
  refine (List.perm_ext_iff_of_nodup (h.logged.once.filter _) (by simp)).mpr fun probe => ?_
  obtain ⟨i, candidate⟩ := probe
  rw [List.mem_filter, decide_eq_true_eq]
  constructor
  · rintro ⟨-, rfl⟩
    cases candidate <;> simp
  · intro hin
    have hi : i = id := by
      simp only [List.mem_cons, Probe.mk.injEq, List.not_mem_nil, or_false] at hin
      exact hin.elim And.left And.left
    subst hi
    refine ⟨(h.logged.gone _).mpr (.inr ?_), rfl⟩
    rw [inquiry?, hp, Option.map_some]
    cases hinquiry : p.inquiry candidate with
    | answered found => exact ⟨found, rfl⟩
    | _ => exact absurd (by rw [hinquiry]; rfl) (hanswered candidate)

/-- A request that is done has asked for both of its paths, or for nothing if there was no need. -/
theorem asked_for (h : r.Working settings files asked log) {specifier : String}
    {referrer : Option Url} {outcome : Except LoadError Resolved}
    (hasked : asked[id.index]? = some (specifier, referrer)) (hdone : r.outcome? id = some outcome) :
    (∀ c, settings.target specifier referrer = .candidates c →
      ((log.filter (·.request = id)).filterMap r.path?).Perm [c.literal, c.extended]) ∧
    ∀ result, settings.target specifier referrer = .settled result →
      log.filter (·.request = id) = [] := by
  obtain ⟨request, hrequest, houtcome⟩ := Option.bind_eq_some_iff.mp hdone
  have hof := h.asked.request _ request specifier referrer hrequest hasked
  cases request with
  | abandoned => cases houtcome
  | settled result =>
    have htarget : settings.target specifier referrer = .settled result := hof
    rw [htarget]
    refine ⟨nofun, fun _ _ => h.not_asked ?_⟩
    unfold probing?
    rw [hrequest]
  | probing p =>
    obtain ⟨htarget, -⟩ := hof
    obtain ⟨literal, hliteral, houtcome⟩ := Option.bind_eq_some_iff.mp houtcome
    obtain ⟨extended, hextended, -⟩ := Option.bind_eq_some_iff.mp houtcome
    rw [htarget]
    refine ⟨fun c hc => ?_, fun _ hc => by cases hc⟩
    cases hc
    have hp := probing?_eq_some.mpr hrequest
    have hboth := h.asked_both hp fun candidate => by
      cases candidate
      · exact fun hnone => Option.some_ne_none literal (hliteral.symm.trans hnone)
      · exact fun hnone => Option.some_ne_none extended (hextended.symm.trans hnone)
    have hpaths := hboth.filterMap r.path?
    simp only [path?, hp, List.filterMap_cons, List.filterMap_nil, Option.map_some, Probing.path]
      at hpaths
    exact hpaths

end Working

/--
Any number of requests are resolved at the same time, with the files as they are, in whatever order
the steps are taken and however long the file system takes for an answer.

* No more questions are out than the configuration allows, and no question goes out twice.
* A request that is done has come to what its specifier and referrer come to one path after the other.
  It has asked for both of its paths, once each, if it had to ask for any.
* When all requests are done, all permits are free.
* As long as a request is not done there is a step to take, and each request has four of them.
-/
theorem resolved_together {config : Config} (hconfig : Settings.ofConfig config = .ok settings)
    (files : Files) (hhistory : (ofSettings settings).history? files events = some (probes, r)) :
    (r.outstanding.length ≤ config.maxProbes ∧ probes.Nodup) ∧
    (∀ id outcome, r.outcome? id = some outcome → ∃ specifier referrer,
      (requested events)[id.index]? = some (specifier, referrer) ∧
      settings.Finds files specifier referrer outcome ∧
      (∀ c, settings.target specifier referrer = .candidates c →
        ((probes.filter (·.request = id)).filterMap r.path?).Perm
          [c.literal, c.literal.withExtension config.sourceExtension]) ∧
      ∀ result, settings.target specifier referrer = .settled result →
        probes.filter (·.request = id) = []) ∧
    ((∀ i < (requested events).length, (r.outcome? ⟨i⟩).isSome = true) →
      r.limiter = { free := config.maxProbes }) ∧
    ((∀ probe, r.step? files (.acquire probe) = none ∧ r.step? files (.answer probe) = none) →
      ∀ i < (requested events).length, (r.outcome? ⟨i⟩).isSome = true) ∧
    events.length ≤ 5 * (requested events).length := by
  obtain ⟨hvalid, -, -, hextension, -, -, hprobes⟩ := Settings.ofConfig_eq_ok hconfig
  have hfresh : (ofSettings settings).Working settings files [] [] := working_ofSettings
  have h := hfresh.history hhistory
  have hbounded := hfresh.bounded hhistory
  rw [List.nil_append, List.nil_append] at h
  rw [← hprobes, ← hextension, ← h.asked.size]
  refine ⟨⟨h.outstanding_le, h.logged.once⟩, fun id outcome hdone => ?_, h.limiter_eq,
    h.done_of_stuck (hprobes ▸ hvalid.probes), ?_⟩
  · obtain ⟨specifier, referrer, hasked, hresolve⟩ := h.asked.resolve_of_outcome hdone
    obtain ⟨hboth, hnothing⟩ := h.asked_for hasked hdone
    refine ⟨specifier, referrer, hasked, Settings.finds_iff.mpr hresolve, fun c hc => ?_, hnothing⟩
    rw [← (Settings.candidates_eq hc).2.1]
    exact hboth c hc
  · rw [h.asked.size]
    exact Nat.le_trans (Nat.le_add_right _ _) (Nat.le_trans hbounded (Nat.le_of_eq (Nat.zero_add _)))

/-- The settings of a loader that asks one question at a time. -/
def oneByOne : Settings := { Settings.atRoot with maxProbes := 1 }

/-- Two requests that wait in line; answers come between the questions. -/
def twoInLine : List Event :=
  [.ask "./a" none, .ask "./b" none, .acquire ⟨⟨1⟩, .extended⟩, .acquire ⟨⟨0⟩, .literal⟩,
    .answer ⟨⟨1⟩, .extended⟩, .acquire ⟨⟨0⟩, .extended⟩, .acquire ⟨⟨1⟩, .literal⟩,
    .answer ⟨⟨0⟩, .literal⟩, .answer ⟨⟨0⟩, .extended⟩, .answer ⟨⟨1⟩, .literal⟩]

/-- For one there is a file under its literal path, for the other one a directory. -/
def oneFile : Files := [("/a", .contents []), ("/a.js", .contents []), ("/b.js", .directory)]

theorem resolved_in_line : Settings.ofConfig { cwd := some "/", maxProbes := 1 } = .ok oneByOne ∧
    ∃ probes r, (ofSettings oneByOne).history? oneFile twoInLine = some (probes, r) ∧
      probes.length = 4 ∧ (r.outcome? ⟨0⟩).any (fun outcome => outcome.isOk) = true ∧
      (r.outcome? ⟨1⟩).any (fun outcome => !outcome.isOk) = true ∧ r.limiter = { free := 1 } := by
  have hconfig : Settings.ofConfig { cwd := some "/", maxProbes := 1 } = .ok oneByOne := rfl
  obtain ⟨⟨probes, r⟩, hhistory, hends⟩ := (Option.any_eq_true _ _).mp (show
    ((ofSettings oneByOne).history? oneFile twoInLine).any (fun (probes, r) =>
      probes.length = 4 && (r.outcome? ⟨0⟩).any (fun outcome => outcome.isOk) &&
        (r.outcome? ⟨1⟩).any (fun outcome => !outcome.isOk)) = true by decide +kernel)
  simp only [Bool.and_eq_true, decide_eq_true_eq] at hends
  obtain ⟨⟨hlength, hfound⟩, hmissing⟩ := hends
  obtain ⟨-, -, hfree, -⟩ := resolved_together hconfig oneFile hhistory
  refine ⟨hconfig, probes, r, hhistory, hlength, hfound, hmissing, hfree fun i hi => ?_⟩
  match i, hi with
  | 0, _ => exact Option.isSome_of_any hfound
  | 1, _ => exact Option.isSome_of_any hmissing

end Resolver

end ModuleLoader
