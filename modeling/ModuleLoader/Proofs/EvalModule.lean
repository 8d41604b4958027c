import ModuleLoader.Proofs.Exploring
import ModuleLoader.Proofs.ModuleMap
/-!
# The eval module

A loader has at most one eval module. An eval call looks for it in the map, stores its text and
requests it, and its job keeps the text that is stored when it is made. The request is settled at
once, so nothing comes between the look into the map and the making of the job, though the text is
read much later, when other texts may be stored.

Results:
1. `Rule.origin`: only its own steps prepare a job, and no step changes the text that it keeps.
2. `Rule.evals`, `evals_after`: the eval module is compiled once, from the text that it was made with.
3. `Rule.completes`, `call_after`: a call that runs a module goes on by its own steps, up to an answer
   that stays.
4. `one_eval`: the first eval call makes the eval module and runs it, all others are refused.
-/
namespace ModuleLoader

namespace Machine

variable {m m' : Machine} {action : Action} {id : JobId} {call : CallId} {text : String}

/-! ## Moments of a run -/

/-- What holds until one kind of step changes it holds after a run, or there is a moment of the run at
which it was changed. -/
theorem exists_moment {P : Machine → Prop} {changing : Action} {Changes : Machine → Machine → Prop}
    (step : ∀ {m action m'}, Rule m action m' → P m → P m' ∨ action = changing ∧ Changes m m')
    (host : ∀ {m} host, P m → P { m with host }) (h : P m) (events : List Event) :
    P (m.after events) ∨ ∃ earlier rest, events = earlier ++ .step changing :: rest ∧
      P (m.after earlier) ∧ Changes (m.after earlier) ((m.after earlier).happen (.step changing)) := by
  induction events generalizing m with
  | nil => exact .inl h
  | cons event rest ih =>
    have hnext : P (m.happen event) → P (m.after (event :: rest)) ∨
        ∃ earlier later, event :: rest = earlier ++ .step changing :: later ∧ P (m.after earlier) ∧
          Changes (m.after earlier) ((m.after earlier).happen (.step changing)) := by
      intro hnext
      rcases ih hnext with hkept | ⟨earlier, later, hsplit, hmoment⟩
      · exact .inl hkept
      · exact .inr ⟨event :: earlier, later, by rw [hsplit]; rfl, hmoment⟩
    cases event with
    | host other => exact hnext (host other h)
    | step action =>
      rcases m.happen_cases action with hsame | hrule
      · exact hnext (hsame.symm ▸ h)
      · rcases step hrule h with hkept | ⟨rfl, hchanges⟩
        · exact hnext hkept
        · exact .inr ⟨[], rest, rfl, h, hchanges⟩

/-! ## Preparing the eval module -/

/-- A job keeps what it was made for, and only its own steps prepare it. -/
theorem Rule.origin (h : Rule m action m') {job : Job} (hjob : m.loader.job? id = some job)
    (hprepare : action ≠ .prepare id) (hread : action ≠ .read id) :
    (m'.loader.job? id).map Job.origin = some job.origin := by
  have hgoesOn : ∀ {l l' : Loader}, l.job? id = some job → l.SameOrigins l' →
      (l'.job? id).map Job.origin = some job.origin := fun hl h => by rw [h id, hl]; rfl
  have hsame : ∀ {l' : Loader}, m.loader.SameOrigins l' →
      (l'.job? id).map Job.origin = some job.origin := hgoesOn hjob
  have hothers : ∀ {other : JobId} {f : Job → Job}, other ≠ id →
      ((m.loader.changeJob other f).job? id).map Job.origin = some job.origin := fun hne => by
    rw [Loader.job?_changeJob, if_neg hne, hjob]
    rfl
  cases h with
  | startEval source =>
    cases hfind : m.loader.find? Url.evalModule with
    | some found =>
      rw [startEval_loaded source hfind]
      exact hsame (Loader.sameOrigins_of_jobs rfl)
    | none =>
      rw [(startEval_fresh source hfind).2]
      have hasked : ((m.supplied source).ask m.loader.resolver.settings.evalSpecifier
          none).1.loader.job? id = some job := hjob
      exact hgoesOn (job?_serve _ _ hasked) (Loader.sameOrigins_of_jobs rfl)
  | prepareHere | prepareFile => exact hothers fun heq => hprepare (heq ▸ rfl)
  | read => exact hothers fun heq => hread (heq ▸ rfl)
  | wireServed =>
    exact hgoesOn (job?_serve _ _ hjob) (Loader.sameOrigins_changeJob _ _ fun _ => rfl)
  | callServed => exact hgoesOn (job?_serve _ _ hjob) (Loader.sameOrigins_of_jobs rfl)
  | linkUnprepared | linkRefused | linkBegun | linkEnded | wireAsked | wireEnded | enterJoined
  | enterUnprepared | enterWalk | enterDropped | walkPass | walkVisit | walkStopped | walkJoined
  | callEnters => exact hsame (Loader.sameOrigins_changeJob _ _ fun _ => rfl)
  | wireDropped | wireUnresolved | wireUnprepared =>
    rw [failLinking_eq]
    exact hsame (Loader.sameOrigins_changeJob _ _ fun _ => rfl)
  | walkEnded => exact hsame (sameOrigins_instantiateMembers _ _ _ _)
  | @callInstantiated call other wish =>
    have hjobs := congrArg (·.jobs) (loader_serveInstantiated m other wish)
    exact hsame (Loader.sameOrigins_of_jobs hjobs)
  | _ => exact hsame (Loader.sameOrigins_of_jobs rfl)

/-- The job is that of an eval module with this text, and prepared so far. -/
def Evals (m : Machine) (id : JobId) (text : String) (preparation : Preparation) : Prop :=
  (m.loader.job? id).map Job.origin = some (⟨Url.evalModule, .js⟩, some text, preparation)

theorem Evals.exists_job {preparation : Preparation} (h : m.Evals id text preparation) :
    ∃ job, m.loader.job? id = some job ∧ job.url = Url.evalModule ∧ job.evalSource = some text ∧
      job.preparation = preparation ∧
      job.origin = (⟨Url.evalModule, .js⟩, some text, preparation) := by
  obtain ⟨job, hjob, horigin⟩ := Option.map_eq_some_iff.mp h
  obtain ⟨htarget, hrest⟩ := Prod.mk.inj horigin
  obtain ⟨hsource, hpreparation⟩ := Prod.mk.inj hrest
  exact ⟨job, hjob, congrArg Resolved.url htarget, hsource, hpreparation, horigin⟩

theorem sourcePlace_evalModule (text : String) :
    Url.evalModule.sourcePlace (some text) = .here (.ok text) := by
  unfold Url.sourcePlace
  rw [if_pos rfl]

theorem Evals.finish (h : m.Evals id text .idle) :
    (m.finishPreparation id Url.evalModule (.ok text)).Evals id text
      (.done (m.host.compile Url.evalModule text).2) := by
  obtain ⟨job, hjob, hurl, hsource, -, horigin⟩ := h.exists_job
  unfold Evals
  rw [show (m.finishPreparation id Url.evalModule (.ok text)).loader.job? id = _ from
    Loader.job?_changeJob_self _ hjob]
  obtain ⟨htarget, -⟩ := Prod.mk.inj horigin
  show some (job.target, job.evalSource,
    Preparation.done (m.host.compile Url.evalModule text).2) = _
  rw [htarget, hsource]

/-- As long as the eval module is not prepared, its next step compiles the text that it keeps. -/
theorem Rule.evals (h : Rule m action m') (hm : m.Evals id text .idle) :
    m'.Evals id text .idle ∨
      action = .prepare id ∧ m' = m.finishPreparation id Url.evalModule (.ok text) := by
  obtain ⟨job, hjob, hurl, hsource, hidle, horigin⟩ := hm.exists_job
  by_cases hprepare : action = .prepare id
  · subst hprepare
    refine .inr ⟨rfl, ?_⟩
    cases h with
    | prepareHere hjob' _ hplace =>
      cases hjob.symm.trans hjob'
      rw [hurl, hsource, sourcePlace_evalModule] at hplace
      cases hplace
      rw [hurl]
    | prepareFile hjob' _ hplace =>
      cases hjob.symm.trans hjob'
      rw [hurl, hsource, sourcePlace_evalModule] at hplace
      cases hplace
  by_cases hread : action = .read id
  · subst hread
    cases h with
    | read hjob' hreading =>
      cases hjob.symm.trans hjob'
      cases hidle.symm.trans hreading
  · exact .inl ((h.origin hjob hprepare hread).trans (congrArg some horigin))

/-- Once the eval module is prepared, it stays so. -/
theorem Rule.evals_done (h : Rule m action m') {result : Except LoadError UnitId}
    (hm : m.Evals id text (.done result)) : m'.Evals id text (.done result) := by
  obtain ⟨job, hjob, -, -, hdone, horigin⟩ := hm.exists_job
  refine (h.origin hjob ?_ ?_).trans (congrArg some horigin)
  · rintro rfl
    cases h with
    | prepareHere hjob' hidle | prepareFile hjob' hidle =>
      cases hjob.symm.trans hjob'
      cases hdone.symm.trans hidle
  · rintro rfl
    cases h with
    | read hjob' hreading =>
      cases hjob.symm.trans hjob'
      cases hdone.symm.trans hreading

theorem evals_done_after {result : Except LoadError UnitId}
    (hm : m.Evals id text (.done result)) (events : List Event) :
    (m.after events).Evals id text (.done result) :=
  after_induction (P := fun m => m.Evals id text (.done result)) (fun hrule h => hrule.evals_done h)
    (fun _ h => h) hm events

/-- How far a run has come with the preparation of the eval module. -/
inductive PreparesEval (m : Machine) (id : JobId) (text : String) (events : List Event) : Prop
  | notYet : (m.after events).Evals id text .idle → PreparesEval m id text events
  /-- At some moment it was compiled. -/
  | compiled {earlier rest : List Event} : events = earlier ++ .step (.prepare id) :: rest →
      (m.after earlier).happen (.step (.prepare id)) =
        (m.after earlier).finishPreparation id Url.evalModule (.ok text) →
      (m.after events).Evals id text
        (.done ((m.after earlier).host.compile Url.evalModule text).2) →
      PreparesEval m id text events

/-- Every run compiles the eval module at most once, from the text that it was made with. -/
theorem evals_after (hm : m.Evals id text .idle) (events : List Event) :
    m.PreparesEval id text events := by
  rcases exists_moment (P := fun m => m.Evals id text .idle) (fun hrule h => hrule.evals h)
    (fun _ h => h) hm events with hidle | ⟨earlier, rest, hsplit, hidle, hstep⟩
  · exact .notYet hidle
  · refine .compiled hsplit hstep ?_
    rw [hsplit, after_append]
    show (((m.after earlier).happen (.step (.prepare id))).after rest).Evals _ _ _
    rw [hstep]
    exact evals_done_after hidle.finish rest

/-! ## Calls -/

/-- Calls go on by their own steps only. -/
theorem Rule.call_kept (h : Rule m action m') {state : Call}
    (hcall : m.loader.calls[call.index]? = some state) (hother : action ≠ .advance call) :
    m'.loader.calls[call.index]? = some state := by
  have hpush : ∀ {n : Machine} (new : Call), n.loader.calls = m.loader.calls →
      (n.pushCall new).loader.calls[call.index]? = some state := fun {n} new hn => by
    show (n.loader.calls.push new)[call.index]? = _
    rw [hn, Array.getElem?_push, if_neg (Nat.ne_of_lt (Array.getElem?_eq_some_iff.mp hcall).1)]
    exact hcall
  have hset : ∀ {n : Machine} {other : CallId} (new : Call), n.loader.calls = m.loader.calls →
      other ≠ call → (n.setCall other new).loader.calls[call.index]? = some state :=
    fun {n other} new hn hne => by
      show (n.loader.calls.setIfInBounds other.index new)[call.index]? = _
      rw [hn, Array.getElem?_setIfInBounds_ne fun heq => hne (by cases other; cases call; cases heq; rfl)]
      exact hcall
  cases h with
  | startResolve | startFind | startAsk => exact hpush _ rfl
  | startEval source =>
    cases hfind : m.loader.find? Url.evalModule with
    | some found =>
      rw [startEval_loaded source hfind]
      exact hpush _ rfl
    | none =>
      rw [(startEval_fresh source hfind).2]
      exact hpush _ (calls_serve _ _ _)
  | callResolved | callUnresolved | callFailed | callAnswered =>
    exact hset _ rfl fun heq => hother (heq ▸ rfl)
  | callServed => exact hset _ (calls_serve _ _ _) fun heq => hother (heq ▸ rfl)
  | callInstantiated =>
    exact hset _ (congrArg Loader.calls (loader_serveInstantiated _ _ _))
      fun heq => hother (heq ▸ rfl)
  | wireDropped | wireUnresolved | wireUnprepared => rw [failLinking_eq]; exact hcall
  | wireServed =>
    show (serve _ _ _).1.loader.calls[call.index]? = _
    rw [calls_serve]
    exact hcall
  | walkEnded =>
    obtain ⟨jobs, hloader⟩ := loader_instantiateMembers m _ _ _
    rw [hloader]
    exact hcall
  | _ => exact hcall

/-- An answer stays. -/
theorem Rule.answered (h : Rule m action m') {answer : Except LoadError Answer}
    (hcall : m.loader.calls[call.index]? = some (.answered answer)) :
    m'.loader.calls[call.index]? = some (.answered answer) := by
  refine h.call_kept hcall ?_
  rintro rfl
  cases h with
  | callResolved hcall' | callUnresolved hcall' | callServed hcall' | callEnters hcall'
  | callFailed hcall' | callInstantiated hcall' | callAnswered hcall' =>
    cases hcall.symm.trans hcall'

theorem answered_after {answer : Except LoadError Answer}
    (hcall : m.loader.calls[call.index]? = some (.answered answer)) (events : List Event) :
    (m.after events).loader.calls[call.index]? = some (.answered answer) :=
  after_induction (P := fun m => m.loader.calls[call.index]? = some (.answered answer))
    (fun hrule h => hrule.answered h) (fun _ h => h) hcall events

theorem answerOf?_of_answered {answer : Except LoadError Answer}
    (h : m.loader.calls[call.index]? = some (.answered answer)) :
    m.answerOf? call = some answer := by
  unfold answerOf?
  rw [h]
  rfl

/-- What running a module tells is what evaluating its unit gives. -/
theorem serveInstantiated_completion {unit : UnitId}
    (h : m.loader.prepared? id = some (.ok unit)) :
    (m.serveInstantiated id .completion).2 =
      (m.host.store.evaluate unit).2.map .completion := by
  have hevaluate : (m.evaluateJob id).2 = (m.host.store.evaluate unit).2 := by
    unfold evaluateJob
    rw [h]
  unfold serveInstantiated
  dsimp only
  rw [hevaluate]
  cases (m.host.store.evaluate unit).2 <;> rfl

/-- A call that runs a module waits for it, or is told by its next step what comes of it. -/
theorem Rule.completes (h : Rule m action m')
    (hcall : m.loader.calls[call.index]? = some (.serving id .completion)) :
    m'.loader.calls[call.index]? = some (.serving id .completion) ∨
      action = .advance call ∧ ∃ answer, m'.loader.calls[call.index]? = some (.answered answer) ∧
        ((∃ e, m.loader.instantiated? id = some (.error e) ∧ answer = .error e) ∨
          m.loader.instantiated? id = some (.ok ()) ∧
            answer = (m.serveInstantiated id .completion).2) := by
  by_cases hadvance : action = .advance call
  · subst hadvance
    have hset : ∀ {n : Machine} (state : Call), n.loader.calls = m.loader.calls →
        (n.setCall call state).loader.calls[call.index]? = some state := fun {n} state hn => by
      show (n.loader.calls.setIfInBounds call.index state)[call.index]? = _
      rw [hn, Array.getElem?_setIfInBounds_self_of_lt (Array.getElem?_eq_some_iff.mp hcall).1]
    cases h with
    | callEnters => exact .inl hcall
    | callFailed hcall' _ hjob hfailed =>
      cases hcall.symm.trans hcall'
      exact .inr ⟨rfl, _, hset _ rfl,
        .inl ⟨_, Loader.instantiated?_eq_some.mpr ⟨_, hjob, hfailed⟩, rfl⟩⟩
    | callInstantiated hcall' _ hjob hdone =>
      cases hcall.symm.trans hcall'
      exact .inr ⟨rfl, _, hset _ (congrArg Loader.calls (loader_serveInstantiated _ _ _)),
        .inr ⟨Loader.instantiated?_eq_some.mpr ⟨_, hjob, hdone⟩, rfl⟩⟩
    | callAnswered hcall' hno =>
      cases hcall.symm.trans hcall'
      cases hno
    | callResolved hcall' | callUnresolved hcall' | callServed hcall' =>
      cases hcall.symm.trans hcall'
  · exact .inl (h.call_kept hcall hadvance)

/-- A job that is instantiated has a unit. -/
theorem exists_unit_of_instantiated (host : Host) (settings : Settings) (events : List Event) :
    let l := ((ofSettings host settings).after events).loader
    l.instantiated? id = some (.ok ()) → ∃ unit, l.prepared? id = some (.ok unit) := by
  intro l h
  have hg : l.Grouped := grouped_after host settings events
  obtain ⟨job, hjob, hdone⟩ := Loader.instantiated?_eq_some.mp h
  rcases hg.ended id job _ hjob hdone with ⟨i, c, hjoined, -⟩ | ⟨e, he, -⟩
  · -- it is a member of a component, and those are linked
    obtain ⟨_, -, hmade⟩ := hg.made_of_mem hjoined.mem
    obtain ⟨_, hlinked, -⟩ := hmade.closed id (hg.of_joined hjoined).1
    obtain ⟨linked, hlinked, hjobs⟩ := Loader.linked?_eq_some.mp hlinked
    cases hjob.symm.trans hlinked
    obtain ⟨unit, hunit⟩ := hasUnit_after host settings events id job hjob (.inr ⟨_, hjobs⟩)
    exact ⟨unit, Loader.prepared?_eq_some.mpr ⟨job, hjob, hunit⟩⟩
  · cases he

/-! ## One eval module -/

/-- The requests of imports that a step takes up: of all calls but eval calls, and of link phases. -/
def imports (m : Machine) : Action → List (RequestId × Resolved)
  | .start (.eval _) => []
  | action => m.resolutions action

theorem logged_congr {α : Type} {say say' : Machine → Action → List α} {events : List Event}
    (h : ∀ action, .step action ∈ events → ∀ m, say m action = say' m action) :
    m.logged say events = m.logged say' events := by
  induction events generalizing m with
  | nil => rfl
  | cons event rest ih =>
    have hrest := fun n : Machine => ih (m := n) fun action hin => h action (.tail _ hin)
    cases event with
    | host other => exact hrest _
    | step action =>
      unfold logged
      rw [h action List.mem_cons_self, hrest]

/-- Without eval calls there is no eval module, unless an import requests it. -/
theorem find?_evalModule_none {host : Host} {settings : Settings} {events : List Event}
    (hnoEval : ∀ text, .step (.start (.eval text)) ∉ events)
    (helsewhere : ∀ entry ∈ (ofSettings host settings).logged imports events,
      entry.2.url ≠ Url.evalModule) :
    ((ofSettings host settings).after events).loader.find? Url.evalModule = none := by
  have hsame : (ofSettings host settings).logged imports events =
      (ofSettings host settings).logged resolutions events := by
    refine logged_congr fun action hin m => ?_
    unfold imports
    split
    next text => exact absurd hin (hnoEval text)
    next => rfl
  rw [hsame] at helsewhere
  rw [Option.eq_none_iff_forall_ne_some]
  intro id hfind
  obtain ⟨entry, hentry, hurl⟩ :=
    ((mapOf_after host settings events).complete Url.evalModule).mp (by rw [hfind]; rfl)
  exact helsewhere entry hentry hurl

/-- What an eval call does to a loader without an eval module. -/
structure MakesEval (m : Machine) (text : String) (m' : Machine) : Prop where
  /-- The request of the call is settled when it is made, so the call waits for nothing. -/
  settled : m'.loader.resolver.outcome? ⟨m.loader.resolver.requests.size⟩ =
    some (.ok ⟨Url.evalModule, .js⟩)
  stored : m'.loader.evalSource = some text
  map : m'.loader.entries = m.loader.entries.push ⟨Url.evalModule, .js⟩
  job : m'.Evals ⟨m.loader.jobs.size⟩ text .idle
  call : m'.loader.calls = m.loader.calls.push (.serving ⟨m.loader.jobs.size⟩ .completion)

theorem makesEval (text : String) (h : m.loader.find? Url.evalModule = none) :
    m.MakesEval text (m.startEval text) := by
  obtain ⟨hsettled, hserved⟩ := startEval_fresh text h
  have hasked : (((m.supplied text).ask m.loader.resolver.settings.evalSpecifier
      none).1).loader.find? Url.evalModule = none := h
  rw [hserved, serve_miss _ hasked]
  refine ⟨hsettled, rfl, ?_, ?_, rfl⟩
  · exact Array.map_push
  · exact congrArg (Option.map Job.origin) Array.getElem?_push_size

/-- How far a run has come with the call that made the eval module. -/
inductive RunsEval (m : Machine) (id : JobId) (call : CallId) (text : String)
    (events : List Event) : Prop
  | waits : (m.after events).loader.calls[call.index]? = some (.serving id .completion) →
      RunsEval m id call text events
  /-- At some moment it was told why the module cannot be instantiated. -/
  | failed {earlier rest : List Event} {e : LoadError} :
      events = earlier ++ .step (.advance call) :: rest →
      (m.after earlier).loader.instantiated? id = some (.error e) →
      (m.after events).answerOf? call = some (.error e) → RunsEval m id call text events
  /-- At some moment the text was compiled, and at a later one the unit was evaluated for the call. -/
  | ran {sooner between rest : List Event} {unit : UnitId} :
      events = (sooner ++ .step (.prepare id) :: between) ++ .step (.advance call) :: rest →
      ((m.after sooner).host.compile Url.evalModule text).2 = .ok unit →
      (m.after events).answerOf? call = some
        (((m.after (sooner ++ .step (.prepare id) :: between)).host.store.evaluate unit).2.map
          .completion) →
      RunsEval m id call text events

/-- The call that made the eval module waits for it until it is told what comes of its text. -/
theorem runsEval_after {host : Host} {settings : Settings} {before : List Event}
    (hrun : m = (ofSettings host settings).after before) (hevals : m.Evals id text .idle)
    (hcall : m.loader.calls[call.index]? = some (.serving id .completion)) (events : List Event) :
    m.RunsEval id call text events := by
  rcases exists_moment
    (P := fun m => m.loader.calls[call.index]? = some (.serving id .completion))
    (fun hrule h => hrule.completes h) (fun _ h => h) hcall events with
    hwaits | ⟨earlier, rest, hsplit, -, answer, htold, hanswer⟩
  · exact .waits hwaits
  have hstays : (m.after events).answerOf? call = some answer := by
    rw [hsplit, after_append]
    exact answerOf?_of_answered (answered_after htold rest)
  rcases hanswer with ⟨e, hfailed, rfl⟩ | ⟨hdone, rfl⟩
  · exact .failed hsplit hfailed hstays
  · -- the unit that is evaluated is the one that was compiled
    obtain ⟨unit, hunit⟩ : ∃ unit, (m.after earlier).loader.prepared? id = some (.ok unit) := by
      rw [hrun, ← after_append] at hdone ⊢
      exact exists_unit_of_instantiated host settings _ hdone
    rw [serveInstantiated_completion hunit] at hstays
    obtain ⟨job, hjob, hprepared⟩ := Loader.prepared?_eq_some.mp hunit
    cases evals_after hevals earlier with
    | notYet hidle =>
      obtain ⟨other, hother, -, -, hpreparation, -⟩ := hidle.exists_job
      cases hjob.symm.trans hother
      cases hpreparation.symm.trans hprepared
    | compiled hearlier _ hcompiled =>
      obtain ⟨other, hother, -, -, hpreparation, -⟩ := hcompiled.exists_job
      cases hjob.symm.trans hother
      subst hearlier
      exact .ran hsplit (Preparation.done.inj (hpreparation.symm.trans hprepared)) hstays

/-- What becomes of an eval module in a run: the job was made for it by a call that passed a text. -/
structure OneEval (m : Machine) (id : JobId) (call : CallId) (text : String) (events : List Event) :
    Prop where
  /-- It is the only eval module. -/
  only : ∀ other, (∃ job, (m.after events).loader.job? other = some job ∧
    job.url = Url.evalModule) ↔ other = id
  prepares : m.PreparesEval id text events
  runs : m.RunsEval id call text events
  /-- An eval call that comes now is refused, and nothing else changes. -/
  refuses : ∀ other, (m.after events).happen (.step (.start (.eval other))) =
    { m.after events with loader := { (m.after events).loader with
        calls := (m.after events).loader.calls.push (.answered (.error .evalAlreadyLoaded)) } }
  /-- It stays refused. -/
  refused : ∀ other more,
    (((m.after events).happen (.step (.start (.eval other)))).after more).answerOf?
      ⟨(m.after events).loader.calls.size⟩ = some (.error .evalAlreadyLoaded)

/--
In every run of a loader the first eval call makes the eval module, the only one, and stores its text
at the same time. The module is compiled from this text, whatever texts are supplied and whatever
eval calls come before it is compiled, and the call is told what comes of running it. Every other eval
call is refused, and changes neither the stored text nor the map.

This needs that no import requested the eval module before. Imports that request it afterwards are
served by the same job and change nothing of this.
-/
theorem one_eval (host : Host) (settings : Settings) (before : List Event) (text : String)
    (later : List Event) (hfirst : ∀ other, .step (.start (.eval other)) ∉ before)
    (helsewhere : ∀ entry ∈ (ofSettings host settings).logged imports before,
      entry.2.url ≠ Url.evalModule) :
    let m := (ofSettings host settings).after before
    let m' := m.happen (.step (.start (.eval text)))
    m.loader.find? Url.evalModule = none ∧ m.MakesEval text m' ∧
      m'.OneEval ⟨m.loader.jobs.size⟩ ⟨m.loader.calls.size⟩ text later := by
  intro m m'
  have hnone : m.loader.find? Url.evalModule = none := find?_evalModule_none hfirst helsewhere
  have hmakes : m.MakesEval text m' := makesEval text hnone
  have hrun : m' = (ofSettings host settings).after (before ++ [.step (.start (.eval text))]) :=
    (after_append _ before [.step (.start (.eval text))]).symm
  have hmap := mapOf_after host settings (before ++ .step (.start (.eval text)) :: later)
  rw [after_append] at hmap
  change (m'.after later).loader.MapOf _ at hmap
  have hfind : (m'.after later).loader.find? Url.evalModule = some ⟨m.loader.jobs.size⟩ := by
    obtain ⟨job, hjob, hurl, -⟩ := hmakes.job.exists_job
    obtain ⟨job', hjob', hlater⟩ :=
      (later_after (hrun ▸ sound_fresh host settings _) later).job hjob
    exact (hmap.inverse _ _).mpr ⟨job', hjob', hlater.url.trans hurl⟩
  have hrefuses : ∀ other, (m'.after later).happen (.step (.start (.eval other))) =
      (m'.after later).pushCall (.answered (.error .evalAlreadyLoaded)) :=
    fun other => startEval_loaded other hfind
  refine ⟨hnone, hmakes, fun other => ?_, evals_after hmakes.job later,
    runsEval_after hrun hmakes.job ?_ later,
    hrefuses, fun other more => answerOf?_of_answered (answered_after ?_ more)⟩
  · rw [← hmap.inverse, hfind]
    exact ⟨fun h => (Option.some.inj h).symm, fun h => h ▸ rfl⟩
  · rw [hmakes.call]
    exact Array.getElem?_push_size
  · rw [hrefuses]
    exact Array.getElem?_push_size

/-! ### An eval call after an import -/

/-- A host with one script. -/
def oneScript : Host := .ofScripts [("/a", "")]

/-- A text is supplied that is no script, and the script is imported. -/
def importFirst : List Action :=
  .supply "?" :: (ofSettings oneScript .atRoot).answering 60 [.find "./a" none .imported]

/-- The loader with an eval call that passes a script. -/
def evalScript : Machine :=
  ((ofSettings oneScript .atRoot).acts importFirst).happen
    (.step (.start (.eval "import './a';")))

/-- Another call passes that text, it is supplied again, and then the first call is answered. -/
def othersLater : List Action :=
  let others := [.start (.eval "?"), .supply "?"]
  let next? (m : Machine) := (m.fileStep?.or (m.callStep? ⟨1⟩)).or m.backgroundStep?
  others ++ path next? 60 (evalScript.acts others)

/-- The first call goes well, since it is told what comes of its own text. -/
theorem one_eval_after_import :
    (∀ other, .step (.start (.eval other)) ∉ importFirst.map Event.step) ∧
      (∀ entry ∈ (ofSettings oneScript .atRoot).logged imports (importFirst.map .step),
        entry.2.url ≠ Url.evalModule) ∧
      evalScript.OneEval ⟨1⟩ ⟨1⟩ "import './a';" (othersLater.map .step) ∧
      ((evalScript.acts othersLater).answerOf? ⟨1⟩).any (·.isOk) = true := by
  have hfirst : ∀ other, .step (.start (.eval other)) ∉ importFirst.map Event.step := by
    intro other hin
    obtain ⟨action, haction, heq⟩ := List.mem_map.mp hin
    cases heq
    have hnoEval := List.all_eq_true.mp (show (importFirst.all fun
      | .start (.eval _) => false
      | _ => true) = true by decide +kernel) _ haction
    cases hnoEval
  have helsewhere : ∀ entry ∈ (ofSettings oneScript .atRoot).logged imports
      (importFirst.map .step), entry.2.url ≠ Url.evalModule := by decide +kernel
  have hjobs : ((ofSettings oneScript .atRoot).acts importFirst).loader.jobs.size = 1 := by
    decide +kernel
  have hcalls : ((ofSettings oneScript .atRoot).acts importFirst).loader.calls.size = 1 := by
    decide +kernel
  refine ⟨hfirst, helsewhere, ?_, by decide +kernel⟩
  have hone := (one_eval oneScript .atRoot (importFirst.map .step) "import './a';"
    (othersLater.map .step) hfirst helsewhere).2.2
  change evalScript.OneEval ⟨((ofSettings oneScript .atRoot).acts importFirst).loader.jobs.size⟩
    ⟨((ofSettings oneScript .atRoot).acts importFirst).loader.calls.size⟩ _ _ at hone
  rw [hjobs, hcalls] at hone
  exact hone

end Machine

end ModuleLoader
