import Mathlib.Data.List.TakeWhile
import ModuleLoader.Proofs.Exploring
import ModuleLoader.Proofs.Remaining
import ModuleLoader.Proofs.Schedules

/-!
# Loading ends

A loader that explores a project makes jobs for modules that are discovered, and every step takes
something from what is left to do. So there is no schedule under which loading goes on for ever if
finitely many modules are discovered. They are infinitely many only if data URLs go on from their own
paths without end.

Results:
1. `Explores.taken_le`: no schedule has more steps than there are to go.
2. `loading_ends`: when finitely many modules are discovered, and what comes of loading then.
3. `loading_never_ends`: a data URL from which infinitely many modules are discovered.
-/

namespace ModuleLoader

namespace Machine

variable {most width : Nat} {m m' : Machine} {action : Action}

/-! ## Loaders that explore a project -/

/-- The actions of a schedule that are possible when their turn comes. -/
def taken (m : Machine) (schedule : List Action) : List Action :=
  m.logged (fun _ action => [action]) (schedule.map .step)

variable {p : Project} {supplied : Option String} {start : Option Resolved} {schedule : List Action}

theorem taken_of_none {rest : List Action} (hstep : m.step? action = none) :
    m.taken (action :: rest) = m.taken rest ∧ m.acts (action :: rest) = m.acts rest := by
  have hsame := happen_of_none hstep
  constructor
  · unfold taken
    rw [List.map_cons, logged, hsame, hstep]
    rfl
  · change (m.happen (.step action)).acts rest = m.acts rest
    rw [hsame]

theorem taken_of_some {rest : List Action} (hstep : m.step? action = some m') :
    m.taken (action :: rest) = action :: m'.taken rest ∧ m.acts (action :: rest) = m'.acts rest := by
  have hnext := happen_of_some hstep
  constructor
  · unfold taken
    rw [List.map_cons, logged, hnext, hstep]
    rfl
  · change (m.happen (.step action)).acts rest = m'.acts rest
    rw [hnext]

/-- No module of a project that is discovered asks for more specifiers. -/
def Widest (p : Project) (supplied : Option String) (start : Option Resolved) (width : Nat) : Prop :=
  ∀ t, p.Discovered supplied start t → (p.requires supplied t).length ≤ width

theorem exists_widest (hfinite : {t | p.Discovered supplied start t}.Finite) :
    ∃ width, Widest p supplied start width := by
  obtain ⟨width, hwidth⟩ := (hfinite.image fun t => (p.requires supplied t).length).bddAbove
  exact ⟨width, fun t ht => hwidth ⟨t, ht, rfl⟩⟩

theorem Explores.bounded (h : m.Explores p supplied start) (hjobs : m.loader.jobs.size ≤ most)
    (hwidth : Widest p supplied start width) : m.Bounded most width where
  jobs := hjobs
  wiring id job dependencies hjob hwiring := by
    have hlength := congrArg List.length (h.wiring hjob hwiring)
    rw [List.length_map] at hlength
    exact hlength ▸ hwidth _ (h.target hjob)
  linked id jobs hlinked := by
    obtain ⟨job, hjob, hdone⟩ := Loader.linked?_eq_some.mp hlinked
    exact h.linked hjob hdone ▸ hwidth _ (h.target hjob)

/-- A loader takes no more steps than it has to go, if no schedule makes more jobs than these. -/
theorem Explores.taken_le (h : m.Explores p supplied start)
    (hjobs : ∀ schedule, (∀ action ∈ schedule, Action.Internal action) →
      (m.acts schedule).loader.jobs.size ≤ most) (hwidth : Widest p supplied start width)
    (hschedule : ∀ action ∈ schedule, action.Internal) :
    (m.taken schedule).length ≤ m.toGo most width := by
  induction schedule generalizing m with
  | nil => exact Nat.zero_le _
  | cons action rest ih =>
    have hinternal := hschedule action List.mem_cons_self
    have hrest : ∀ action ∈ rest, action.Internal :=
      fun other hin => hschedule other (List.mem_cons_of_mem _ hin)
    cases hstep : m.step? action with
    | none =>
      rw [(taken_of_none hstep).1]
      exact ih h hjobs hrest
    | some m' =>
      have hrule := Rule.of_step? hstep
      have hafter := hrule.explores h hinternal.from
      have hjobs' : ∀ schedule, (∀ action ∈ schedule, Action.Internal action) →
          (m'.acts schedule).loader.jobs.size ≤ most := by
        intro schedule hall
        rw [← (taken_of_some hstep).2]
        exact hjobs (action :: schedule) (List.forall_mem_cons.mpr ⟨hinternal, hall⟩)
      have hless := hrule.toGo_lt hinternal h.regular.sound
        (h.bounded (hjobs [] (List.forall_mem_nil _)) hwidth)
        (hafter.bounded (hjobs' [] (List.forall_mem_nil _)) hwidth)
      rw [(taken_of_some hstep).1]
      exact Nat.succ_le_of_lt (Nat.lt_of_le_of_lt (ih hafter hjobs' hrest) hless)

/-- Calls are not forgotten. -/
theorem Rule.calls_size_le (h : Rule m action m') :
    m.loader.calls.size ≤ m'.loader.calls.size := by
  have hpush : ∀ (n : Machine) state, n.loader.calls.size ≤ (n.pushCall state).loader.calls.size :=
    fun n state => Array.size_push state ▸ Nat.le_succ _
  have hset : ∀ (n : Machine) call state,
      n.loader.calls.size = (n.setCall call state).loader.calls.size :=
    fun n call state => Array.size_setIfInBounds.symm
  have hserve : ∀ (n : Machine) request t,
      n.loader.calls.size = (n.serve request t).1.loader.calls.size :=
    fun n request t => congrArg Array.size (calls_serve n request t).symm
  cases h with
  | startResolve | startFind | startAsk => exact hpush _ _
  | startEval source =>
    cases hfind : m.loader.find? Url.evalModule with
    | some id =>
      rw [startEval_loaded source hfind]
      exact hpush _ _
    | none =>
      rw [(startEval_fresh source hfind).2]
      refine Nat.le_trans ?_ (hpush _ _)
      rw [calls_serve]
      exact Nat.le_refl _
  | wireDropped | wireUnresolved | wireUnprepared =>
    rw [failLinking_eq]
    exact Nat.le_refl _
  | @wireServed _ _ _ _ _ request target =>
    change _ ≤ (m.serve request target).1.loader.calls.size
    exact Nat.le_of_eq (hserve m request target)
  | walkEnded =>
    obtain ⟨jobs, hloader⟩ := loader_instantiateMembers m _ _ _
    rw [hloader]
  | callResolved | callUnresolved | callFailed | callAnswered => exact Nat.le_of_eq (hset m _ _)
  | @callServed call request wish target =>
    have hset := hset (m.serve request target).1 call (.serving (m.serve request target).2 wish)
    exact Nat.le_of_eq ((hserve m request target).trans hset)
  | @callInstantiated call id wish =>
    have hcalls := congrArg (fun l : Loader => l.calls.size) (loader_serveInstantiated m id wish)
    exact Nat.le_of_eq (hcalls.symm.trans (hset _ _ _))
  | _ => exact Nat.le_refl _

/-- When no step is left, nothing is under way any more. -/
theorem not_pending (hs : m.loader.Standing) (hprobes : 1 ≤ m.loader.resolver.settings.maxProbes)
    (hstuck : ∀ action, Action.Internal action → m.step? action = none) (t : Task) :
    ¬ m.Pending t := by
  intro hpending
  obtain ⟨task, -, -, hstep⟩ := hpending.exists_step hs hprobes
  rw [hstuck _ (m.internal_actionOf task)] at hstep
  cases hstep

end Machine

/-! ## Loading ends -/

/-- A call for a module, by a specifier and a referrer that is a URL like any other, or by its text. -/
inductive Goal.Enters : Goal → Prop
  | resolve (specifier : String) {referrer : Option Url} :
      (∀ r ∈ referrer, Url.Made r) → Enters (.resolve specifier referrer)
  | find (specifier : String) {referrer : Option Url} (wish : Wish) :
      (∀ r ∈ referrer, Url.Made r) → Enters (.find specifier referrer wish)
  | eval (source : String) : Enters (.eval source)

namespace Settings

variable {config : Config} {settings : Settings} {files : Files} {specifier : String}
  {referrer : Option Url} {target : Resolved}

theorem made_evalModule : Url.Made Url.evalModule :=
  .parsed (s := "internal:[eval]") (by rfl)

/-- The working directory is a local URL like any other. -/
theorem made_cwdUrl (hconfig : ofConfig config = .ok settings) :
    settings.cwdUrl.Made ∧ settings.cwdUrl.scheme = "file" := by
  obtain ⟨-, -, hcwdUrl, -⟩ := ofConfig_eq_ok hconfig
  unfold Config.cwdUrl at hcwdUrl
  dsimp only at hcwdUrl
  split at hcwdUrl
  next url hdirectory =>
    rw [← Except.ok.inj hcwdUrl]
    refine ⟨.directory hdirectory, ?_⟩
    unfold Url.ofDirectory? at hdirectory
    split at hdirectory
    next => rw [← Option.some.inj hdirectory]
    next => cases hdirectory
  next => cases hcwdUrl

/-- What a specifier leads to is a URL like any other. -/
theorem made_of_resolve (hconfig : ofConfig config = .ok settings)
    (hbase : ∀ b ∈ config.baseUrl, Url.Made b) (hreferrer : ∀ r ∈ referrer, Url.Made r)
    (h : settings.resolve files specifier referrer = .ok target) : Url.Made target.url := by
  have hstart := made_start hconfig hbase hreferrer
  cases resolve_eq_ok.mp h with
  | eval => exact made_evalModule
  | builtin _ _ hparse => exact .parsed hparse
  | data _ hjoin | remote _ hjoin => exact .joined hstart hjoin
  | literal hcandidates => exact .joined hstart (joined_of_candidates hcandidates).2.1
  | extended hcandidates =>
    exact .withPath _ (.joined hstart (joined_of_candidates hcandidates).2.1)

end Settings

namespace Project

variable {p : Project} {config : Config} {supplied : Option String} {goal : Goal}
  {query : String × Option Url} {t : Resolved} {schedule : List Action}

/-- Without a text for the eval module, a module asks for the specifiers of its content. -/
theorem requires_of_content? {c : Content} (hc : p.content? t = some c) :
    p.requires none t = c.specifiers := by
  obtain ⟨url, format⟩ := t
  unfold Project.requires program?
  cases format with
  | js =>
    obtain ⟨source, program, names, hsource, hparse, hnames, rfl⟩ := source_of_content? hc
    simp [hsource, hparse, hnames, Except.toOption, Content.specifiers]
  | builtin =>
    obtain ⟨library, -, rfl⟩ := Option.map_eq_some_iff.mp hc
    rfl
  | remote => cases hc

theorem exists_content? {specifier : String} (h : specifier ∈ p.requires none t) :
    ∃ c, p.content? t = some c ∧ specifier ∈ c.specifiers := by
  unfold Project.requires at h
  cases hprogram : p.program? none t with
  | none => rw [hprogram] at h; cases h
  | some program =>
    rw [hprogram] at h
    obtain ⟨url, format⟩ := t
    unfold program? at hprogram
    cases format with
    | js =>
      obtain ⟨source, hsource, hprogram⟩ := Option.bind_eq_some_iff.mp hprogram
      obtain ⟨program', hparse, hprogram⟩ := Option.bind_eq_some_iff.mp hprogram
      obtain ⟨names, hnames, hprogram⟩ := Option.bind_eq_some_iff.mp hprogram
      cases hprogram
      exact ⟨.script program names, by simp [content?, hsource, hparse, hnames], h⟩
    | builtin => cases hprogram
    | remote => cases hprogram

/-- The modules to which an import leads are those that are discovered from it. -/
theorem discovered_iff (p : Project) (query : String × Option Url) (wish : Wish) :
    p.Discovered none (p.entrance? (.find query.1 query.2 wish)) t ↔ p.Sought query t := by
  constructor
  · intro h
    induction h with
    | start heq => exact ⟨_, Settings.resolve_of_toOption heq, .refl⟩
    | @linked t t' program specifier _ hprogram hmem hleads ih =>
      obtain ⟨t₀, hsought, hreach⟩ := ih
      have hrequires : specifier ∈ p.requires none t := by
        unfold Project.requires
        rw [hprogram]
        exact hmem
      obtain ⟨c, hc, hin⟩ := exists_content? hrequires
      exact ⟨t₀, hsought, hreach.tail ⟨c, hc, specifier, hin, hleads⟩⟩
  · rintro ⟨t₀, hsought, hreach⟩
    induction hreach with
    | refl => exact .start (congrArg Except.toOption hsought)
    | tail _ himports ih =>
      obtain ⟨c, hc, specifier, hspecifier, hleads⟩ := himports
      exact ih.requires (requires_of_content? hc ▸ hspecifier) hleads

theorem made_entrance (hconfig : Settings.ofConfig config = .ok p.settings)
    (hbase : ∀ b ∈ config.baseUrl, Url.Made b) (hgoal : goal.Enters) :
    ∀ t ∈ p.entrance? goal, t.url.Made := by
  intro t ht
  cases hgoal with
  | resolve specifier hreferrer | find specifier _ hreferrer =>
    exact Settings.made_of_resolve hconfig hbase hreferrer (Settings.resolve_of_toOption ht)
  | eval source =>
    cases ht
    exact Settings.made_evalModule

/-- Nothing is called for on a job while a schedule of the loader itself goes on. -/
theorem onJobs_of_internal {m : Machine} (hschedule : ∀ action ∈ schedule, action.Internal) :
    Machine.OnJobs m (schedule.map .step) := by
  induction schedule generalizing m with
  | nil => trivial
  | cons action rest ih =>
    refine ⟨?_, ih fun other hin => hschedule other (List.mem_cons_of_mem _ hin)⟩
    have hinternal := hschedule action List.mem_cons_self
    cases action with
    | start goal => exact hinternal.elim
    | _ => trivial

theorem standing_loading (hgoal : goal.Enters)
    (hschedule : ∀ action ∈ schedule, action.Internal) :
    ((p.loading supplied goal).acts schedule).loader.Standing := by
  have hfresh : (supplied.elim p.machine p.machine.supplied).loader.Standing := by
    have hmachine : p.machine.loader.Standing := Machine.standing_fresh _ _
    cases supplied with
    | none => exact hmachine
    | some text => exact (Machine.Rule.supply text).standing hmachine trivial
  have hrule : Machine.Rule _ (.start goal) (p.loading supplied goal) := .of_step? rfl
  refine Machine.standing_after (hrule.standing hfresh ?_) (onJobs_of_internal hschedule)
  cases hgoal <;> trivial

/-- There is the call for which the loader was started. -/
theorem calls_pos (hschedule : ∀ action ∈ schedule, action.Internal) :
    0 < ((p.loading supplied goal).acts schedule).loader.calls.size := by
  refine Machine.within_induction (P := fun m => 0 < m.loader.calls.size)
    (fun hrule _ hm => Nat.lt_of_lt_of_le hm hrule.calls_size_le) ?_ hschedule
  have hpush : ∀ (n : Machine) state, 0 < (n.pushCall state).loader.calls.size :=
    fun n state => Array.size_push state ▸ Nat.succ_pos _
  cases goal with
  | resolve | find | ask => exact hpush _ _
  | eval source =>
    have hfresh : ∀ m : Machine, 0 < (m.startEval source).loader.calls.size := by
      intro m
      cases hfind : m.loader.find? Url.evalModule with
      | some id =>
        rw [Machine.startEval_loaded source hfind]
        exact hpush _ _
      | none =>
        rw [(Machine.startEval_fresh source hfind).2]
        exact hpush _ _
    exact hfresh _

/--
Loading from a start, over the files, libraries and settings of a project. Steps of the loader itself
come in any order.

* All jobs are for modules that are discovered from the start.
* Finitely many modules are discovered exactly if there is a bound on what the data URLs hold to which
  modules lead by going on from the path of their own data URL.
* If they are finitely many, there are no more jobs than that, and no schedule has more than so many
  steps that can be taken: searches for dependencies and walks over them end.
* When no step is left, nothing is under way any more, and the call is answered.
-/
theorem loading_ends (hconfig : Settings.ofConfig config = .ok p.settings)
    (hbase : ∀ b ∈ config.baseUrl, Url.Made b) (supplied : Option String) (hgoal : goal.Enters) :
    let text := goal.supplied supplied
    let start := p.entrance? goal
    let found := {t | p.Discovered text start t}
    (∀ schedule, (∀ action ∈ schedule, Action.Internal action) →
      ∀ t ∈ ((p.loading supplied goal).acts schedule).loader.entries, t ∈ found) ∧
    (found.Finite ↔ ∃ n, ∀ u ∈ p.continued text start, u.bulk ≤ n) ∧
    (found.Finite → ∃ n, ∀ schedule, (∀ action ∈ schedule, Action.Internal action) →
      ((p.loading supplied goal).acts schedule).loader.jobs.size ≤ found.ncard ∧
        ((p.loading supplied goal).taken schedule).length ≤ n) ∧
    ∀ schedule, (∀ action ∈ schedule, Action.Internal action) →
      let m := (p.loading supplied goal).acts schedule
      (∀ action, Action.Internal action → m.step? action = none) →
        (∀ t, ¬ m.Pending t) ∧ ∃ answer, m.answerOf? ⟨0⟩ = some answer := by
  intro text start found
  have hexplores : ∀ schedule, (∀ action ∈ schedule, Action.Internal action) →
      ((p.loading supplied goal).acts schedule).Explores p text start := fun _ => explores_acts
  obtain ⟨hcwd, hfile⟩ := Settings.made_cwdUrl hconfig
  refine ⟨fun schedule hschedule => (hexplores schedule hschedule).targets,
    finite_discovered_iff hcwd hfile (made_entrance hconfig hbase hgoal), fun hfinite => ?_, ?_⟩
  · obtain ⟨width, hwidth⟩ := Machine.exists_widest hfinite
    have hjobs := fun schedule hschedule => (hexplores schedule hschedule).size_le hfinite
    exact ⟨(p.loading supplied goal).toGo found.ncard width, fun schedule hschedule =>
      ⟨hjobs schedule hschedule, (hexplores [] (List.forall_mem_nil _)).taken_le hjobs hwidth hschedule⟩⟩
  · intro schedule hschedule m hstuck
    have hs : m.loader.Standing := standing_loading hgoal hschedule
    have hprobes : 1 ≤ m.loader.resolver.settings.maxProbes := by
      obtain ⟨hvalid, -, -, -, -, -, hmax⟩ := Settings.ofConfig_eq_ok hconfig
      rw [(hexplores schedule hschedule).settings, hmax]
      exact hvalid.probes
    have hquiet := fun t => Machine.not_pending hs hprobes hstuck t
    refine ⟨hquiet, ?_⟩
    obtain ⟨state, hstate⟩ : ∃ state, m.loader.calls[0]? = some state :=
      ⟨_, Array.getElem?_eq_getElem (calls_pos hschedule)⟩
    cases hanswer : state.answer? with
    | some answer =>
      refine ⟨answer, ?_⟩
      unfold Machine.answerOf?
      rw [hstate]
      exact hanswer
    | none => exact absurd (.call hstate hanswer) (hquiet (.call ⟨0⟩))

/-- It ends for scripts that import each other. -/
theorem loading_ends_knot :
    let goal : Goal := .find Machine.firstScript.1 Machine.firstScript.2 .imported
    let found := {t | Machine.knot.Discovered none (Machine.knot.entrance? goal) t}
    Settings.ofConfig { cwd := some "/" } = .ok Machine.knot.settings ∧
      (∀ b ∈ ({ cwd := some "/" } : Config).baseUrl, Url.Made b) ∧ goal.Enters ∧
      found.Finite ∧ ∃ n, ∀ schedule, (∀ action ∈ schedule, Action.Internal action) →
        ((Machine.knot.loading none goal).acts schedule).loader.jobs.size ≤ found.ncard ∧
          ((Machine.knot.loading none goal).taken schedule).length ≤ n := by
  intro goal found
  have hconfig : Settings.ofConfig { cwd := some "/" } = .ok Machine.knot.settings := rfl
  have hgoal : goal.Enters := .find _ _ nofun
  have hfinite : found.Finite :=
    Machine.knotModules.finite_toSet.subset fun t ht =>
      mem_of_sought (by decide +kernel) (by decide +kernel)
        ((discovered_iff Machine.knot Machine.firstScript .imported).mp ht)
  exact ⟨hconfig, nofun, hgoal, hfinite, (loading_ends hconfig nofun none hgoal).2.2.1 hfinite⟩

end Project

/-! ## Loading that never ends -/

namespace Machine

variable {p : Project} {query : String × Option Url} {m : Machine} {width : Nat}

/-- An import has a step to take as long as infinitely many modules are to come, if nothing is wrong with
any of them. -/
theorem Underway.exists_step (hm : m.Underway p query) (hloads : p.Loads query)
    (hinfinite : {t | p.Sought query t}.Infinite) (hprobes : 1 ≤ p.settings.maxProbes) :
    ∃ action m', Action.Internal action ∧ m.step? action = some m' := by
  by_contra hnone
  have hstuck : ∀ action, Action.Internal action → m.step? action = none := by
    intro action hinternal
    cases hstep : m.step? action with
    | none => rfl
    | some m' => exact absurd ⟨action, m', hinternal, hstep⟩ hnone
  obtain ⟨log, hlog⟩ := hm.lone.follows.queries
  obtain ⟨answer, hanswer⟩ := hm.lone.seeks.answered hm.standing
    (by rw [hlog.asked.configured]; exact hprobes) hstuck
  have hrooted : ∃ t₀ x r, m.Rooted p query t₀ x r := by
    cases hm.stage with
    | loading _ _ hfailed => exact absurd hloads (hfailed answer hanswer).2
    | instantiated hroot => exact ⟨_, _, _, hroot⟩
    | ran hroot => exact ⟨_, _, _, hroot⟩
  obtain ⟨t₀, x, r, hroot⟩ := hrooted
  -- all modules have got jobs, but there are finitely many jobs
  refine hinfinite (m.loader.entries.toList.finite_toSet.subset ?_)
  rintro t ⟨t₁, hsought, hreach⟩
  cases hsought.symm.trans hroot.sought
  obtain ⟨k, jobs, hk, -⟩ := hroot.linked t hreach
  refine Array.mem_toList_iff.mpr (Array.mem_of_getElem? (i := k.index) ?_)
  rw [Loader.getElem?_entries]
  exact hk

/-- Schedules of such an import have any number of steps. -/
theorem Underway.exists_taken (hsole : p.Sole query) (hloads : p.Loads query)
    (hinfinite : {t | p.Sought query t}.Infinite) (hprobes : 1 ≤ p.settings.maxProbes) (n : Nat)
    (hm : m.Underway p query) :
    ∃ schedule, (∀ action ∈ schedule, Action.Internal action) ∧ (m.taken schedule).length = n := by
  induction n generalizing m with
  | zero => exact ⟨[], List.forall_mem_nil _, rfl⟩
  | succ n ih =>
    obtain ⟨action, m', hinternal, hstep⟩ := hm.exists_step hloads hinfinite hprobes
    obtain ⟨rest, hrest, hlength⟩ := ih ((Rule.of_step? hstep).underway hinternal hsole hm)
    refine ⟨action :: rest, List.forall_mem_cons.mpr ⟨hinternal, hrest⟩, ?_⟩
    rw [(taken_of_some hstep).1, List.length_cons, hlength]

end Machine

namespace Project

variable {p : Project} {query : String × Option Url} {t : Resolved} {width : Nat}

/-- There is no bound on the jobs of an import of infinitely many modules with nothing wrong. -/
theorem exists_jobs (hsole : p.Sole query) (hloads : p.Loads query)
    (hinfinite : {t | p.Sought query t}.Infinite) (hprobes : 1 ≤ p.settings.maxProbes)
    (hwidth : Machine.Widest p none (p.entrance? (.find query.1 query.2 .imported)) width) (n : Nat) :
    ∃ schedule, (∀ action ∈ schedule, Action.Internal action) ∧
      n < ((Machine.importing p query).acts schedule).loader.jobs.size := by
  by_contra hnone
  have hjobs : ∀ schedule, (∀ action ∈ schedule, Action.Internal action) →
      ((Machine.importing p query).acts schedule).loader.jobs.size ≤ n := fun schedule hschedule =>
    Nat.le_of_not_lt fun hlt => hnone ⟨schedule, hschedule, hlt⟩
  have hexplores := explores_loading p none (.find query.1 query.2 .imported)
  have hbegun := Machine.underway_acts hsole (List.forall_mem_nil Action.Internal)
  obtain ⟨schedule, hschedule, hlength⟩ := Machine.Underway.exists_taken hsole hloads hinfinite
    hprobes ((Machine.importing p query).toGo n width + 1) hbegun
  have hle := hexplores.taken_le hjobs hwidth hschedule
  exact absurd (hlength ▸ hle) (Nat.not_succ_le_self _)

end Project

/-! ### A script that leads on without end -/

namespace Script

/-- A text that splits into these tokens, wherever it stands. -/
def Spells (cs : List Char) (ts : List Token) : Prop :=
  ∀ offset position, ∃ placed, tokensFrom cs offset position = .ok placed ∧
    placed.map Placed.token = ts

namespace Spells

variable {cs chars : List Char} {t : Token} {ts : List Token}

theorem nil : Spells [] [] := fun offset position => ⟨[], by rw [tokensFrom], rfl⟩

theorem token (hlexeme : lexeme? cs = some (.token t chars))
    (hrest : Spells (cs.drop chars.length) ts) : Spells cs (t :: ts) := by
  intro offset position
  cases cs with
  | nil => cases hlexeme
  | cons c rest =>
    obtain ⟨placed, hplaced, rfl⟩ :=
      hrest (offset + Text.byteLength chars) (position.advanceAll chars)
    rw [tokensFrom]
    split
    next hnone => cases hnone.symm.trans hlexeme
    next l hl =>
      cases hl.symm.trans hlexeme
      exact ⟨_, congrArg (Except.map _) hplaced, rfl⟩

theorem skipped (hlexeme : lexeme? cs = some (.skipped chars))
    (hrest : Spells (cs.drop chars.length) ts) : Spells cs ts := by
  intro offset position
  cases cs with
  | nil => cases hlexeme
  | cons c rest =>
    rw [tokensFrom]
    split
    next hnone => cases hnone.symm.trans hlexeme
    next l hl =>
      cases hl.symm.trans hlexeme
      exact hrest (offset + Text.byteLength chars) (position.advanceAll chars)

/-- A comment at the end of a text. -/
theorem comment {tail : List Char} (h : '\n' ∉ tail) : Spells ('/' :: '/' :: tail) [] := by
  have hline : (tail.takeWhile fun c => decide (c ≠ '\n')) = tail :=
    List.takeWhile_eq_self_iff.mpr fun c hc => decide_eq_true fun heq => h (heq ▸ hc)
  have hlexeme : lexeme? ('/' :: '/' :: tail) =
      some (.skipped ('/' :: '/' :: tail.takeWhile fun c => decide (c ≠ '\n'))) := rfl
  rw [hline] at hlexeme
  exact skipped hlexeme (by rw [List.drop_length]; exact nil)

end Spells

/-- An import of `a/b` in front of a text. -/
def importing (tail : List Char) : List Char :=
  'i' :: 'm' :: 'p' :: 'o' :: 'r' :: 't' :: '\'' :: 'a' :: '/' :: 'b' :: '\'' :: ';' :: tail

theorem spells_importing {tail : List Char} (h : Spells tail []) :
    Spells (importing tail) [.word .importWord, .string "a/b", .symbol .semicolon] := by
  have hword : Token.ofWord ['i', 'm', 'p', 'o', 'r', 't'] = .word .importWord := by
    have hfind : Word.all.find? (fun w => decide (w.spelling =
        String.ofList ['i', 'm', 'p', 'o', 'r', 't'])) = some .importWord := by decide
    unfold Token.ofWord
    dsimp only
    rw [hfind]
  have hfirst : lexeme? (importing tail) =
      some (.token (.ofWord ['i', 'm', 'p', 'o', 'r', 't']) ['i', 'm', 'p', 'o', 'r', 't']) := rfl
  rw [hword] at hfirst
  have hquoted : lexeme? ('\'' :: 'a' :: '/' :: 'b' :: '\'' :: ';' :: tail) =
      some (.token (.string "a/b") ['\'', 'a', '/', 'b', '\'']) := rfl
  have hended : lexeme? (';' :: tail) = some (.token (.symbol .semicolon) [';']) := rfl
  exact .token hfirst (.token hquoted (.token hended h))

/-- A comment behind the import says nothing. -/
theorem parse_importing {tail : List Char} (h : '\n' ∉ tail) : ∃ span,
    parse (String.ofList (importing ('/' :: '/' :: tail))) =
      .ok ⟨[.importFrom ⟨"a/b", [], span⟩]⟩ := by
  obtain ⟨placed, hplaced, htokens⟩ := spells_importing (Spells.comment h) 0 .start
  match placed, htokens with
  | [⟨_, s₁⟩, ⟨_, s₂⟩, ⟨_, s₃⟩], rfl =>
    have htext : (String.ofList (importing ('/' :: '/' :: tail))).toList = _ := String.toList_ofList
    rw [← htext] at hplaced
    refine ⟨s₁, parse_eq_ok.mpr ⟨_, hplaced, ?_⟩⟩
    have himport : IsStatement [⟨.word .importWord, s₁⟩, ⟨.string "a/b", s₂⟩,
      ⟨.symbol .semicolon, s₃⟩] (.importFrom ⟨"a/b", [], s₁⟩) := .importBare
    exact AreStatements.more himport .none

end Script

namespace Url

open Text (utf8)

/-- A text in which nothing is encoded decodes to itself. -/
theorem decode_ascii {cs : List Char} (h : ∀ c ∈ cs, c.toNat < 128 ∧ c ≠ '%') :
    decode (utf8 cs) = utf8 cs := by
  have hmem : (37 : UInt8) ∉ utf8 cs := by
    intro hin
    obtain ⟨c, hc, hbyte⟩ := List.mem_flatMap.mp hin
    obtain ⟨hsmall, hne⟩ := h c hc
    have hutf8 : String.utf8EncodeChar c = [UInt8.ofNat c.toNat] := by
      have hone := utf8_ascii hsmall
      rwa [utf8, List.flatMap_singleton] at hone
    rw [hutf8, List.mem_singleton] at hbyte
    have hnat := congrArg UInt8.toNat hbyte
    rw [UInt8.toNat_ofNat', Nat.mod_eq_of_lt (by omega)] at hnat
    exact hne (Char.toNat_inj.mp hnat.symm)
  have hdecode := decode_append_of_not_mem hmem []
  rwa [List.append_nil, decode, List.append_nil] at hdecode

/-- A script in a data URL that imports `a/b`, with so many directories in a comment behind it. -/
def nested (n : Nat) : Url :=
  { scheme := "data", path := .segments ([",import'a", "b';", ""] ++ List.replicate n "a" ++ ["b"]) }

/-- To the path of the script, `a/b` adds one directory. -/
theorem join_nested (n : Nat) : (nested n).join "a/b" = .ok (nested (n + 1)) := by
  have hsignificant : significant "a/b" = ['a', '/', 'b'] := by decide
  have hscheme : scheme? ['a', '/', 'b'] = none := by decide
  have hparts : (nested n).parts.dropLast = [",import'a", "b';", ""] ++ List.replicate n "a" :=
    List.dropLast_concat
  have hpath : ∀ done, pathFrom .plain done ['a', '/', 'b'] = done ++ ["a", "b"] := by
    intro done
    have hsegments : (splitWhere (isSlash .plain) ['a', '/', 'b']).map
        (fun part => String.ofList (encode pathSet part)) = ["a", "b"] := by decide
    unfold pathFrom
    rw [hsegments]
    exact appendSegments_plain (k := .plain) nofun (by decide +kernel)
  have hrelative : relative (nested n) ['a', '/', 'b'] = .ok (nested (n + 1)) := by
    have hjoined : relative (nested n) ['a', '/', 'b'] =
        .ok (withPath (nested n) (pathFrom .plain (nested n).parts.dropLast ['a', '/', 'b']) []) := rfl
    rw [hjoined, hparts, hpath]
    have hsame : [",import'a", "b';", ""] ++ List.replicate n "a" ++ ["a", "b"] =
        [",import'a", "b';", ""] ++ List.replicate (n + 1) "a" ++ ["b"] := by
      rw [List.replicate_succ']
      simp
    rw [hsame]
    rfl
  unfold join parseWith
  dsimp only
  rw [hsignificant, hscheme]
  exact hrelative

theorem nested_injective {n n' : Nat} (h : nested n = nested n') : n = n' := by
  have hlength := congrArg (fun u => u.parts.length) h
  simpa [nested, parts] using hlength

/-- The path of the script, of which the end grows with every directory. -/
theorem path_nested (n : Nat) : ∃ tail, (∀ c ∈ tail, c = '/' ∨ c = 'a' ∨ c = 'b') ∧
    (nested n).pathAndQuery.toList = '/' :: ',' :: Script.importing ('/' :: '/' :: tail) := by
  have hend : ∀ c ∈ pathChars (List.replicate n "a" ++ ["b"]), c = '/' ∨ c = 'a' ∨ c = 'b' := by
    intro c hc
    obtain ⟨part, hpart, hin⟩ := List.mem_flatMap.mp hc
    have hpart : part = "a" ∨ part = "b" :=
      (List.mem_append.mp hpart).imp List.eq_of_mem_replicate List.mem_singleton.mp
    have ha : '/' :: "a".toList = ['/', 'a'] := rfl
    have hb : '/' :: "b".toList = ['/', 'b'] := rfl
    rcases hpart with rfl | rfl
    · rw [ha] at hin
      rcases List.mem_cons.mp hin with heq | hin
      · exact .inl heq
      · exact .inr (.inl (List.mem_singleton.mp hin))
    · rw [hb] at hin
      rcases List.mem_cons.mp hin with heq | hin
      · exact .inl heq
      · exact .inr (.inr (List.mem_singleton.mp hin))
  obtain ⟨tail, htail⟩ : ∃ tail, pathChars (List.replicate n "a" ++ ["b"]) = '/' :: tail := by
    cases n <;> exact ⟨_, rfl⟩
  refine ⟨tail, fun c hc => hend c (htail ▸ List.mem_cons_of_mem _ hc), ?_⟩
  have hfront : pathChars [",import'a", "b';", ""] = '/' :: ',' :: Script.importing ['/'] := by
    decide
  have hquery : (nested n).pathAndQuery.toList = (nested n).path.text.toList := by
    rw [pathAndQuery, String.toList_append]
    exact List.append_nil _
  rw [hquery, nested, toList_text, List.append_assoc, pathChars, List.flatMap_append, ← pathChars,
    ← pathChars, hfront, htail]
  rfl

/-- The source of the script is the import, and a comment. -/
theorem source_nested (files : Files) (supplied : Option String) (n : Nat) : ∃ tail, '\n' ∉ tail ∧
    (nested n).source files supplied =
      .ok (String.ofList (Script.importing ('/' :: '/' :: tail))) := by
  obtain ⟨tail, hends, hchars⟩ := path_nested n
  refine ⟨tail, fun h => ?_, ?_⟩
  · rcases hends _ h with h | h | h <;> cases h
  have hplain : ∀ c ∈ Script.importing ('/' :: '/' :: tail), c.toNat < 128 ∧ c ≠ '%' := by
    intro c hc
    have hfront : ∀ c ∈ Script.importing ['/', '/'], c.toNat < 128 ∧ c ≠ '%' := by
      simpa using List.all_eq_true.mp (by decide :
        (Script.importing ['/', '/']).all (fun c => c.toNat < 128 ∧ c ≠ '%') = true)
    have hsplit : Script.importing ('/' :: '/' :: tail) = Script.importing ['/', '/'] ++ tail := rfl
    rcases List.mem_append.mp (hsplit ▸ hc) with hin | hin
    · exact hfront c hin
    · rcases hends c hin with rfl | rfl | rfl <;> decide
  have hdata : (nested n).data = .ok (utf8 (Script.importing ('/' :: '/' :: tail))) := by
    have hheader : saysBase64 ['/'] = false := by decide
    have hscheme : ¬ (nested n).scheme ≠ "data" := not_not_intro rfl
    unfold data
    rw [if_neg hscheme, hchars]
    change (if saysBase64 ['/'] then _ else
      Except.ok (decode (utf8 (Script.importing ('/' :: '/' :: tail))))) = _
    rw [hheader, if_neg Bool.false_ne_true, decode_ascii hplain]
  rw [source_of_data rfl, hdata]
  exact sourceText_eq_ok.mpr (Text.ofUtf8?_utf8 _)

end Url

namespace Project

variable {t : Resolved} {n : Nat}

/-- A project without files and libraries. -/
def empty : Project where
  files := []
  registry := []
  tables := {}
  settings := .atRoot
  functions := .stock

/-- The import of the script. -/
def endless : String × Option Url := ("data:/,import'a/b';//b", none)

theorem content?_nested (n : Nat) : ∃ c, empty.content? ⟨Url.nested n, .js⟩ = some c ∧
    c.specifiers = ["a/b"] := by
  obtain ⟨tail, htail, hsource⟩ := Url.source_nested empty.files none n
  obtain ⟨span, hparse⟩ := Script.parse_importing htail
  have hnames : Script.declarations ⟨[.importFrom ⟨"a/b", [], span⟩]⟩ = .ok {} := rfl
  refine ⟨.script ⟨[.importFrom ⟨"a/b", [], span⟩]⟩ {}, ?_, rfl⟩
  simp [content?, hsource, hparse, hnames, Except.toOption]

theorem leads_nested (n : Nat) :
    empty.leads ⟨Url.nested n, .js⟩ "a/b" = .ok ⟨Url.nested (n + 1), .js⟩ := by
  have hvirtual : (Url.nested n).isVirtual = false :=
    Url.isVirtual_of_scheme (show "data" ≠ "internal" by decide)
  have hstart : empty.settings.start (some (Url.nested n)) = Url.nested n := by
    change (if (Url.nested n).isVirtual = true then empty.settings.cwdUrl else Url.nested n) = _
    rw [hvirtual]
    rfl
  refine Settings.resolve_of_data (by decide) ?_ rfl
  rw [hstart]
  exact Url.join_nested n

theorem sought_endless : empty.sought endless = .ok ⟨Url.nested 0, .js⟩ :=
  Settings.resolve_of_data (by decide) (by decide +kernel) rfl

theorem sought_endless_iff : empty.Sought endless t ↔ ∃ n, t = ⟨Url.nested n, .js⟩ := by
  constructor
  · rintro ⟨t₀, hsought, hreach⟩
    obtain rfl := Except.ok.inj (sought_endless.symm.trans hsought)
    induction hreach with
    | refl => exact ⟨0, rfl⟩
    | tail _ himports ih =>
      obtain ⟨n, rfl⟩ := ih
      obtain ⟨c, hc, specifier, hspecifier, hleads⟩ := himports
      obtain ⟨c', hc', hspecifiers⟩ := content?_nested n
      cases hc.symm.trans hc'
      rw [hspecifiers, List.mem_singleton] at hspecifier
      subst hspecifier
      exact ⟨n + 1, Except.ok.inj (hleads.symm.trans (leads_nested n))⟩
  · rintro ⟨n, rfl⟩
    refine ⟨_, sought_endless, ?_⟩
    induction n with
    | zero => exact .refl
    | succ n ih =>
      obtain ⟨c, hc, hspecifiers⟩ := content?_nested n
      exact ih.tail ⟨c, hc, "a/b", hspecifiers ▸ List.mem_singleton_self _, leads_nested n⟩

/-- A data URL from which infinitely many modules are discovered, though there are no files and no
libraries. Each of them can be linked, so loading always goes on, and there is no bound on its jobs. -/
theorem loading_never_ends :
    let goal : Goal := .find endless.1 endless.2 .imported
    Settings.ofConfig { cwd := some "/" } = .ok empty.settings ∧ goal.Enters ∧
    ¬ {t | empty.Discovered none (empty.entrance? goal) t}.Finite ∧
    (∀ schedule, (∀ action ∈ schedule, Action.Internal action) →
      ∃ action m', Action.Internal action ∧
        ((empty.loading none goal).acts schedule).step? action = some m') ∧
    ∀ n, ∃ schedule, (∀ action ∈ schedule, Action.Internal action) ∧
      n < ((empty.loading none goal).acts schedule).loader.jobs.size := by
  intro goal
  have hsole : empty.Sole endless := by
    intro t t' ht ht' hurl
    obtain ⟨n, rfl⟩ := sought_endless_iff.mp ht
    obtain ⟨n', rfl⟩ := sought_endless_iff.mp ht'
    cases Url.nested_injective hurl
    rfl
  have hloads : empty.Loads endless := by
    refine ⟨_, sought_endless, fun t hreach => ?_⟩
    obtain ⟨n, rfl⟩ := sought_endless_iff.mp ⟨_, sought_endless, hreach⟩
    obtain ⟨c, hc, hspecifiers⟩ := content?_nested n
    refine ⟨c, hc, fun specifier hspecifier => ?_⟩
    rw [hspecifiers, List.mem_singleton] at hspecifier
    obtain ⟨c', hc', -⟩ := content?_nested (n + 1)
    exact ⟨_, hspecifier ▸ leads_nested n, Option.isSome_iff_exists.mpr ⟨c', hc'⟩⟩
  have hinfinite : {t | empty.Sought endless t}.Infinite :=
    Set.infinite_of_injective_forall_mem (f := fun n => (⟨Url.nested n, .js⟩ : Resolved))
      (fun n n' heq => Url.nested_injective (congrArg Resolved.url heq))
      fun n => sought_endless_iff.mpr ⟨n, rfl⟩
  have hprobes : 1 ≤ empty.settings.maxProbes := by decide
  have hwidth : Machine.Widest empty none (empty.entrance? goal) 1 := by
    intro t ht
    obtain ⟨n, rfl⟩ := sought_endless_iff.mp ((discovered_iff empty endless .imported).mp ht)
    obtain ⟨c, hc, hspecifiers⟩ := content?_nested n
    rw [requires_of_content? hc, hspecifiers]
    exact Nat.le_refl 1
  refine ⟨rfl, .find endless.1 .imported nofun, fun hfinite => hinfinite (hfinite.subset fun t ht =>
    (discovered_iff empty endless .imported).mpr ht), fun schedule hschedule => ?_,
    fun n => exists_jobs hsole hloads hinfinite hprobes hwidth n⟩
  exact (Machine.underway_acts hsole hschedule).exists_step hloads hinfinite hprobes

end Project

end ModuleLoader
