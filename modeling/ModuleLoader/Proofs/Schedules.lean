import ModuleLoader.Proofs.Importing
import ModuleLoader.Proofs.Progress
/-!
# One import under every schedule

An import is the work of many tasks, of which any may go on next, while the file system takes its time
with every answer. If each module to which the import leads is known by its URL, none of this decides
what comes of it. Otherwise it can: a URL gets the job of the module that is asked for first.

Results:
1. `Replies`, `Rule.replies`: how an import gets its answer.
2. `Stage`, `Rule.stage`: what an import has come to, and that every step keeps it.
3. `Stage.same`: two loaders that have answered one import have come to the same.
4. `same_under_every_schedule`: all schedules of an import come to the same.
-/
namespace ModuleLoader

namespace Store

variable {p : Project} {s : Store} {t₀ : Resolved} {x : UnitId} {r : Except LoadError Unit}

theorem Instantiated.entered (h : s.Instantiated p t₀ x (.ok ())) :
    (s.status x).isEntered = true := by
  obtain ⟨f, s₀, hprimed, rfl, hok, hcalm⟩ := h
  exact hcalm.onward.entered _ (hprimed.entered hok .refl)

theorem HasRun.entered (h : s.HasRun p t₀ x r) : (s.status x).isEntered = true := by
  obtain ⟨t, hinstantiated, hfollows, -, -, hcalm⟩ := h
  exact hcalm.onward.entered _
    ((onward_evaluate hfollows.noManifests x).entered _ hinstantiated.entered)

end Store

namespace Machine

variable {p p' : Project} {query : String × Option Url} {m m' : Machine} {action : Action}
  {j id : JobId} {x : UnitId} {t₀ : Resolved} {r : Except LoadError Unit} {e : LoadError}
  {answer answer' : Except LoadError Answer}

/-! ## Answers -/

theorem answerOf?_of_single {state : Call} (h : m.loader.calls = #[state]) :
    m.answerOf? ⟨0⟩ = state.answer? := by
  unfold answerOf?
  rw [h]
  rfl

/-- An import fails if it leads nowhere, or if the instantiation has failed for which it waits. -/
def Refuses (p : Project) (query : String × Option Url) (m : Machine) (e : LoadError) : Prop :=
  p.sought query = .error e ∨ ∃ j, m.loader.instantiated? j = some (.error e)

/-- How a step answers an import. -/
inductive Replies (p : Project) (query : String × Option Url) (m m' : Machine) : Prop
  | kept : m'.answerOf? ⟨0⟩ = m.answerOf? ⟨0⟩ → Replies p query m m'
  | refused {e : LoadError} : m.answerOf? ⟨0⟩ = none → m'.answerOf? ⟨0⟩ = some (.error e) →
      m.Refuses p query e → Replies p query m m'
  | ran {j : JobId} : m.loader.calls = #[.serving j .imported] →
      m.loader.instantiated? j = some (.ok ()) →
      m' = (m.serveInstantiated j .imported).1.setCall ⟨0⟩
        (.answered (m.serveInstantiated j .imported).2) → Replies p query m m'

theorem Rule.replies (h : Rule m action m') (hinternal : action.Internal) (hm : m.Lone p query) :
    m.Replies p query m' := by
  obtain ⟨state, hcalls, hstate⟩ := hm.seeks
  have hkept : m'.loader.calls = m.loader.calls → m.Replies p query m' := fun hsame =>
    .kept (by unfold answerOf?; rw [hsame])
  cases h with
  | startResolve | startFind | startEval | startAsk | supply => cases hinternal
  | wireDropped | wireUnresolved | wireUnprepared =>
    rw [failLinking_eq] at hkept ⊢
    exact hkept rfl
  | wireServed => exact hkept (calls_serve m _ _)
  | walkEnded =>
    obtain ⟨jobs, hloader⟩ := loader_instantiateMembers m _ _ _
    exact hkept (by rw [hloader])
  | callResolved hcall =>
    obtain ⟨rfl, rfl⟩ := call_of_single hcalls hcall
    cases hstate
  | callUnresolved hcall houtcome =>
    obtain ⟨rfl, rfl⟩ := call_of_single hcalls hcall
    exact .refused (answerOf?_of_single hcalls) (answerOf?_of_single (single_setCall hcalls _))
      (.inl (hm.follows.sought hcalls houtcome))
  | callServed hcall =>
    obtain ⟨rfl, rfl⟩ := call_of_single hcalls hcall
    refine .kept ?_
    rw [answerOf?_of_single hcalls,
      answerOf?_of_single (single_setCall ((calls_serve m _ _).trans hcalls) _)]
    rfl
  | @callFailed call id wish job e hcall hneeds hjob hfailed =>
    obtain ⟨rfl, rfl⟩ := call_of_single hcalls hcall
    exact .refused (answerOf?_of_single hcalls) (answerOf?_of_single (single_setCall hcalls _))
      (.inr ⟨id, Loader.instantiated?_eq_some.mpr ⟨job, hjob, hfailed⟩⟩)
  | callInstantiated hcall hneeds hjob hdone =>
    obtain ⟨rfl, rfl⟩ := call_of_single hcalls hcall
    obtain ⟨rfl, -⟩ := hstate
    exact .ran hcalls (Loader.instantiated?_eq_some.mpr ⟨_, hjob, hdone⟩) rfl
  | callAnswered hcall hneeds =>
    obtain ⟨rfl, rfl⟩ := call_of_single hcalls hcall
    obtain ⟨rfl, -⟩ := hstate
    cases hneeds
  | _ => exact hkept rfl

theorem Regular.not_instantiated (hm : m.Regular) (hnone : m.loader.components = #[]) :
    m.loader.instantiated? j ≠ some (.ok ()) := by
  intro hdone
  obtain ⟨c, hc, -⟩ := hm.exists_component hdone
  rw [hnone] at hc
  exact Array.not_mem_empty c hc

/-- As long as nothing was instantiated, an import fails only if a module cannot be linked. -/
theorem Lone.not_loads (hm : m.Lone p query) (hnone : m.loader.components = #[])
    (hrefuses : m.Refuses p query e) : ¬ p.Loads query := by
  intro hloads
  rcases hrefuses with hnowhere | ⟨j, hfailed⟩
  · obtain ⟨t₀, hsought, -⟩ := hloads
    cases hnowhere.symm.trans hsought
  · rcases hm.follows.ended hm.regular hfailed with ⟨i, c, ⟨_, -, -, hc⟩, -⟩ | ⟨t, ht, hnot⟩
    · rw [hnone] at hc
      cases hc
    · exact hnot (hloads.links ht)

/-! ## The root -/

/-- The module of an import, instantiated with all that it leads to. -/
structure Rooted (p : Project) (query : String × Option Url) (t₀ : Resolved) (x : UnitId)
    (r : Except LoadError Unit) (m : Machine) : Prop where
  sought : p.sought query = .ok t₀
  linked : m.AllLinked p t₀
  root : ∃ j, m.loader.target? j = some t₀ ∧ m.loader.UnitOf j x ∧ m.loader.instantiated? j = some r

theorem Rooted.later (h : m.Rooted p query t₀ x r) (hlater : m.loader.Later m'.loader) :
    m'.Rooted p query t₀ x r := by
  obtain ⟨j, ht₀, hx, hdone⟩ := h.root
  obtain ⟨job, hjob, hinstantiation⟩ := Loader.instantiated?_eq_some.mp hdone
  obtain ⟨job', hjob', hjobs⟩ := hlater.job hjob
  exact ⟨h.sought, h.linked.later hlater, j, hlater.target? ht₀,
    Loader.unitOf_iff.mpr (hlater.prepared (Loader.unitOf_iff.mp hx)),
    Loader.instantiated?_eq_some.mpr ⟨job', hjob', hjobs.instantiation r hinstantiation⟩⟩

/-- Nothing else is instantiated. -/
theorem Rooted.of_wanted (h : m.Rooted p query t₀ x r) (hm : m.Lone p query)
    (hj : m.loader.Wanted j) : m.loader.UnitOf j x ∧ m.loader.instantiated? j = some r := by
  obtain ⟨k, hk, hx, hdone⟩ := h.root
  obtain ⟨t, hsought, ht⟩ := hm.wanted j hj
  cases h.sought.symm.trans hsought
  obtain ⟨log, hlog⟩ := hm.entries
  obtain rfl := hlog.sole hk ht
  exact ⟨hx, hdone⟩

theorem Rooted.not_walking (h : m.Rooted p query t₀ x r) (hm : m.Lone p query) {job : Job}
    {walk : Walk} (hjob : m.loader.job? j = some job) : job.instantiation ≠ .walking walk := by
  intro hwalking
  obtain ⟨-, hdone⟩ := h.of_wanted hm ⟨job, hjob, by rw [hwalking]; exact nofun⟩
  obtain ⟨other, hother, hinstantiation⟩ := Loader.instantiated?_eq_some.mp hdone
  cases hjob.symm.trans hother
  cases hwalking.symm.trans hinstantiation

theorem wanted_of_instantiated? (h : m.loader.instantiated? j = some r) : m.loader.Wanted j := by
  obtain ⟨job, hjob, hdone⟩ := Loader.instantiated?_eq_some.mp h
  exact ⟨job, hjob, by rw [hdone]; exact nofun⟩

theorem Rooted.error_of_refuses (h : m.Rooted p query t₀ x r) (hm : m.Lone p query)
    (hrefuses : m.Refuses p query e) : r = .error e := by
  rcases hrefuses with hnowhere | ⟨j, hfailed⟩
  · cases h.sought.symm.trans hnowhere
  · obtain ⟨-, hdone⟩ := h.of_wanted hm (wanted_of_instantiated? hfailed)
    exact Option.some.inj (hdone.symm.trans hfailed)

/-- The root is instantiated when its walk has ended. -/
theorem Lone.rooted (hm : m.Lone p query) (huntouched : m.host.store.Untouched p) {job : Job}
    {walk : Walk} (hjob : m.loader.job? j = some job) (hwalking : job.instantiation = .walking walk)
    (hstack : walk.stack = []) (hprep : job.preparation = .done (.ok x)) :
    ∃ t₀, m.AllLinked p t₀ ∧
      (m.instantiateMembers j x walk.members).Rooted p query t₀ x (m.host.store.instantiate x).2 ∧
      (m.instantiateMembers j x walk.members).host.store.Instantiated p t₀ x
        (m.host.store.instantiate x).2 := by
  obtain ⟨t₀, hsought, ht₀⟩ := hm.wanted j ⟨job, hjob, by rw [hwalking]; exact nofun⟩
  obtain ⟨hroot, hclosed⟩ :=
    (hm.regular.grouped.walking j job walk hjob hwalking).members_closed hstack
  have hall := hm.follows.allLinked hm.regular hclosed hroot ht₀
  have hx : m.loader.UnitOf j x := ⟨_, Loader.built?_of_job? hjob hprep⟩
  obtain ⟨f, hprimed, hf⟩ := hm.primed hall huntouched
  have hlater : m.loader.Later (m.instantiateMembers j x walk.members).loader :=
    later_instantiateMembers x walk.members hjob fun result hresult => by
      rw [hwalking] at hresult
      cases hresult
  have hdone : (m.instantiateMembers j x walk.members).loader.instantiated? j =
      some (m.host.store.instantiate x).2 := by
    unfold Loader.instantiated?
    rw [job?_instantiateMembers, hjob]
    simp only [Option.map_some, Option.bind_some, if_pos]
    rfl
  refine ⟨t₀, hall, ⟨hsought, hall.later hlater, j, hlater.target? ht₀,
    Loader.unitOf_iff.mpr (hlater.prepared (Loader.unitOf_iff.mp hx)), hdone⟩, ?_⟩
  rw [store_instantiateMembers]
  exact ⟨f, m.host.store, hprimed, hf j x t₀ .refl ht₀ hx, rfl, .refl p _⟩

/-! ## What an import has come to -/

/-- What an import has come to, with the answer that it may have got. -/
inductive Stage (p : Project) (query : String × Option Url) (m : Machine) : Prop
  /-- Nothing was instantiated yet. -/
  | loading : m.loader.components = #[] → m.host.store.Untouched p →
      (∀ answer, m.answerOf? ⟨0⟩ = some answer → (∃ e, answer = .error e) ∧ ¬ p.Loads query) →
      Stage p query m
  /-- The module was instantiated, but has not run. -/
  | instantiated {t₀ : Resolved} {x : UnitId} {r : Except LoadError Unit} :
      m.Rooted p query t₀ x r → m.host.store.Instantiated p t₀ x r →
      (∀ answer, m.answerOf? ⟨0⟩ = some answer → ∃ e, answer = .error e ∧ r = .error e) →
      Stage p query m
  /-- The module has run. -/
  | ran {t₀ : Resolved} {x : UnitId} {r : Except LoadError Unit} {unit : ModuleUnit} :
      m.Rooted p query t₀ x (.ok ()) → m.host.store.HasRun p t₀ x r →
      m.host.store.unit? x = some unit →
      m.answerOf? ⟨0⟩ = some (r.map fun _ => .namespace (.ofScope unit.exports)) → Stage p query m

/-- An import runs the module when it is instantiated. -/
theorem Lone.ran (hm : m.Lone p query) (hroot : m.Rooted p query t₀ x r)
    (hinstantiated : m.host.store.Instantiated p t₀ x r)
    (hcalls : m.loader.calls = #[.serving j .imported])
    (hdone : m.loader.instantiated? j = some (.ok ())) :
    Stage p query ((m.serveInstantiated j .imported).1.setCall ⟨0⟩
      (.answered (m.serveInstantiated j .imported).2)) := by
  obtain ⟨hx, hsame⟩ := hroot.of_wanted hm (wanted_of_instantiated? hdone)
  cases hsame.symm.trans hdone
  have hfollows := hm.follows.store
  obtain ⟨_, -, -, hholds⟩ := hm.follows.holds hx
  obtain ⟨unit, hunit, -⟩ := hholds.keeps (hfollows.evaluate x).2
  let after : Machine := { m with host := { m.host with store := (m.host.store.evaluate x).1 } }
  have hrun : after.host.store.HasRun p t₀ x (Store.forget (m.host.store.evaluate x)).2 :=
    ⟨m.host.store, hinstantiated, hfollows, hm.regular.wired.wired.safe.plain, rfl, .refl p _⟩
  rw [serveInstantiated_eq hfollows hx (.inr rfl) hunit]
  refine .ran (hroot.later (later_setCall after ⟨0⟩ _)) hrun hunit ?_
  rw [answerOf?_of_single (single_setCall (m := after) hcalls _)]
  unfold Store.forget
  cases (m.host.store.evaluate x).2 <;> rfl

/-- As long as nothing was instantiated, a step loads more, fails to, or instantiates the module. -/
theorem Rule.stage_of_loading (h : Rule m action m') (hinternal : action.Internal)
    (hm : m.Lone p query) (hnone : m.loader.components = #[])
    (huntouched : m.host.store.Untouched p)
    (hanswer : ∀ answer, m.answerOf? ⟨0⟩ = some answer →
      (∃ e, answer = .error e) ∧ ¬ p.Loads query) : m'.Stage p query := by
  -- before anything was instantiated there is no answer but a failure to load
  have hanswer' : ∀ answer, m'.answerOf? ⟨0⟩ = some answer →
      (∃ e, answer = .error e) ∧ ¬ p.Loads query := by
    intro answer hgot
    cases h.replies hinternal hm with
    | kept hsame => exact hanswer answer (hsame ▸ hgot)
    | refused _ hrefused hrefuses =>
      cases hgot.symm.trans hrefused
      exact ⟨⟨_, rfl⟩, hm.not_loads hnone hrefuses⟩
    | ran _ hdone => exact absurd hdone (hm.regular.not_instantiated hnone)
  rcases Regular.components_cases h with hsame | ⟨c, hpush⟩
  · rcases h.effect_cases hm.regular with htreats | ⟨id, job, walk, x, -, -, -, -, -, rfl⟩ |
      ⟨call, id, wish, -, -, -, hdone, -⟩
    · exact .loading (hsame.trans hnone)
        (huntouched.calm hm.follows.store.toOwned (htreats.calm hm.regular hm.follows)) hanswer'
    · rw [components_instantiateMembers, hnone] at hsame
      cases congrArg Array.size hsame
    · exact absurd hdone (hm.regular.not_instantiated hnone)
  · obtain ⟨job, walk, x, hjob, hwalking, hstack, -, hprep, rfl, -⟩ :=
      Regular.component_of_step h hpush
    obtain ⟨t₀, hall, hroot, hinstantiated⟩ := hm.rooted huntouched hjob hwalking hstack hprep
    refine .instantiated hroot hinstantiated fun answer hgot => ?_
    exact absurd (hall.loads hm hroot.sought) (hanswer' answer hgot).2

/-- When the module is instantiated, it stays so or runs. -/
theorem Rule.stage_of_instantiated (h : Rule m action m') (hinternal : action.Internal)
    (hm : m.Lone p query) (hroot : m.Rooted p query t₀ x r)
    (hinstantiated : m.host.store.Instantiated p t₀ x r)
    (hanswer : ∀ answer, m.answerOf? ⟨0⟩ = some answer → ∃ e, answer = .error e ∧ r = .error e) :
    m'.Stage p query := by
  rcases h.effect_cases hm.regular with htreats | ⟨id, job, walk, y, hjob, hwalking, -⟩ |
    ⟨call, id, wish, -, hcall, -, hdone, rfl⟩
  · have hroot' := hroot.later (h.later hm.follows.sound)
    have hinstantiated' :=
      hinstantiated.calm hm.follows.store.toOwned (htreats.calm hm.regular hm.follows)
    cases h.replies hinternal hm with
    | kept hsame =>
      exact .instantiated hroot' hinstantiated' fun answer hgot => hanswer answer (hsame ▸ hgot)
    | refused _ hrefused hrefuses =>
      refine .instantiated hroot' hinstantiated' fun answer hgot => ?_
      cases hgot.symm.trans hrefused
      exact ⟨_, rfl, hroot.error_of_refuses hm hrefuses⟩
    | ran hcalls hdone hrun =>
      subst hrun
      exact hm.ran hroot hinstantiated hcalls hdone
  · exact absurd hwalking (hroot.not_walking hm hjob)
  · obtain ⟨state, hcalls, hstate⟩ := hm.seeks
    obtain ⟨rfl, rfl⟩ := call_of_single hcalls hcall
    obtain ⟨rfl, -⟩ := hstate
    exact hm.ran hroot hinstantiated hcalls hdone

/-- When the module has run, nothing is left to do for the import. -/
theorem Rule.stage_of_ran (h : Rule m action m') (hinternal : action.Internal) (hm : m.Lone p query)
    (hroot : m.Rooted p query t₀ x (.ok ())) (hrun : m.host.store.HasRun p t₀ x r)
    {unit : ModuleUnit} (hunit : m.host.store.unit? x = some unit)
    (hanswer : m.answerOf? ⟨0⟩ = some (r.map fun _ => .namespace (.ofScope unit.exports))) :
    m'.Stage p query := by
  rcases h.effect_cases hm.regular with htreats | ⟨id, job, walk, y, hjob, hwalking, -⟩ |
    ⟨call, id, wish, -, hcall, -⟩
  · have hcalm := htreats.calm hm.regular hm.follows
    refine .ran (hroot.later (h.later hm.follows.sound))
      (hrun.calm hm.follows.store.toOwned hcalm) ((hcalm.unit? hrun.entered).trans hunit) ?_
    cases h.replies hinternal hm with
    | kept hsame => exact hsame.trans hanswer
    | refused hnone => cases hnone.symm.trans hanswer
    | ran hcalls => cases (answerOf?_of_single hcalls).symm.trans hanswer
  · exact absurd hwalking (hroot.not_walking hm hjob)
  · obtain ⟨state, hcalls, -⟩ := hm.seeks
    obtain ⟨rfl, rfl⟩ := call_of_single hcalls hcall
    cases (answerOf?_of_single hcalls).symm.trans hanswer

/-- Every step keeps what is known of an import. -/
theorem Rule.stage (h : Rule m action m') (hinternal : action.Internal) (hm : m.Lone p query)
    (hs : m.Stage p query) : m'.Stage p query := by
  cases hs with
  | loading hnone huntouched hanswer =>
    exact h.stage_of_loading hinternal hm hnone huntouched hanswer
  | instantiated hroot hinstantiated hanswer =>
    exact h.stage_of_instantiated hinternal hm hroot hinstantiated hanswer
  | ran hroot hrun hunit hanswer => exact h.stage_of_ran hinternal hm hroot hrun hunit hanswer

/-! ## Two schedules -/

/-- Two loaders have come to the same with an import: it has failed in both, or its namespace shows
the same values in both, and both have the same modules with the same dependencies, all of them
linked. -/
inductive SameImport (m m' : Machine) : Except LoadError Answer → Except LoadError Answer → Prop
  | failed {e e' : LoadError} : SameImport m m' (.error e) (.error e')
  | imported {ns ns' : Namespace} : ns.read m.host.store.cells = ns'.read m'.host.store.cells →
      (∀ url, m.loader.entry? url = m'.loader.entry? url) →
      (∀ url entry, m.loader.entry? url = some entry → entry.2.isSome = true) →
      SameImport m m' (.ok (.namespace ns)) (.ok (.namespace ns'))

/-- An import fails: a module cannot be linked, or the instantiation goes wrong. -/
def Fails (p : Project) (query : String × Option Url) : Prop :=
  ¬ p.Loads query ∨ ∃ t₀ x e, p.sought query = .ok t₀ ∧
    ∃ s : Store, s.Follows p ∧ s.Instantiated p t₀ x (.error e)

/-- A module that has run is none whose import fails. -/
theorem Rooted.not_fails (hroot : m.Rooted p query t₀ x (.ok ())) (hm : m.Lone p query)
    (hrun : m.host.store.HasRun p t₀ x r) (hsame : p.Same p')
    (hsought : p.sought query = p'.sought query) : ¬ Fails p' query := by
  rintro (hnot | ⟨t₁, y, e, hsought', s, hfollows, hfailed⟩)
  · obtain ⟨t₁, hsought', hlinks⟩ := hroot.linked.loads hm hroot.sought
    exact hnot ⟨t₁, hsought.symm.trans hsought',
      fun t ht => (hlinks t (hsame.symm.reaches ht)).same hsame⟩
  · cases hroot.sought.symm.trans (hsought.trans hsought')
    obtain ⟨t, hinstantiated, hfollows', -⟩ := hrun
    cases (hinstantiated.same hfailed hsame hfollows' hfollows).1

/-- An import that was answered has failed, or shows what the module exports. -/
theorem Stage.answered (hs : m.Stage p query) (hm : m.Lone p query)
    (hanswer : m.answerOf? ⟨0⟩ = some answer) : (∃ e, answer = .error e ∧ Fails p query) ∨
      ∃ t₀ x r unit, m.Rooted p query t₀ x (.ok ()) ∧ m.host.store.HasRun p t₀ x r ∧
        m.host.store.unit? x = some unit ∧
        answer = r.map fun _ => .namespace (.ofScope unit.exports) := by
  cases hs with
  | loading _ _ hfailed =>
    obtain ⟨⟨e, rfl⟩, hnot⟩ := hfailed answer hanswer
    exact .inl ⟨e, rfl, .inl hnot⟩
  | instantiated hroot hinstantiated hfailed =>
    obtain ⟨e, rfl, rfl⟩ := hfailed answer hanswer
    exact .inl ⟨e, rfl, .inr ⟨_, _, e, hroot.sought, _, hm.follows.store, hinstantiated⟩⟩
  | ran hroot hrun hunit hgot =>
    cases hanswer.symm.trans hgot
    exact .inr ⟨_, _, _, _, hroot, hrun, hunit, rfl⟩

/-- Two loaders that have answered one import have come to the same. -/
theorem Stage.same (hs : m.Stage p query) (hs' : m'.Stage p' query) (hm : m.Lone p query)
    (hm' : m'.Lone p' query) (hsame : p.Same p') (hsought : p.sought query = p'.sought query)
    (hanswer : m.answerOf? ⟨0⟩ = some answer) (hanswer' : m'.answerOf? ⟨0⟩ = some answer') :
    SameImport m m' answer answer' := by
  rcases hs.answered hm hanswer with ⟨e, rfl, hfails⟩ | ⟨t₀, x, r, unit, hroot, hrun, hunit, rfl⟩
  · rcases hs'.answered hm' hanswer' with ⟨e', rfl, -⟩ | ⟨_, _, _, _, hroot', hrun', -⟩
    · exact .failed
    · exact absurd hfails (hroot'.not_fails hm' hrun' hsame.symm hsought.symm)
  · rcases hs'.answered hm' hanswer' with ⟨e', -, hfails⟩ |
      ⟨t₁, x', r', unit', hroot', hrun', hunit', rfl⟩
    · exact absurd hfails (hroot.not_fails hm hrun hsame hsought)
    · cases hroot.sought.symm.trans (hsought.trans hroot'.sought)
      obtain ⟨rfl, hvalues⟩ := hrun.same hrun' hsame hm.follows.store hm'.follows.store
      cases r with
      | error e => exact .failed
      | ok =>
        refine .imported ?_ ?_ ?_
        · rw [Namespace.read_ofScope, Namespace.read_ofScope, hvalues unit unit' hunit hunit']
        · exact hm.same_entries hm' hsame hroot.sought hroot.linked hroot'.sought hroot'.linked
        · exact hm.linked_of_entry? hroot.sought hroot.linked

end Machine

/-! ## All schedules -/

namespace Project

variable {p p' : Project} {query : String × Option Url}

/-- The project for a loader that asks the file system no more than so many questions at a time. -/
def withProbes (p : Project) (probes : Nat) : Project :=
  { p with settings := { p.settings with maxProbes := probes } }

theorem same_withProbes (p : Project) (probes : Nat) : p.Same (p.withProbes probes) where
  content _ := rfl
  leads _ _ := rfl
  library _ := rfl
  tables := rfl
  functions := rfl

theorem Sole.same (h : p.Sole query) (hsame : p.Same p')
    (hsought : p.sought query = p'.sought query) : p'.Sole query := by
  have hback : ∀ t, p'.Sought query t → p.Sought query t := by
    rintro t ⟨t₀, hsought', hreach⟩
    exact ⟨t₀, hsought.trans hsought', hsame.symm.reaches hreach⟩
  exact fun t t' ht ht' => h t t' (hback t ht) (hback t' ht')

/-- Whether the modules of a list lead to each other only. -/
def encloses (p : Project) (modules : List Resolved) : Bool :=
  modules.all fun t => (p.content? t).all fun c => c.specifiers.all fun specifier =>
    (p.leads t specifier).toOption.all (modules.elem ·)

/-- An import that leads to one of the modules leads to no others. -/
theorem mem_of_sought {modules : List Resolved} {t : Resolved}
    (hsought : (p.sought query).toOption.all (modules.elem ·) = true)
    (hclosed : p.encloses modules = true) (h : p.Sought query t) : t ∈ modules := by
  obtain ⟨t₀, hsought', hreach⟩ := h
  induction hreach with
  | refl =>
    rw [hsought'] at hsought
    exact List.elem_iff.mp hsought
  | tail _ himports ih =>
    obtain ⟨c, hc, specifier, hspecifier, hleads⟩ := himports
    have hall := List.all_eq_true.mp hclosed _ ih
    rw [hc] at hall
    have helem := List.all_eq_true.mp hall specifier hspecifier
    rw [hleads] at helem
    exact List.elem_iff.mp helem

theorem sole_of_encloses (modules : List Resolved)
    (hsought : (p.sought query).toOption.all (modules.elem ·) = true)
    (hclosed : p.encloses modules = true) (hdistinct : (modules.map Resolved.url).Nodup) :
    p.Sole query := fun _ _ ht ht' hurl =>
  List.inj_on_of_nodup_map hdistinct (mem_of_sought hsought hclosed ht)
    (mem_of_sought hsought hclosed ht') hurl

end Project

namespace Machine

variable {p : Project} {query : String × Option Url} {m m' : Machine} {action : Action}

theorem internal_actionOf (m : Machine) (task : Task) : (m.actionOf task).Internal := by
  cases task with
  | preparation id =>
    rw [actionOf_preparation]
    split <;> trivial
  | question probe =>
    rw [actionOf_question]
    split <;> trivial
  | _ => trivial

/-- An import that has no answer yet has a step to take. -/
theorem Seeks.answered (hm : m.Seeks p query) (hs : m.loader.Standing)
    (hprobes : 1 ≤ m.loader.resolver.settings.maxProbes)
    (hstuck : ∀ action, Action.Internal action → m.step? action = none) :
    ∃ answer, m.answerOf? ⟨0⟩ = some answer := by
  obtain ⟨state, hcalls, -⟩ := hm
  cases hanswer : state.answer? with
  | some answer => exact ⟨answer, (answerOf?_of_single hcalls).trans hanswer⟩
  | none =>
    have hpending : m.Pending (.call ⟨0⟩) := .call (by rw [hcalls]; rfl) hanswer
    obtain ⟨task, -, -, hstep⟩ := hpending.exists_step hs hprobes
    rw [hstuck _ (m.internal_actionOf task)] at hstep
    cases hstep

/-- What is known of a loader with one import, and of the import. -/
structure Underway (p : Project) (query : String × Option Url) (m : Machine) : Prop where
  lone : m.Lone p query
  stage : m.Stage p query
  standing : m.loader.Standing

theorem Rule.underway (h : Rule m action m') (hinternal : action.Internal) (hsole : p.Sole query)
    (hm : m.Underway p query) : m'.Underway p query where
  lone := h.lone hinternal hsole hm.lone
  stage := h.stage hinternal hm.lone hm.stage
  standing := h.standing hm.standing (by
    cases action with
    | start | supply => cases hinternal
    | _ => trivial)

theorem underway_acts (hsole : p.Sole query) {schedule : List Action}
    (hschedule : ∀ action ∈ schedule, action.Internal) :
    ((importing p query).acts schedule).Underway p query := by
  refine within_induction (P := fun m => m.Underway p query)
    (fun hrule hinternal hm => hrule.underway hinternal hsole hm) ?_ hschedule
  exact {
    lone := lone_importing hsole
    stage := .loading rfl ⟨rfl, fun _ => rfl, fun _ _ hunit => (by cases hunit), fun _ _ hunit => by
      cases hunit⟩ fun _ hanswer => by cases hanswer
    standing := (Rule.startFind query.1 query.2 .imported).standing (standing_fresh _ _) trivial }

/-- A loader after one import under a schedule, with so many questions to the file system at once. -/
def scheduled (p : Project) (query : String × Option Url) (probes : Nat) (schedule : List Action) :
    Machine :=
  (importing (p.withProbes probes) query).acts schedule

/--
If no two modules to which an import leads have one URL, no schedule decides the import, whatever the
files, libraries and settings are and whatever the modules import:

* A schedule that can go on with nothing any more has answered, if it may ask any question at all.
* Two schedules that have answered have come to the same, also if they may ask different numbers of
  questions at a time: the import has failed under both, or its namespace shows the same values, and
  the loaders have the same URLs with the same formats and the same dependencies.
-/
theorem same_under_every_schedule (p : Project) (query : String × Option Url)
    (hsole : p.Sole query) :
    (∀ probes schedule, 1 ≤ probes → (∀ action ∈ schedule, Action.Internal action) →
      (∀ action, action.Internal → (scheduled p query probes schedule).step? action = none) →
      ∃ answer, (scheduled p query probes schedule).answerOf? ⟨0⟩ = some answer) ∧
    ∀ probes probes' schedule schedule' answer answer',
      (∀ action ∈ schedule, Action.Internal action) →
      (∀ action ∈ schedule', Action.Internal action) →
      (scheduled p query probes schedule).answerOf? ⟨0⟩ = some answer →
      (scheduled p query probes' schedule').answerOf? ⟨0⟩ = some answer' →
      SameImport (scheduled p query probes schedule) (scheduled p query probes' schedule') answer
        answer' := by
  have hsame := p.same_withProbes
  have hsole' := fun probes => hsole.same (hsame probes) rfl
  constructor
  · intro probes schedule hprobes hschedule hstuck
    have hm := underway_acts (hsole' probes) hschedule
    obtain ⟨log, hlog⟩ := hm.lone.follows.queries
    exact hm.lone.seeks.answered hm.standing (by rw [hlog.asked.configured]; exact hprobes) hstuck
  · intro probes probes' schedule schedule' answer answer' hschedule hschedule' hanswer hanswer'
    have hm := underway_acts (hsole' probes) hschedule
    have hm' := underway_acts (hsole' probes') hschedule'
    exact hm.stage.same hm'.stage hm.lone hm'.lone ((hsame probes).symm.trans (hsame probes')) rfl
      hanswer hanswer'

/-! ### Imports under two schedules -/

/-- What the call waits for goes first, and then the link phases in the order of their jobs. -/
def callFirst (m : Machine) : Option Action :=
  (m.fileStep?.or (m.callStep? ⟨0⟩)).or m.backgroundStep?

/-- The link phases go first, in the order of their jobs. -/
def linksFirst (m : Machine) : Option Action :=
  (m.fileStep?.or m.backgroundStep?).or (m.callStep? ⟨0⟩)

/-- A project of these scripts and one library. -/
def sharingLibrary (scripts : List (String × String)) : Project where
  files := (Host.ofScripts scripts).files
  registry := [("m", ⟨0⟩)]
  tables := ⟨#[[("x", .boolean true)]]⟩
  settings := .atRoot
  functions := .stock

/-- The import of the first script. -/
def firstScript : String × Option Url := ("./a", none)

/-- The schedule that comes of such choices. -/
def scheduleBy (p : Project) (probes : Nat) (next? : Machine → Option Action) : List Action :=
  path next? 80 (importing (p.withProbes probes) firstScript)

/-- The outcome of the import under this schedule. -/
def answerBy? (p : Project) (probes : Nat) (next? : Machine → Option Action) :
    Option (Except LoadError Answer) :=
  (scheduled p firstScript probes (scheduleBy p probes next?)).answerOf? ⟨0⟩

/-- Scripts that import each other, and a library from which one of them imports. -/
def knot : Project :=
  sharingLibrary [("/a", "import './b'; import { x } from '@rt/m';"), ("/b", "import './a';")]

def knotModules : List Resolved :=
  ["./a", "./b", "@rt/m"].filterMap fun specifier => (knot.sought (specifier, none)).toOption

/-- It comes to the same, whether one question is asked at a time or five. -/
theorem same_import_of_knot : knot.Sole firstScript ∧ ∃ answer answer',
    answerBy? knot 1 callFirst = some answer ∧ answerBy? knot 5 linksFirst = some answer' ∧
      answer.isOk = true ∧ SameImport (scheduled knot firstScript 1 (scheduleBy knot 1 callFirst))
        (scheduled knot firstScript 5 (scheduleBy knot 5 linksFirst)) answer answer' := by
  have hsole : knot.Sole firstScript := by
    refine Project.sole_of_encloses knotModules ?_ ?_ ?_ <;> decide +kernel
  obtain ⟨answer, hanswer, hok⟩ := (Option.any_eq_true _ _).mp
    (show (answerBy? knot 1 callFirst).any (·.isOk) = true by decide +kernel)
  obtain ⟨answer', hanswer', -⟩ := (Option.any_eq_true _ _).mp
    (show (answerBy? knot 5 linksFirst).any (·.isOk) = true by decide +kernel)
  refine ⟨hsole, answer, answer', hanswer, hanswer', hok, ?_⟩
  exact (same_under_every_schedule knot firstScript hsole).2 1 5 _ _ answer answer'
    (by decide +kernel) (by decide +kernel) hanswer hanswer'

/-- Scripts of which one leads to a library after some steps, and one to its URL spelled out, which is
no library. -/
def forked : Project :=
  sharingLibrary [("/a", "import './b'; import './c';"), ("/b", "import './d';"),
    ("/c", "import 'builtin:@rt/m';"), ("/d", "import '@rt/m';")]

/-- The import fails under one schedule and goes well under the other one. -/
theorem forked_decided_by_schedule :
    (∀ action ∈ scheduleBy forked 1 callFirst ++ scheduleBy forked 1 linksFirst,
        Action.Internal action) ∧
      (answerBy? forked 1 callFirst).any (fun answer => answer.isOk) = true ∧
      (answerBy? forked 1 linksFirst).any (fun answer => !answer.isOk) = true := by
  refine ⟨?_, ?_, ?_⟩ <;> decide +kernel

end Machine

end ModuleLoader
