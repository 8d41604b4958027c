import ModuleLoader.Proofs.Members
/-!
# Membership in components

Walks of several roots go over the same jobs, and whichever ends first makes a component for what it
has visited. A job stays in the component that it joined first, also if it is visited by walks that
end later, or is itself the root of one.

Results:
1. `Rule.rootsSettled`: the instantiation of a root comes to what its component came to; every step keeps
   it.
2. `membership_stable`: a job never changes its component, which is that of its root as well.
-/
namespace ModuleLoader

namespace Loader

variable {l l' : Loader} {id j r : JobId}

theorem Later.instantiated (h : l.Later l') {result : Except LoadError Unit}
    (hdone : l.instantiated? id = some result) : l'.instantiated? id = some result := by
  obtain ⟨job, hjob, hinstantiation⟩ := instantiated?_eq_some.mp hdone
  obtain ⟨job', hjob', hlater⟩ := h.job hjob
  exact instantiated?_eq_some.mpr ⟨job', hjob', hlater.instantiation result hinstantiation⟩

/-- The instantiation of every root has come to what its component came to. -/
def RootsSettled (l : Loader) : Prop :=
  ∀ c ∈ l.components, l.instantiated? c.root = some c.outcome

theorem joined_of_root? (h : l.root? j = some r) : ∃ i c, l.Joined j i c ∧ c.root = r := by
  obtain ⟨c, hc, hroot⟩ := Option.map_eq_some_iff.mp h
  obtain ⟨i, hj⟩ := joined_of_component? hc
  exact ⟨i, c, hj, hroot⟩

/-- The root of a job's component is in the same component, and reaches the job. -/
theorem Grouped.rooted (hg : l.Grouped) {i : Nat} {c : Component} (h : l.Joined j i c) :
    l.Joined c.root i c ∧ l.Reaches c.root j ∧ j ∈ c.members ∧ (c.root ≠ j → c.outcome = .ok ()) := by
  obtain ⟨hin, hfailed⟩ := hg.of_joined h
  have hmade := hg.made i c (let ⟨_, _, _, hc⟩ := h; hc)
  refine ⟨hmade.own, hmade.reached j hin, hin, fun hne => ?_⟩
  cases houtcome : c.outcome with
  | ok => rfl
  | error e => exact absurd (hfailed e houtcome) hne

end Loader

namespace Machine

variable {m m' : Machine} {action : Action}

/-- Every step keeps roots settled: the step that makes a component ends the instantiation too. -/
theorem Rule.rootsSettled (h : Rule m action m') (hr : m.loader.resolver.Sound)
    (hm : m.loader.RootsSettled) : m'.loader.RootsSettled := by
  have hlater := h.later hr
  have hold : ∀ c ∈ m.loader.components, m'.loader.instantiated? c.root = some c.outcome :=
    fun c hc => hlater.instantiated (hm c hc)
  rcases Regular.components_cases h with hsame | ⟨made, hpush⟩
  · exact fun c hc => hold c (hsame ▸ hc)
  · obtain ⟨job, walk, unit, hjob, -, -, -, -, hstep, hmade⟩ := Regular.component_of_step h hpush
    intro c hc
    rw [hpush] at hc
    rcases Array.mem_push.mp hc with hin | rfl
    · exact hold c hin
    · refine Loader.instantiated?_eq_some.mpr ?_
      rw [hstep, job?_instantiateMembers, hjob]
      have houtcome : c.outcome = (m.host.store.instantiate unit).2 :=
        congrArg Component.outcome hmade
      refine ⟨_, rfl, ?_⟩
      rw [houtcome]
      exact if_pos rfl

theorem rootsSettled_after (host : Host) (settings : Settings) (events : List Event) :
    ((ofSettings host settings).after events).loader.RootsSettled :=
  (after_induction (m := ofSettings host settings)
    (P := fun m => m.loader.resolver.Sound ∧ m.loader.RootsSettled)
    (fun hrule h => ⟨hrule.resolver.sound h.1, hrule.rootsSettled h.1 h.2⟩) (fun _ h => h)
    ⟨Resolver.sound_ofSettings settings, fun c hc => absurd hc (Array.not_mem_empty c)⟩ events).2

/--
Components of jobs after any events, in any order:

* A job that has joined a component is in that component, and in no other, after all further events.
* The root of a job's component is in that component too, so it is its own root, and it reaches the
  job. Its instantiation has come to what the component came to.
* A job whose component has another root is in it because it went well.

The host may change in any way meanwhile, so this holds for any files, libraries and units.
-/
theorem membership_stable (host : Host) (settings : Settings) (events more : List Event) :
    let l := ((ofSettings host settings).after events).loader
    let l' := ((ofSettings host settings).after (events ++ more)).loader
    (∀ j i c, l.Joined j i c → ∀ k d, l'.Joined j k d ↔ k = i ∧ d = c) ∧
    ∀ j r, l.root? j = some r → l.root? r = some r ∧ l.Reaches r j ∧
      ∃ i c, l.Joined j i c ∧ l.Joined r i c ∧ c.root = r ∧ j ∈ c.members ∧
        l.instantiated? r = some c.outcome ∧ (r ≠ j → c.outcome = .ok ()) := by
  intro l l'
  have hg : l.Grouped := grouped_after host settings events
  have hlater : l.Later l' := by
    change l.Later ((ofSettings host settings).after (events ++ more)).loader
    rw [after_append]
    exact later_after (sound_fresh host settings events) more
  refine ⟨fun j i c hj k d => ⟨fun hk => ?_, ?_⟩, fun j r hroot => ?_⟩
  · exact hk.unique (hj.mono hlater)
  · rintro ⟨rfl, rfl⟩
    exact hj.mono hlater
  · obtain ⟨i, c, hj, rfl⟩ := Loader.joined_of_root? hroot
    obtain ⟨hown, hreaches, hin, hok⟩ := hg.rooted hj
    refine ⟨?_, hreaches, i, c, hj, hown, rfl, hin, rootsSettled_after host settings events c hj.mem, hok⟩
    unfold Loader.root?
    rw [hown.component?]
    rfl

/-- A module that imports two others. -/
def withTwo : Machine :=
  ofSettings (.ofScripts [("/a", "import './b'; import './c';"), ("/b", ""), ("/c", "")]) .atRoot

/-- One of the two is instantiated first, and then the module that imports both. -/
def oneBefore : List Event :=
  (withTwo.answering 60 [.find "./b" none .instantiated, .find "./a" none .instantiated]).map .step

/-- Then the other one is instantiated as well. -/
def otherAfter : List Event :=
  ((withTwo.after oneBefore).answering 60 [.find "./c" none .instantiated]).map .step

/-- The one that came first has a component of its own, and the other one stays in that of both. -/
theorem membership_stable_withTwo :
    (withTwo.after oneBefore).loader.root? ⟨0⟩ = some ⟨0⟩ ∧
      (withTwo.after oneBefore).loader.root? ⟨2⟩ = some ⟨1⟩ ∧
      (withTwo.after oneBefore).loader.Reaches ⟨1⟩ ⟨2⟩ ∧
      ∃ i c, (withTwo.after oneBefore).loader.Joined ⟨2⟩ i c ∧ c.root = ⟨1⟩ ∧ c.outcome = .ok () ∧
        ∀ k d, (withTwo.after (oneBefore ++ otherAfter)).loader.Joined ⟨2⟩ k d ↔ k = i ∧ d = c := by
  obtain ⟨hstays, hrooted⟩ := membership_stable _ _ oneBefore otherAfter
  have hroot : (withTwo.after oneBefore).loader.root? ⟨2⟩ = some ⟨1⟩ := by decide +kernel
  obtain ⟨-, hreaches, i, c, hj, -, hc, -, -, hok⟩ := hrooted ⟨2⟩ ⟨1⟩ hroot
  exact ⟨by decide +kernel, hroot, hreaches, i, c, hj, hc, hok (by decide), hstays ⟨2⟩ i c hj⟩

end Machine

end ModuleLoader
