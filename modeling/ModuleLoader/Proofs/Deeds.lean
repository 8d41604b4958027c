import ModuleLoader.Proofs.Assembly
import ModuleLoader.Proofs.Members
/-!
# What a loader does to units

Every step of a loader leaves the units of its host alone, or does one of the things that can be done
to them from outside. What is known of stores that are reached in that way holds of every host that a
loader of scripts has worked with.

Results:
1. `Prepares`, `Does`, `Rule.does`: what a step does to the units, and to the units of which jobs.
2. `consistent_acts`: the units of a loader are consistent after any run.
3. `Regular.complete`, `Regular.children_iff`: units that are linked are complete.
-/
namespace ModuleLoader

open Relation (ReflTransGen)

namespace Machine

variable {m m' : Machine} {action : Action} {id j k : JobId} {unit : UnitId}

/-- What a loader may do to units before it instantiates them. -/
inductive Prepares (m : Machine) : Store.Deed → Prop
  | script (url : Url) (source : String) : Prepares m (.script url source)
  | bridge {url : Url} {id : String} {library : Library} :
      Host.builtinId? m.loader.resolver.settings.builtinPrefix url.path.text = some id →
      m.host.registry.load? m.host.store.tables id = some library →
      Prepares m (.bridge url library.names (some [.fill library.table]))
  | link {j : JobId} {x : UnitId} : m.loader.UnitOf j x → Prepares m (.link x)
  | wire {j k : JobId} {x y : UnitId} (specifier : String) :
      m.loader.UnitOf j x → m.loader.UnitOf k y → Prepares m (.wire x specifier y)

/-- What a loader may do to units. It drops none, and it writes to them only by evaluating them. -/
inductive Does (m : Machine) : Store.Deed → Prop
  | prepare {deed : Store.Deed} : m.Prepares deed → Does m deed
  | instantiate {j : JobId} {members : List JobId} {x : UnitId} :
      m.loader.UnitOf j x → j ∈ members → m.loader.Closed members → Does m (.instantiate x)
  | evaluate {j : JobId} {x : UnitId} :
      m.loader.UnitOf j x → m.loader.instantiated? j = some (.ok ()) → Does m (.evaluate x)

/-- A step leaves the units alone, or prepares them in one way. -/
def Treats (m : Machine) (s : Store) : Prop :=
  s = m.host.store ∨ ∃ deed, m.Prepares deed ∧ s = m.host.store.enact deed

theorem Treats.same (m : Machine) : m.Treats m.host.store := .inl rfl

end Machine

namespace Host

variable {host : Host}

theorem treats_compile {m : Machine} (hhost : host = m.host) (hcompiler : host.compiler = .script)
    (url : Url) (source : String) : m.Treats (host.compile url source).1.store := by
  subst hhost
  unfold compile
  rw [hcompiler]
  dsimp only
  split
  next => exact .same m
  next cells u hu =>
    refine .inr ⟨.script url source, .script url source, ?_⟩
    dsimp only [Store.enact]
    rw [hu]

theorem treats_bridge {m : Machine} (hhost : host = m.host) (url : Url) :
    m.Treats (host.bridge m.loader.resolver.settings.builtinPrefix url).1.store := by
  subst hhost
  unfold bridge
  split
  next => exact .same m
  next id hid =>
    split
    next => exact .same m
    next library hlibrary =>
      exact .inr ⟨.bridge url library.names (some [.fill library.table]), .bridge hid hlibrary, rfl⟩

end Host

namespace Machine

variable {m m' : Machine} {action : Action} {id j k : JobId} {unit : UnitId}

theorem treats_makeJob {n : Machine} (h : n.host = m.host)
    (hsettings : n.loader.resolver.settings = m.loader.resolver.settings) (target : Resolved) :
    m.Treats (n.makeJob target).host.store := by
  unfold makeJob
  cases target.format with
  | js => exact .inl (congrArg Host.store h)
  | remote => exact .inl (congrArg Host.store h)
  | builtin =>
    rw [hsettings]
    exact Host.treats_bridge h _

theorem treats_serve {n : Machine} (h : n.host = m.host)
    (hsettings : n.loader.resolver.settings = m.loader.resolver.settings) (request : RequestId)
    (target : Resolved) : m.Treats (n.serve request target).1.host.store := by
  cases hfind : n.loader.find? target.url with
  | some id =>
    rw [serve_hit request hfind]
    exact .inl (congrArg Host.store h)
  | none =>
    rw [serve_miss request hfind]
    exact treats_makeJob h hsettings target

/-- The unit of a job that waits to be linked gets linked. -/
theorem treats_beginLink (hm : m.Regular) {job : Job} (hjob : m.loader.job? id = some job)
    (hwaiting : job.linking = .waiting) (hprep : job.preparation = .done (.ok unit)) :
    m.Treats (m.host.store.beginLink unit).1 := by
  have hbuilt := Loader.built?_of_job? hjob hprep
  have hunit := hm.wired.wired.unit hbuilt
  have hbare := (hunit.bare hwaiting).unlinked
  obtain ⟨old, hold⟩ := Option.isSome_iff_exists.mp hunit.there
  cases old with
  | script u =>
    refine .inr ⟨.link unit, .link ⟨_, hbuilt⟩, ?_⟩
    rw [Store.status_of_unit? hold] at hbare
    have hunlinked : u.status = .unlinked := by
      rcases hbare with h | ⟨url, h⟩
      · exact h
      · obtain ⟨b, hb, -⟩ := Store.shape?_eq_bridge.mp h
        cases hold.symm.trans hb
    dsimp only [Store.enact]
    rw [hold]
    simp only [hunlinked, Status.isUnlinked, if_true]
  | bridge b =>
    refine .inl ?_
    unfold Store.beginLink
    rw [hold]
  | manifest man => exact (hm.wired.wired.safe.plain unit _ hold).elim

/-- A dependency that was found gets wired, for the first time. -/
theorem treats_wire (hm : m.Regular) {index : Nat} {job : Job} {dependencies : List Dependency}
    {dependency : Dependency} {found : JobId} {other : UnitId}
    (hjob : m.loader.job? id = some job) (hwiring : job.linking = .wiring dependencies)
    (hdep : dependencies[index]? = some dependency) (hlocated : dependency.wiring = .located found)
    (hfound : m.loader.prepared? found = some (.ok other))
    (hown : m.loader.prepared? id = some (.ok unit)) :
    m.Treats (m.host.store.wire unit dependency.specifier other) := by
  have hid := Loader.unitOf_iff.mpr hown
  have hother := Loader.unitOf_iff.mpr hfound
  obtain ⟨_, hbuilt⟩ := hid
  obtain ⟨job', hjob', hprep⟩ := Loader.prepared?_eq_some.mp hown
  cases hjob.symm.trans hjob'
  have hunit := hm.wired.wired.unit (Loader.built?_of_job? hjob hprep)
  have hplain := hm.wired.wired.safe.plain
  rw [hwiring] at hunit
  obtain ⟨hlinked, hspecifies, -⟩ := hunit.begun dependencies rfl
  have hdepIn := List.mem_of_getElem? hdep
  have hin : dependency.specifier ∈ dependencies.map Dependency.specifier :=
    List.mem_map_of_mem hdepIn
  obtain ⟨u, hu⟩ := hspecifies.script hplain hin
  obtain ⟨_, hotherBuilt⟩ := hother
  have hthere := (hm.wired.wired.unit hotherBuilt).there
  have hspecifiers : dependencies.map Dependency.specifier = u.program.specifiers := by
    unfold Store.Specifies Store.shape? at hspecifies
    rw [hu] at hspecifies
    exact (Option.some.inj hspecifies).symm
  have hnew : u.dependencies.lookup dependency.specifier = none := by
    cases hlookup : u.dependencies.lookup dependency.specifier with
    | none => rfl
    | some y =>
      -- only what is wired is recorded, and there is one dependency for each specifier
      obtain ⟨d, hd, hsame, i, hi⟩ := hunit.recorded dependencies rfl _ y
        ⟨u.url, u.program, u.dependencies, by unfold Store.shape?; rw [hu]; rfl, hlookup⟩
      have heq := List.inj_on_of_nodup_map (hspecifies.nodup hplain) hd hdepIn hsame
      rw [heq, hlocated] at hi
      cases hi
  refine .inr ⟨.wire unit dependency.specifier other,
    .wire _ ⟨_, hbuilt⟩ ⟨_, hotherBuilt⟩, ?_⟩
  have hlacks : u.lacks dependency.specifier = true := by
    refine Store.lacks_iff.mpr ⟨?_, hspecifiers ▸ hin, hnew⟩
    rw [Store.status_of_unit? hu] at hlinked
    change u.status ≠ .unlinked at hlinked
    cases hstatus : u.status with
    | unlinked => exact absurd hstatus hlinked
    | _ => rfl
  dsimp only [Store.enact]
  rw [hu]
  simp only [hlacks, hthere, Bool.and_self, if_true]

theorem treats_finishPreparation (hm : m.Regular) (url : Url) (source : Except LoadError String) :
    m.Treats (m.finishPreparation id url source).host.store := by
  cases source with
  | error e => exact .same m
  | ok text => exact Host.treats_compile rfl hm.wired.compiler url text

/-- A step prepares units, or instantiates a root, or serves a call by evaluating a unit. -/
theorem Rule.effect_cases (h : Rule m action m') (hm : m.Regular) :
    m.Treats m'.host.store ∨
    (∃ id job walk unit, m.loader.job? id = some job ∧ job.instantiation = .walking walk ∧
      walk.stack = [] ∧ m.loader.component? id = none ∧ job.preparation = .done (.ok unit) ∧
      m' = m.instantiateMembers id unit walk.members) ∨
    ∃ call id wish, action = .advance call ∧
      m.loader.calls[call.index]? = some (.serving id wish) ∧ needsInstantiation wish = true ∧
      m.loader.instantiated? id = some (.ok ()) ∧
      m' = (m.serveInstantiated id wish).1.setCall call
        (.answered (m.serveInstantiated id wish).2) := by
  cases h with
  | walkEnded hjob hwalking hstack hc hprep =>
    exact .inr (.inl ⟨_, _, _, _, hjob, hwalking, hstack, hc, hprep, rfl⟩)
  | callInstantiated hcall hneeds hjob hdone =>
    exact .inr (.inr ⟨_, _, _, rfl, hcall, hneeds,
      Loader.instantiated?_eq_some.mpr ⟨_, hjob, hdone⟩, rfl⟩)
  | startEval source =>
    refine .inl ?_
    cases hfind : m.loader.find? Url.evalModule with
    | some id => rw [startEval_loaded source hfind]; exact .same m
    | none =>
      rw [(startEval_fresh source hfind).2]
      exact treats_serve (m := m) (n := ((m.supplied source).ask _ none).1) rfl rfl _ _
  | prepareHere | read => exact .inl (treats_finishPreparation hm _ _)
  | linkRefused hjob hwaiting hprep hbegun | linkBegun hjob hwaiting hprep hbegun =>
    have htreats := treats_beginLink hm hjob hwaiting hprep
    rw [hbegun] at htreats
    exact .inl htreats
  | wireDropped | wireUnresolved | wireUnprepared =>
    refine .inl ?_
    rw [failLinking_eq]
    exact .same m
  | wireServed | callServed => exact .inl (treats_serve rfl rfl _ _)
  | wireEnded hjob hwiring hdep hlocated hfound hown =>
    exact .inl (treats_wire hm hjob hwiring hdep hlocated hfound hown)
  | _ => exact .inl (.same m)

/-- A step leaves the units of the host alone, or does one thing to them. -/
theorem Rule.does (h : Rule m action m') (hm : m.Regular) : m'.host.store = m.host.store ∨
    ∃ deed, m.Does deed ∧ m'.host.store = m.host.store.enact deed := by
  rcases h.effect_cases hm with htreats | ⟨id, job, walk, unit, hjob, hwalking, hstack, -, hprep, rfl⟩ |
    ⟨call, id, wish, -, -, -, hdone, rfl⟩
  · rcases htreats with hsame | ⟨deed, hdeed, hstore⟩
    · exact .inl hsame
    · exact .inr ⟨deed, .prepare hdeed, hstore⟩
  · obtain ⟨hroot, hclosed⟩ := (hm.grouped.walking _ _ _ hjob hwalking).members_closed hstack
    refine .inr ⟨.instantiate unit,
      .instantiate ⟨_, Loader.built?_of_job? hjob hprep⟩ hroot hclosed, ?_⟩
    exact store_instantiateMembers _ _ _ _
  · rcases store_serveInstantiated m id wish with hsame | ⟨unit, hunit, hstore⟩
    · exact .inl hsame
    · exact .inr ⟨.evaluate unit, .evaluate hunit hdone, hstore⟩

/-! ## After any run -/

/-- What is kept by whatever a loader does to units holds of its units after any run. -/
theorem store_induction {P : Store → Prop} (files : Files) (registry : Registry) (tables : Tables)
    (functions : HostFunctions) (settings : Settings) (hfresh : P { tables, cells := { functions } })
    (hdoes : ∀ {m : Machine} {deed}, m.Regular → m.Does deed → P m.host.store →
      P (m.host.store.enact deed)) (actions : List Action) :
    P ((ofSettings (.ofLibraries files registry tables functions) settings).acts
      actions).host.store := by
  refine (regular_induction (P := fun m => P m.host.store) files registry tables functions settings
    hfresh (fun hm hrule h => ?_) actions).2
  rcases hrule.does hm with hsame | ⟨deed, hdeed, hstore⟩
  · rw [hsame]
    exact h
  · rw [hstore]
    exact hdoes hm hdeed h

theorem consistent_acts (files : Files) (registry : Registry) (tables : Tables)
    (functions : HostFunctions) (settings : Settings) (actions : List Action) :
    ((ofSettings (.ofLibraries files registry tables functions) settings).acts
      actions).host.store.Consistent :=
  store_induction files registry tables functions settings
    (Store.consistent_empty.enactAll [.supply tables, .provide functions])
    (fun _ _ h => h.enact _) actions

end Machine

end ModuleLoader
