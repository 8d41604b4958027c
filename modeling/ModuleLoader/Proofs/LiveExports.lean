import ModuleLoader.Proofs.EvaluationOrder
import ModuleLoader.Proofs.Facades
import ModuleLoader.Proofs.MapSteps
/-!
# What a library shows

The names that a library exports are those that its table had when its job was made, and their values
are those that the table had when the module was first evaluated, or what the host has written to them
since. Whoever looks at an export sees the same value.

Results:
1. `Shows`: what the host, the holders of a namespace and the importers see.
2. `Doing`, `undergoAll`: steps of the loader, writes to tables and writes to exports in any order.
3. `Rule.bridged`: the step that makes the job of a library.
4. `Orderly.timeline`: where the values of the exports come from.
5. `library_timeline`: all of it, for any library and whatever is done before and after.
-/
namespace ModuleLoader

/-! ## Sorted names -/

theorem nameLe_iff {a b : String} : nameLe a b = true ↔ a ≤ b := by
  unfold nameLe
  rw [Bool.not_eq_true', decide_eq_false_iff_not, String.not_lt]

theorem eraseDups_sublist {α : Type} [BEq α] : ∀ items : List α, items.eraseDups.Sublist items
  | [] => .slnil
  | a :: rest => by
    rw [List.eraseDups_cons]
    exact .cons_cons a ((eraseDups_sublist _).trans List.filter_sublist)
termination_by items => items.length
decreasing_by exact Nat.lt_succ_of_le (List.length_filter_le _ _)

theorem sorted_mergeSort (names : List String) : (names.mergeSort nameLe).Pairwise (· ≤ ·) := by
  have htrans : ∀ a b c, nameLe a b = true → nameLe b c = true → nameLe a c = true :=
    fun a b c hab hbc =>
      nameLe_iff.mpr (String.le_trans (nameLe_iff.mp hab) (nameLe_iff.mp hbc))
  have htotal : ∀ a b, (nameLe a b || nameLe b a) = true := by
    intro a b
    rw [Bool.or_eq_true, nameLe_iff, nameLe_iff]
    exact String.le_total a b
  exact (List.pairwise_mergeSort htrans htotal names).imp nameLe_iff.mp

/-- The names of a bridge are in order, and none stands twice. -/
theorem Bridge.names_make (url : Url) (names : List String) (executor : Option Executor)
    (cells : Cells) :
    (Bridge.make url names executor cells).2.exports.names.Pairwise (· < ·) ∧
      ∀ name, name ∈ (Bridge.make url names executor cells).2.exports.names ↔ name ∈ names := by
  have hnames : (Bridge.make url names executor cells).2.exports.names =
      (names.mergeSort nameLe).eraseDups := Scope.names_fresh _ cells
  rw [hnames]
  constructor
  · have hsorted := (sorted_mergeSort names).sublist (eraseDups_sublist (names.mergeSort nameLe))
    exact (hsorted.and (nodup_eraseDups _)).imp fun h => Std.lt_of_le_of_ne h.1 h.2
  · intro name
    rw [List.mem_eraseDups, List.mem_mergeSort]

/-- The names of a table are those that it has a value for. -/
theorem Table.mem_names {table : Table} {name : String} :
    name ∈ table.names ↔ (table.get? name).isSome = true := by
  unfold Table.names Table.get?
  rw [List.mem_mergeSort, ← not_iff_not, Bool.not_eq_true, Option.isSome_eq_false_iff,
    Option.isNone_iff_eq_none, List.lookup_eq_none_iff]
  simp only [List.mem_map, not_exists, not_and, bne_iff_ne, ne_eq]
  exact ⟨fun h entry he heq => h entry he heq.symm, fun h entry he heq => h entry he heq.symm⟩

theorem Namespace.ofScope_of_sorted {scope : Scope} (h : scope.names.Pairwise (· < ·)) :
    Namespace.ofScope scope = ⟨scope⟩ := by
  unfold Namespace.ofScope
  rw [List.mergeSort_of_pairwise]
  exact (List.pairwise_map.mp h).imp fun hlt => nameLe_iff.mpr (Std.le_of_lt hlt)

namespace Store

variable {s s' t : Store} {x y root : UnitId} {exports : Scope} {table : TableId} {filled : Bool}
  {value : String → Value} {b : Bridge} {name : String}

/-! ## What is seen of a bridge -/

def bridge? (s : Store) (x : UnitId) : Option Bridge :=
  match s.unit? x with
  | some (.bridge b) => some b
  | _ => none

/-- What the host reads under the name of an export. -/
def reflection? (s : Store) (x : UnitId) (name : String) : Option (Except LoadError Value) :=
  (s.bridge? x).map fun b => (exportCell b name).map s.cells.read

/-- The host writes to an export, if the bridge has one of the name. -/
def reflect (s : Store) (x : UnitId) (name : String) (v : Value) : Store :=
  match (s.bridge? x).map fun b => exportCell b name with
  | some (.ok cell) => { s with cells := s.cells.write cell v }
  | _ => s

/-- All who look at the exports of a bridge see the same values: the host, the holders of a namespace
of the module, and the scripts that import from it. -/
structure Shows (s : Store) (x : UnitId) (exports : Scope) (value : String → Value) : Prop where
  taken : (s.unit? x).map ModuleUnit.namespace? = some (.ok ⟨exports⟩)
  listed : (⟨exports⟩ : Namespace).read s.cells = exports.names.map fun name => (name, value name)
  reflected : ∀ name ∈ exports.names, s.reflection? x name = some (.ok (value name))
  imported : ∀ y u w, s.unit? y = some (.script u) → u.status.isBound = true →
    w ∈ u.program.wants → u.dependencies.lookup w.specifier = some x →
    w.imported ∈ exports.names ∧
      (⟨u.locals, u.imports⟩ : Script.Bindings).lookup s.cells w.here = .ok (value w.imported)

theorem bridge?_eq_some : s.bridge? x = some b ↔ s.unit? x = some (.bridge b) := by
  unfold bridge?
  split
  next b' hb' => rw [hb']; simp
  next h => exact iff_of_false (by simp) fun hb => h b hb

theorem exportCell_of_mem (hnodup : (b.exports.map Prod.fst).Nodup) {e : String × CellId}
    (he : e ∈ b.exports) : exportCell b e.1 = .ok e.2 := by
  unfold exportCell
  rw [Scope.cell?_of_mem hnodup he]

theorem Facade.shows (h : s.Facade x exports table filled value)
    (hsorted : exports.names.Pairwise (· < ·)) (hmade : s.WellMade) (hbound : s.Bound) :
    s.Shows x exports value := by
  obtain ⟨b, hb, rfl, -⟩ := h.bridge
  have hnodup : (b.exports.map Prod.fst).Nodup := hmade x _ hb
  refine ⟨?_, ?_, fun name hname => ?_, fun y u w hu hstatus hw hlookup => ?_⟩
  · rw [hb]
    exact congrArg (fun ns => some (Except.ok ns)) (Namespace.ofScope_of_sorted hsorted)
  · unfold Namespace.read Scope.names
    rw [List.map_map]
    exact List.map_congr_left fun e he => Prod.ext rfl (h.holds e he)
  · obtain ⟨e, he, rfl⟩ := List.mem_map.mp hname
    unfold reflection?
    rw [bridge?_eq_some.mpr hb, Option.map_some, exportCell_of_mem hnodup he]
    exact congrArg (fun v => some (Except.ok v)) (h.holds e he)
  · have hsource : s.source? y w.specifier = some (.bridge b) := by
      rw [source?_of_script hu, hlookup]
      exact hb
    obtain ⟨cell, hcell, hread⟩ := (hbound y u hu hstatus).2.lookup hu (hmade y _ hu)
      (wants_of_script hu ▸ hw) hsource
    have hin := Scope.mem_of_cell? hcell
    exact ⟨List.mem_map_of_mem hin, (hread s.cells).trans (congrArg Except.ok (h.holds _ hin))⟩

/-- In whatever is evaluated next, each body that runs does so in some store, and the body of a script
that imports from a bridge runs when the bridge has been evaluated and shows some values. -/
def ImportersSee (s : Store) (x : UnitId) (exports : Scope) (value : String → Value) : Prop :=
  ∀ root, ∃ log,
    evaluation.Runs s [.ok root] log (s.evaluate root).1 ((s.evaluate root).2.map fun _ => ()) ∧
    (∀ y ∈ log, ∃ t, evaluation.Turning s [.ok root] y t) ∧
    ∀ y t, evaluation.Turning s [.ok root] y t → t.DependsOn y x →
      t.status x = .evaluated none ∧ t.Shows x exports value

theorem Facade.importersSee (h : s.Facade x exports table filled value)
    (hsorted : exports.names.Pairwise (· < ·)) (hs : s.Consistent) (howned : s.Owned) :
    s.ImportersSee x exports (s.filling table filled value) := by
  intro root
  obtain ⟨log, hruns⟩ := evaluate_runs hs.noManifests root
  refine ⟨log, hruns, fun y hy => hruns.exists_turning hy, fun y t hturning hd => ?_⟩
  obtain ⟨hmade, hbound, hfilled⟩ := h.turning hs howned hturning hd
  exact ⟨hfilled.status_iff.mpr rfl, hfilled.shows hsorted hmade hbound⟩

/-! ## Writes to exports -/

theorem reflect_cases (s : Store) (y : UnitId) (name : String) (v : Value) :
    s.reflect y name v = s ∧
      (∀ b, s.unit? y = some (.bridge b) → name ∉ b.exports.map Prod.fst) ∨
    ∃ b cell, s.unit? y = some (.bridge b) ∧ (name, cell) ∈ b.exports ∧
      s.reflect y name v = s.enact (.write cell v) := by
  unfold reflect
  cases hb : s.bridge? y with
  | none =>
    refine .inl ⟨rfl, fun b hunit => ?_⟩
    rw [bridge?_eq_some.mpr hunit] at hb
    cases hb
  | some b =>
    have hunit := bridge?_eq_some.mp hb
    cases hcell : b.exports.cell? name with
    | none =>
      have herror : exportCell b name = .error (.unknownExport b.url name) := by
        unfold exportCell
        rw [hcell]
      simp only [Option.map_some, herror]
      refine .inl ⟨trivial, fun b' hb' => ?_⟩
      cases hunit.symm.trans hb'
      exact Scope.cell?_eq_none.mp hcell
    | some cell =>
      have hok : exportCell b name = .ok cell := by
        unfold exportCell
        rw [hcell]
      simp only [Option.map_some, hok]
      exact .inr ⟨b, cell, hunit, Scope.mem_of_cell? hcell, rfl⟩

/-- A write to an export changes the value of that export, and of no other. -/
theorem Facade.reflect (h : s.Facade x exports table filled value) (hmade : s.WellMade)
    (howned : s.Owned) (y : UnitId) (name : String) (v : Value) :
    (s.reflect y name v).Facade x exports table filled
      fun other => if y = x ∧ other = name then v else value other := by
  obtain ⟨b, hb, rfl, -⟩ := h.bridge
  rcases s.reflect_cases y name v with ⟨hsame, hnone⟩ | ⟨b', cell, hb', hin, hwrites⟩
  · rw [hsame]
    refine ⟨h.bridge, fun e he => ?_⟩
    rw [if_neg, h.holds e he]
    rintro ⟨rfl, rfl⟩
    exact hnone b hb (List.mem_map_of_mem he)
  · rw [hwrites]
    refine ⟨h.bridge, fun e he => ?_⟩
    show (s.cells.write cell v).read e.2 = _
    by_cases hself : y = x
    · subst hself
      cases hb.symm.trans hb'
      by_cases hname : e.1 = name
      · have hentry : e = (name, cell) := List.inj_on_of_nodup_map (hmade y _ hb) he hin hname
        rw [if_pos ⟨rfl, hname⟩, hentry]
        exact Cells.read_write_self (howned.there y _ hb _ hin)
      · rw [if_neg fun heq => hname heq.2, Cells.read_write_of_ne, h.holds e he]
        intro heq
        have hentry := List.inj_on_of_nodup_map (howned.distinct y _ hb) hin he heq
        exact hname (congrArg Prod.fst hentry).symm
    · rw [if_neg fun heq => hself heq.1, Cells.read_write_of_ne, h.holds e he]
      intro heq
      exact howned.apart y x _ _ hself hb' hb cell (List.mem_map_of_mem hin)
        (heq ▸ List.mem_map_of_mem he)

/-- Nothing that is written to a table matters to a bridge by itself. -/
theorem Facade.supply (h : s.Facade x exports table filled value) (tables : Tables) :
    (s.enact (.supply tables)).Facade x exports table filled value := ⟨h.bridge, h.holds⟩

end Store

/-- Jobs and units stay wired as long as the units are the same. -/
theorem Loader.Wired.of_units {l : Loader} {s s' : Store} (hw : l.Wired s)
    (hunits : ∀ x, s'.unit? x = s.unit? x) : l.Wired s' where
  safe := hw.safe.of_status (fun x => Store.shape?_of_unit? (hunits x))
    fun x => Store.status_of_unit?_eq (hunits x)
  unit {_ unit _} hbuilt := (hw.unit hbuilt).of_unit? id (hunits unit)
  apart := hw.apart
  roots c hc hok := by
    obtain ⟨unit, hunit, hentered⟩ := hw.roots c hc hok
    exact ⟨unit, hunit, (Store.status_of_unit?_eq (hunits unit)).symm ▸ hentered⟩

theorem Host.bridge_ok {host host' : Host} {front : String} {url : Url} {x : UnitId}
    (h : host.bridge front url = (host', .ok x)) :
    ∃ id library, Host.builtinId? front url.path.text = some id ∧
      host.registry.load? host.store.tables id = some library ∧ x = ⟨host.store.units.size⟩ ∧
      host'.store = host.store.enact (.bridge url library.names (some [.fill library.table])) := by
  unfold bridge at h
  split at h
  next => cases h
  next id hid =>
    split at h
    next => cases h
    next library hlibrary =>
      cases h
      exact ⟨id, library, hid, hlibrary, rfl, rfl⟩

namespace Machine

variable {m m' n : Machine} {action : Action} {j : JobId} {x y root : UnitId} {exports : Scope}
  {table : TableId} {filled : Bool} {value : String → Value} {url : Url} {id : String}
  {library : Library}

/-! ## The job of a library -/

/-- A new job stands for a library, which gets a bridge of its own. -/
structure Bridges (m m' : Machine) (j : JobId) (x : UnitId) (url : Url) (id : String)
    (library : Library) : Prop where
  job : ∃ job, m'.loader.job? j = some job ∧ job.url = url ∧ job.format = .builtin
  named : Host.builtinId? m.loader.resolver.settings.builtinPrefix url.path.text = some id
  loaded : m.host.registry.load? m.host.store.tables id = some library
  unit : x = ⟨m.host.store.units.size⟩
  store : m'.host.store =
    m.host.store.enact (.bridge url library.names (some [.fill library.table]))

/-- A job has a unit from the start only if it is that of a library. -/
theorem makeJob_of_ok (n : Machine) (target : Resolved) : ∃ host preparation,
    n.makeJob target = { host, loader := { n.loader with
      toModuleMap := n.loader.insert (n.newJob target preparation) } } ∧
    ∀ x, preparation = .done (.ok x) → target.format = .builtin ∧
      n.host.bridge n.loader.resolver.settings.builtinPrefix target.url = (host, .ok x) := by
  unfold makeJob newJob
  cases target.format with
  | js => exact ⟨_, _, rfl, fun x hx => by cases hx⟩
  | builtin => exact ⟨_, _, rfl, fun x hx => ⟨rfl, Prod.ext rfl (Preparation.done.inj hx)⟩⟩
  | remote => exact ⟨_, _, rfl, fun x hx => by cases hx⟩

/-- Serving a request makes a job with a unit only for a library. -/
theorem bridges_serve (hhost : n.host = m.host)
    (hsettings : n.loader.resolver.settings = m.loader.resolver.settings)
    {request : RequestId} {target : Resolved} (hnew : n.loader.job? j = none)
    (h : (n.serve request target).1.loader.prepared? j = some (.ok x)) :
    ∃ id library, m.Bridges (n.serve request target).1 j x target.url id library := by
  obtain ⟨job, hjob, hprep⟩ := Loader.prepared?_eq_some.mp h
  rcases job?_of_serve hjob with hold | ⟨hfind, rfl, -⟩
  · cases hold.symm.trans hnew
  · obtain ⟨host, preparation, hmake, hbuiltin⟩ := n.makeJob_of_ok target
    rw [serve_miss request hfind, hmake] at hjob ⊢
    have hself := hjob
    rw [Loader.job?_push _ n.loader.jobs _ rfl, if_pos rfl] at hself
    obtain rfl := Option.some.inj hself
    obtain ⟨hformat, hbridge⟩ := hbuiltin x hprep
    obtain ⟨id, library, hid, hlibrary, hunit, hstore⟩ := Host.bridge_ok hbridge
    rw [hhost] at hlibrary hunit hstore
    rw [hsettings] at hid
    exact ⟨id, library, ⟨_, hjob, rfl, hformat⟩, hid, hlibrary, hunit, hstore⟩

theorem Bridges.of_job (h : m.Bridges n j x url id library) (hhost : m'.host = n.host)
    (hjob : m'.loader.job? j = n.loader.job? j) : m.Bridges m' j x url id library where
  job := by
    rw [hjob]
    exact h.job
  named := h.named
  loaded := h.loaded
  unit := h.unit
  store := (congrArg Host.store hhost).trans h.store

/-- A step that makes a job does not find a URL in the map. -/
theorem Rule.misses_of_new (h : Rule m action m') (hnew : m.loader.job? j = none) {job : Job}
    (hjob : m'.loader.job? j = some job) : m'.loader.misses ≠ m.loader.misses := by
  -- otherwise the map has the entries that it had, and the job is not new
  have hmore : m'.loader.entries ≠ m.loader.entries := by
    intro hsame
    have hsize := congrArg Array.size hsame
    rw [Loader.size_entries, Loader.size_entries] at hsize
    have hlt : j.index < m'.loader.jobs.size := (Array.getElem?_eq_some_iff.mp hjob).1
    have hle : m.loader.jobs.size ≤ j.index := Array.getElem?_eq_none_iff.mp hnew
    omega
  have hmap := h.mapStep
  generalize m.resolutions action = resolved at hmap
  cases hmap with
  | kept hsame => exact absurd hsame.entries hmore
  | hit _ hsame => exact absurd hsame.entries hmore
  | miss _ _ _ hmisses => exact hmisses ▸ Nat.succ_ne_self _

/-- A step that makes a job with a unit makes the job of a library. -/
theorem Rule.bridged (h : Rule m action m') (hnew : m.loader.job? j = none)
    (hprepared : m'.loader.prepared? j = some (.ok x)) :
    ∃ url id library, m.Bridges m' j x url id library := by
  obtain ⟨job, hjob, -⟩ := Loader.prepared?_eq_some.mp hprepared
  have hgrown := h.misses_of_new hnew hjob
  cases h with
  | startEval source =>
    cases hfind : m.loader.find? Url.evalModule with
    | some id =>
      rw [startEval_loaded source hfind] at hgrown
      exact absurd rfl hgrown
    | none =>
      rw [(startEval_fresh source hfind).2] at hprepared ⊢
      obtain ⟨id, library, hbridges⟩ := bridges_serve (m := m)
        (n := ((m.supplied source).ask m.loader.resolver.settings.evalSpecifier none).1)
        rfl rfl hnew hprepared
      exact ⟨_, id, library, hbridges.of_job rfl rfl⟩
  | @wireServed i index job dependencies dependency request target hother =>
    have hsame : ((m.serve request target).1.setWiring i dependencies index
        (.located (m.serve request target).2)).loader.job? j =
          (m.serve request target).1.loader.job? j := by
      refine (Loader.job?_changeJob _ i j _).trans (if_neg ?_)
      rintro rfl
      cases hother.symm.trans hnew
    have hserved : (m.serve request target).1.loader.prepared? j = some (.ok x) := by
      unfold Loader.prepared? at hprepared ⊢
      rw [← hsame]
      exact hprepared
    obtain ⟨id, library, hbridges⟩ := bridges_serve rfl rfl hnew hserved
    exact ⟨_, id, library, hbridges.of_job rfl hsame⟩
  | callServed =>
    obtain ⟨id, library, hbridges⟩ := bridges_serve rfl rfl hnew hprepared
    exact ⟨_, id, library, hbridges.of_job rfl rfl⟩
  | wireDropped | wireUnresolved | wireUnprepared =>
    rw [failLinking_eq] at hgrown
    exact absurd rfl hgrown
  | walkEnded =>
    obtain ⟨jobs, hloader⟩ := loader_instantiateMembers m _ _ _
    rw [hloader] at hgrown
    exact absurd rfl hgrown
  | callInstantiated =>
    change (serveInstantiated _ _ _).1.loader.misses ≠ _ at hgrown
    rw [loader_serveInstantiated] at hgrown
    exact absurd rfl hgrown
  | _ => exact absurd rfl hgrown

/-! ## What happens around a loader -/

/-- A step of the loader, a write of the host to a table, or a write of the host to an export. -/
inductive Doing
  | step (action : Action)
  | supply (table : TableId) (name : String) (v : Value)
  | push (x : UnitId) (name : String) (v : Value)

def withStore (m : Machine) (store : Store) : Machine := { m with host := { m.host with store } }

/-- The machine after something was done. A step that is not possible changes nothing. -/
def undergo (m : Machine) : Doing → Machine
  | .step action => (m.step? action).getD m
  | .supply table name v =>
    m.withStore { m.host.store with tables := m.host.store.tables.set table name v }
  | .push x name v => m.withStore (m.host.store.reflect x name v)

def undergoAll (m : Machine) (doings : List Doing) : Machine := doings.foldl undergo m

/-- The last value that the host has written to an export. -/
def lastWrite (x : UnitId) (name : String) (doings : List Doing) : Option Value :=
  (doings.filterMap fun
    | .push y other v => if y = x ∧ name = other then some v else none
    | _ => none).getLast?

/-- The values of the exports after some doings, by the values that they had before. -/
def written (x : UnitId) (doings : List Doing) (value : String → Value) : String → Value :=
  fun name => (lastWrite x name doings).getD (value name)

theorem undergoAll_append (m : Machine) (doings : List Doing) (doing : Doing) :
    m.undergoAll (doings ++ [doing]) = (m.undergoAll doings).undergo doing := by
  unfold undergoAll
  rw [List.foldl_append]
  rfl

theorem written_append (x : UnitId) (doings : List Doing) (doing : Doing) (value : String → Value) :
    written x (doings ++ [doing]) value = written x [doing] (written x doings value) := by
  funext name
  unfold written lastWrite
  rw [List.filterMap_append, List.getLast?_append, Option.getD_or]

/-- What holds of a loader of scripts whatever is done around it. -/
structure Orderly (m : Machine) : Prop where
  regular : m.Regular
  consistent : m.host.store.Consistent
  owned : m.host.store.Owned

theorem withStore_enact (m : Machine) (hm : m.Orderly) (deed : Store.Deed)
    (hunits : ∀ z, (m.host.store.enact deed).unit? z = m.host.store.unit? z) :
    (m.withStore (m.host.store.enact deed)).Orderly where
  regular := { hm.regular with
    wired := ⟨hm.regular.wired.compiler, hm.regular.wired.wired.of_units hunits⟩ }
  consistent := hm.consistent.enact deed
  owned := hm.owned.enact hm.consistent.noManifests deed

namespace Orderly

theorem undergo (hm : m.Orderly) (doing : Doing) : (m.undergo doing).Orderly := by
  cases doing with
  | step action =>
    show (m.happen (.step action)).Orderly
    rcases m.happen_cases action with hidle | hrule
    · rw [hidle]
      exact hm
    · rcases hrule.does hm.regular with hsame | ⟨deed, -, hstore⟩
      · exact ⟨hrule.regular hm.regular, hsame ▸ hm.consistent, hsame ▸ hm.owned⟩
      · exact ⟨hrule.regular hm.regular, hstore ▸ hm.consistent.enact deed,
          hstore ▸ hm.owned.enact hm.consistent.noManifests deed⟩
  | supply table name v => exact m.withStore_enact hm (.supply _) fun _ => rfl
  | push y name v =>
    show (m.withStore (m.host.store.reflect y name v)).Orderly
    rcases m.host.store.reflect_cases y name v with ⟨hsame, -⟩ | ⟨_, cell, -, -, hwrites⟩
    · rw [hsame]
      exact hm
    · rw [hwrites]
      exact m.withStore_enact hm _ fun _ => rfl

theorem undergoAll (hm : m.Orderly) (doings : List Doing) : (m.undergoAll doings).Orderly := by
  induction doings generalizing m with
  | nil => exact hm
  | cons doing doings ih => exact ih (hm.undergo doing)

end Orderly

theorem orderly_fresh (files : Files) (registry : Registry) (tables : Tables)
    (functions : HostFunctions) (settings : Settings) :
    (ofSettings (.ofLibraries files registry tables functions) settings).Orderly where
  regular := regular_acts files registry tables functions settings []
  consistent := consistent_acts files registry tables functions settings []
  owned := Store.owned_empty.enactAll Store.consistent_empty [.supply tables, .provide functions]

theorem Does.isOwn {deed : Store.Deed} (h : m.Does deed) : deed.isOwn = true := by
  cases h with
  | prepare h => cases h <;> rfl
  | instantiate => rfl
  | evaluate => rfl

/-- One more thing is done: an export gets another value if it is written to, and a bridge that was not
filled may be filled by a step. -/
theorem Orderly.facade_undergo (hm : m.Orderly)
    (h : m.host.store.Facade x exports table filled value) (doing : Doing) :
    (m.undergo doing).host.store.Facade x exports table filled (written x [doing] value) ∨
      filled = false ∧ (∃ action, doing = .step action) ∧
        (m.undergo doing).host.store.Facade x exports table true (m.host.store.tableValue table) := by
  cases doing with
  | step action =>
    show (m.happen (.step action)).host.store.Facade x exports table filled value ∨
      _ ∧ _ ∧ (m.happen (.step action)).host.store.Facade x exports table true _
    rcases m.happen_cases action with hidle | hrule
    · rw [hidle]
      exact .inl h
    · rcases hrule.does hm.regular with hsame | ⟨deed, hdeed, hstore⟩
      · exact .inl (hsame ▸ h)
      · rw [hstore]
        rcases h.enact hm.consistent hm.owned hdeed.isOwn with hkept | hfilled
        · exact .inl hkept
        · cases filled with
          | true => exact .inl hfilled
          | false => exact .inr ⟨rfl, ⟨action, rfl⟩, hfilled⟩
  | supply table' name v => exact .inl (h.supply _)
  | push y name v =>
    refine .inl ?_
    have hreflect := h.reflect hm.consistent.made hm.owned y name v
    refine ⟨hreflect.bridge, fun e he => (hreflect.holds e he).trans ?_⟩
    unfold written lastWrite
    by_cases hself : y = x ∧ e.1 = name <;> simp [hself]

/-- Where the values of the exports of a bridge come from that was to be filled at first. -/
theorem Orderly.timeline (hm : m.Orderly) (h : m.host.store.Facade x exports table false value)
    (doings : List Doing) :
    (m.undergoAll doings).host.store.Facade x exports table false (written x doings value) ∨
      ∃ before action after, doings = before ++ .step action :: after ∧
        let p := m.undergoAll before
        p.host.store.status x ≠ .evaluated none ∧
        (p.undergo (.step action)).host.store.status x = .evaluated none ∧
        (m.undergoAll doings).host.store.Facade x exports table true
          (written x after (p.host.store.tableValue table)) := by
  induction doings using List.reverseRecOn with
  | nil => exact .inl h
  | append_singleton doings doing ih =>
    have hbefore := hm.undergoAll doings
    rw [undergoAll_append]
    rcases ih with hopen | ⟨before, action, after, rfl, hfirst, hthen, hfilled⟩
    · rcases hbefore.facade_undergo hopen doing with hstill | ⟨-, ⟨action, rfl⟩, hfilled⟩
      · rw [written_append]
        exact .inl hstill
      · refine .inr ⟨doings, action, [], rfl, fun hstatus => ?_, hfilled.status_iff.mpr rfl, hfilled⟩
        exact Bool.false_ne_true (hopen.status_iff.mp hstatus)
    · refine .inr ⟨before, action, after ++ [doing], by simp, hfirst, hthen, ?_⟩
      rw [written_append]
      -- a bridge that is filled is not filled again
      exact (hbefore.facade_undergo hfilled doing).resolve_right fun h => Bool.false_ne_true h.1.symm

/-- The bridge of a new library is to be filled, and its exports hold nothing. -/
theorem Bridges.facade (h : m.Bridges m' j x url id library) : ∃ exports : Scope,
    exports.names.Pairwise (· < ·) ∧
    (∀ name, name ∈ exports.names ↔
      ((m.host.store.tables.read library.table).get? name).isSome = true) ∧
    m'.host.store.Facade x exports library.table false fun _ => .undefined := by
  obtain ⟨hsorted, hnames⟩ := Bridge.names_make url library.names (some [.fill library.table])
    m.host.store.cells
  have hlibrary : library.names = (m.host.store.tables.read library.table).names := by
    obtain ⟨table, -, rfl⟩ := Option.map_eq_some_iff.mp h.loaded
    rfl
  refine ⟨_, hsorted, fun name => ?_, ?_⟩
  · rw [hnames, hlibrary, Table.mem_names]
  · rw [h.store, h.unit]
    refine ⟨⟨_, Store.unit?_add_new _ _, rfl, rfl, .inl rfl⟩, fun e he => ?_⟩
    exact (Scope.mem_fresh he).2.2

/--
A library shows its table as of the first evaluation, whatever was done before it was made and
whatever is done afterwards: steps of the loader, writes to tables and writes to exports.

* It exports the names that its table had when its job was made, sorted.
* Before the first evaluation each export holds nothing, or what was written to it last. An evaluation
  that gets to the library gives each export the value that the table has then.
* One step is the first evaluation. From then on each export holds the value that the table had at that
  step, or what was written to it last since then, and nothing is done by running the library again.
* At any time the host, the holders of a namespace and all importers see the same values.
* In any evaluation, the body of a script that imports from the library runs when the library is
  evaluated and shows its values, also if the script waits for itself.
-/
theorem library_timeline (files : Files) (registry : Registry) (tables : Tables)
    (functions : HostFunctions) (settings : Settings) (past : List Doing) (action : Action)
    (j : JobId) (x : UnitId) :
    let m := (ofSettings (.ofLibraries files registry tables functions) settings).undergoAll past
    let made := m.undergo (.step action)
    m.loader.job? j = none → made.loader.prepared? j = some (.ok x) →
    ∃ job id table exports, made.loader.job? j = some job ∧ job.format = .builtin ∧
      Host.builtinId? m.loader.resolver.settings.builtinPrefix job.url.path.text = some id ∧
      m.host.registry.get? id = some table ∧
      exports.names.Pairwise (· < ·) ∧
      (∀ name, name ∈ exports.names ↔
        ((m.host.store.tables.read table).get? name).isSome = true) ∧
      ∀ doings,
        let s := (made.undergoAll doings).host.store
        ∃ value : String → Value, s.Shows x exports value ∧
          ((s.status x = .linked ∨ s.status x = .instantiated) ∧
            value = written x doings (fun _ => .undefined) ∧
            s.ImportersSee x exports (s.tableValue table) ∧
            (s.status x = .instantiated → (s.evaluate x).2 = .ok none ∧
              (s.evaluate x).1.status x = .evaluated none ∧
              (s.evaluate x).1.Shows x exports (s.tableValue table)) ∨
          s.status x = .evaluated none ∧
            (∃ before first after, doings = before ++ .step first :: after ∧
              let p := made.undergoAll before
              p.host.store.status x ≠ .evaluated none ∧
              (p.undergo (.step first)).host.store.status x = .evaluated none ∧
              value = written x after (p.host.store.tableValue table)) ∧
            s.ImportersSee x exports value ∧
            s.evaluate x = (s, .ok none)) := by
  intro m made hnew hprepared
  have hm : m.Orderly := (orderly_fresh files registry tables functions settings).undergoAll past
  obtain ⟨url, id, library, hbridges⟩ : ∃ url id library, m.Bridges made j x url id library := by
    have hmade : made = (m.step? action).getD m := rfl
    rw [hmade] at hprepared ⊢
    cases hstep : m.step? action with
    | some m' =>
      rw [hstep] at hprepared
      exact (Rule.of_step? hstep).bridged hnew hprepared
    | none =>
      rw [hstep] at hprepared
      obtain ⟨job, hjob, -⟩ := Loader.prepared?_eq_some.mp hprepared
      cases hnew.symm.trans hjob
  obtain ⟨job, hjob, rfl, hformat⟩ := hbridges.job
  obtain ⟨table, htable, rfl⟩ := Option.map_eq_some_iff.mp hbridges.loaded
  obtain ⟨exports, hsorted, hnames, hfacade⟩ := hbridges.facade
  refine ⟨job, id, table, exports, hjob, hformat, hbridges.named, htable, hsorted, hnames,
    fun doings => ?_⟩
  have hmade : made.Orderly := hm.undergo (.step action)
  have hn := hmade.undergoAll doings
  rcases hmade.timeline hfacade doings with h | ⟨before, first, after, rfl, hbefore, hfirst, h⟩
  · refine ⟨_, h.shows hsorted hn.consistent.made hn.consistent.bound, .inl ⟨h.unfilled, rfl,
      h.importersSee hsorted hn.consistent hn.owned, fun hopen => ?_⟩⟩
    obtain ⟨hfilled, hok⟩ := h.run hn.owned hopen
    have hafter := hn.consistent.evaluate x
    exact ⟨hok, hfilled.status_iff.mpr rfl, hfilled.shows hsorted hafter.made hafter.bound⟩
  · refine ⟨_, h.shows hsorted hn.consistent.made hn.consistent.bound, .inr ⟨h.status_iff.mpr rfl,
      ⟨before, first, after, rfl, hbefore, hfirst, rfl⟩,
      h.importersSee hsorted hn.consistent hn.owned, ?_⟩⟩
    exact Store.evaluate_of_outcome (r := .ok none) hn.consistent.noManifests
      (h.status_iff.mpr rfl)

/-! ### A library that two scripts import which import each other -/

/-- The library has one name, which both scripts ask for. -/
def libraryInKnot : Machine :=
  ofSettings (.ofLibraries
    [("/a", .contents (Text.utf8 "import './b'; import { version } from '@rt/math';".toList)),
      ("/b", .contents (Text.utf8 "import './a'; import { version } from '@rt/math';".toList))]
    [("math", ⟨0⟩)] ⟨#[[("version", .string "1.0")]]⟩ .stock) .atRoot

/-- The first script is being linked, and gets to the library next. -/
def knotPast : List Doing :=
  ((libraryInKnot.answering 200 [.find "./a" none .linked]).take 19).map .step

theorem prepared_of_any {l : Loader}
    (h : ((l.prepared? j).any fun prepared => prepared.toOption = some x) = true) :
    l.prepared? j = some (.ok x) := by
  cases hprepared : l.prepared? j with
  | none => rw [hprepared] at h; cases h
  | some prepared =>
    rw [hprepared] at h
    cases prepared with
    | ok unit => exact congrArg (fun x => some (Except.ok x)) (Option.some.inj (of_decide_eq_true h))
    | error e => cases h

theorem library_timeline_knot :
    (libraryInKnot.undergoAll knotPast).loader.job? ⟨2⟩ = none ∧
      ((libraryInKnot.undergoAll knotPast).undergo (.step (.wire ⟨0⟩ 1))).loader.prepared? ⟨2⟩ =
        some (.ok ⟨2⟩) ∧
      ∃ exports : Scope, exports.names.Pairwise (· < ·) ∧ ∀ doings, ∃ value,
        (((libraryInKnot.undergoAll knotPast).undergo (.step (.wire ⟨0⟩ 1))).undergoAll
          doings).host.store.Shows ⟨2⟩ exports value := by
  have hnew : (libraryInKnot.undergoAll knotPast).loader.job? ⟨2⟩ = none :=
    Option.isNone_iff_eq_none.mp (by decide +kernel)
  have hprepared : ((libraryInKnot.undergoAll knotPast).undergo
      (.step (.wire ⟨0⟩ 1))).loader.prepared? ⟨2⟩ = some (.ok ⟨2⟩) :=
    prepared_of_any (by decide +kernel)
  obtain ⟨_, _, _, exports, _, _, _, _, hsorted, _, htimeline⟩ :=
    library_timeline _ _ _ _ _ knotPast (.wire ⟨0⟩ 1) ⟨2⟩ ⟨2⟩ hnew hprepared
  refine ⟨hnew, hprepared, exports, hsorted, fun doings => ?_⟩
  obtain ⟨value, hshows, -⟩ := htimeline doings
  exact ⟨value, hshows⟩

end Machine

end ModuleLoader
