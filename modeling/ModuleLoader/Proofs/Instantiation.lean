import Mathlib.Data.Finset.Card
import Mathlib.Data.Finset.Range
import Mathlib.Logic.Relation
import ModuleLoader.Graph.Evaluate
import ModuleLoader.Graph.Instantiate
/-!
# Instantiating units

The instantiation of a unit is a depth-first search over the units that are linked and not yet
entered. A unit that was entered before, by whatever call, is taken to be done with all that it
depends on, and what lies behind it is not looked at.

Results:
1. `Entering`: what an instantiation does to a store and to the status of every unit in it.
2. `Entering.trans`, `entering_forEach`, `entering_instantiateWithin`: the search by its recursion.
3. `entering_instantiate`: an instantiation never runs out of depth.
4. `entered_instantiate_iff`: after an instantiation that went well, a unit is entered exactly if it
   was before or is reached over units that were not.
-/
namespace ModuleLoader

open Relation (ReflTransGen)

/-! ## Statuses -/

namespace Status

def isLinked : Status → Bool
  | linked => true
  | _ => false

/-- Whether somebody has begun to instantiate the unit. -/
def isEntered : Status → Bool
  | unlinked | linked => false
  | _ => true

/-- Whether the imports of the unit are bound, and nothing went wrong since. -/
def isBound : Status → Bool
  | instantiated | evaluating | evaluated _ => true
  | _ => false

theorem isLinked_iff {status : Status} : status.isLinked = true ↔ status = .linked := by
  cases status <;> simp [isLinked]

theorem ne_linked_of_isEntered {status : Status} (h : status.isEntered = true) :
    status ≠ .linked := by
  rintro rfl
  cases h

theorem isEntered_of_isBound {status : Status} (h : status.isBound = true) :
    status.isEntered = true := by
  cases status with
  | unlinked => cases h
  | linked => cases h
  | _ => rfl

end Status

/-- Whether the error says that a module was to run that is not instantiated. -/
def LoadError.isUninstantiated : LoadError → Bool
  | .evaluate _ .uninstantiated => true
  | _ => false

/-- Where a list is worked through up to the first failure, it is one of its items that fails. -/
theorem exists_error_of_mapM {α β ε : Type} {f : α → Except ε β} {items : List α} {e : ε}
    (h : items.mapM f = .error e) : ∃ a ∈ items, f a = .error e := by
  induction items with
  | nil => cases h
  | cons a rest ih =>
    rw [List.mapM_cons] at h
    cases ha : f a with
    | error e' =>
      rw [ha] at h
      cases h
      exact ⟨a, List.mem_cons_self, ha⟩
    | ok b =>
      rw [ha] at h
      cases hrest : rest.mapM f with
      | error e' =>
        rw [hrest] at h
        cases h
        obtain ⟨c, hc, hfc⟩ := ih hrest
        exact ⟨c, List.mem_cons_of_mem _ hc, hfc⟩
      | ok bs => rw [hrest] at h; cases h

/-! ## What instantiation and evaluation leave alone -/

/-- A unit without its status and its imports, and without what it runs if it is a bridge. -/
inductive Shape
  | script (url : Url) (program : Script.Program) (dependencies : List (String × UnitId))
  | bridge (url : Url)
  | manifest (m : Manifest)

def ModuleUnit.shape : ModuleUnit → Shape
  | script u => .script u.url u.program u.dependencies
  | bridge b => .bridge b.url
  | manifest m => .manifest m

/-- The units of a loader of scripts: no manifests, and bridges that are linked from the start. -/
def ModuleUnit.Plain : ModuleUnit → Prop
  | script _ => True
  | bridge b => b.status ≠ .unlinked
  | manifest _ => False

namespace Store

def shape? (s : Store) (x : UnitId) : Option Shape := (s.unit? x).map ModuleUnit.shape

/-- Two stores with the same units up to what instantiation and evaluation change. -/
def SameShape (s s' : Store) : Prop := ∀ x, s'.shape? x = s.shape? x

/-- A unit is a script that imports from another one. -/
def DependsOn (s : Store) (x y : UnitId) : Prop :=
  ∃ url program dependencies, s.shape? x = some (.script url program dependencies) ∧
    ∃ specifier ∈ program.specifiers, dependencies.lookup specifier = some y

def Plain (s : Store) : Prop := ∀ x unit, s.unit? x = some unit → unit.Plain

/-- No unit keeps the error of one that was to run before it was instantiated. -/
def Clean (s : Store) : Prop := ∀ x e, s.status x = .errored e → e.isUninstantiated = false

/-- What holds of a store whenever no call is at work in it. -/
structure Safe (s : Store) : Prop where
  plain : s.Plain
  clean : s.Clean
  /-- A unit with its imports bound depends on units that are entered themselves. -/
  closed : ∀ x y, (s.status x).isBound = true → s.DependsOn x y → (s.status y).isEntered = true
  settled : ∀ x, s.status x ≠ .instantiating

variable {s s' t : Store} {x y id : UnitId}

theorem SameShape.refl (s : Store) : s.SameShape s := fun _ => rfl

theorem SameShape.trans (h : s.SameShape s') (h' : s'.SameShape t) : s.SameShape t :=
  fun x => (h' x).trans (h x)

theorem SameShape.symm (h : s.SameShape s') : s'.SameShape s := fun x => (h x).symm

theorem isSome_shape? (s : Store) (x : UnitId) : (s.shape? x).isSome = (s.unit? x).isSome :=
  Option.isSome_map

theorem SameShape.isSome (h : s.SameShape s') (x : UnitId) :
    (s'.unit? x).isSome = (s.unit? x).isSome := by
  rw [← isSome_shape?, ← isSome_shape?, h x]

theorem dependsOn_of_shape (h : s'.shape? x = s.shape? x) : s'.DependsOn x y ↔ s.DependsOn x y := by
  unfold DependsOn
  rw [h]

theorem SameShape.dependsOn (h : s.SameShape s') : s'.DependsOn x y ↔ s.DependsOn x y :=
  dependsOn_of_shape (h x)

theorem SameShape.dependsOn_eq (h : s.SameShape s') : s'.DependsOn = s.DependsOn :=
  funext fun _ => funext fun _ => propext h.dependsOn

theorem shape?_eq_bridge {url : Url} :
    s.shape? x = some (.bridge url) ↔ ∃ b, s.unit? x = some (.bridge b) ∧ b.url = url := by
  unfold shape?
  rw [Option.map_eq_some_iff]
  constructor
  · rintro ⟨unit, hunit, hshape⟩
    cases unit with
    | bridge b => cases hshape; exact ⟨b, hunit, rfl⟩
    | script u => cases hshape
    | manifest m => cases hshape
  · rintro ⟨b, hb, rfl⟩
    exact ⟨_, hb, rfl⟩

theorem shape?_eq_manifest {m : Manifest} :
    s.shape? x = some (.manifest m) ↔ s.unit? x = some (.manifest m) := by
  unfold shape?
  rw [Option.map_eq_some_iff]
  constructor
  · rintro ⟨unit, hunit, hshape⟩
    cases unit with
    | manifest other => cases hshape; exact hunit
    | script u => cases hshape
    | bridge b => cases hshape
  · exact fun hm => ⟨_, hm, rfl⟩

theorem dependsOn_iff {u : ScriptUnit} (hu : s.unit? x = some (.script u)) :
    s.DependsOn x y ↔
      ∃ specifier ∈ u.program.specifiers, u.dependencies.lookup specifier = some y := by
  have hshape : s.shape? x = some (.script u.url u.program u.dependencies) := by
    unfold shape?
    rw [hu]
    rfl
  constructor
  · rintro ⟨url, program, dependencies, hother, hdepends⟩
    cases hshape.symm.trans hother
    exact hdepends
  · exact fun hdepends => ⟨_, _, _, hshape, hdepends⟩

theorem not_dependsOn_of_bridge {b : Bridge} (hb : s.unit? x = some (.bridge b)) :
    ¬ s.DependsOn x y := by
  rintro ⟨url, program, dependencies, hother, -⟩
  have hshape := shape?_eq_bridge.mpr ⟨b, hb, rfl⟩
  cases hshape.symm.trans hother

theorem status_of_unit? {unit : ModuleUnit} (h : s.unit? x = some unit) :
    s.status x = unit.status := by
  unfold Store.status
  rw [h]
  rfl

theorem exists_unit_of_status (h : s.status x ≠ .unlinked) : ∃ unit, s.unit? x = some unit := by
  cases hx : s.unit? x with
  | none => unfold Store.status at h; rw [hx] at h; exact absurd rfl h
  | some unit => exact ⟨unit, rfl⟩

theorem unit?_of_linked (h : s.status x = .linked) :
    ∃ unit, s.unit? x = some unit ∧ x.index < s.units.size := by
  unfold Store.status at h
  cases hx : s.unit? x with
  | none => rw [hx] at h; cases h
  | some unit =>
    refine ⟨unit, rfl, ?_⟩
    unfold unit? at hx
    cases hunits : s.units[x.index]? with
    | none => rw [hunits] at hx; cases hx
    | some _ => exact (Array.getElem?_eq_some_iff.mp hunits).1

theorem SameShape.plain (h : s.SameShape s') (hp : s.Plain)
    (hstatus : ∀ x, s'.status x = .unlinked → s.status x = .unlinked) : s'.Plain := by
  intro x unit hunit
  have hshape : s.shape? x = some unit.shape := by
    rw [← h x]
    unfold shape?
    rw [hunit]
    rfl
  cases unit with
  | script u => trivial
  | bridge b =>
    obtain ⟨old, hold, -⟩ := shape?_eq_bridge.mp hshape
    have hlinked : old.status ≠ .unlinked := hp x _ hold
    intro hunlinked
    refine hlinked ?_
    have hs := hstatus x ((status_of_unit? hunit).trans hunlinked)
    exact (status_of_unit? hold).symm.trans hs
  | manifest m => exact hp x _ (shape?_eq_manifest.mp hshape)

/-- What a script imports from is recorded, and is there. -/
theorem dependency_eq_ok {u : ScriptUnit} {specifier : String}
    (h : s.dependency u specifier = .ok y) :
    u.dependencies.lookup specifier = some y ∧ (s.unit? y).isSome = true := by
  unfold Store.dependency at h
  split at h
  next => cases h
  next other hlookup =>
    split at h
    next unit hunit => cases h; exact ⟨hlookup, by rw [hunit]; rfl⟩
    next => cases h

theorem dependency_error {u : ScriptUnit} {specifier : String} {e : LoadError}
    (h : s.dependency u specifier = .error e) : e.isUninstantiated = false := by
  unfold Store.dependency at h
  split at h
  next => cases h; rfl
  next =>
    split at h
    next => cases h
    next => cases h; rfl

/-! ### Changing one unit -/

theorem unit?_change (s : Store) (id : UnitId) (f : ModuleUnit → ModuleUnit) (x : UnitId) :
    (s.change id f).unit? x = if id = x then (s.unit? x).map f else s.unit? x := by
  unfold unit? change
  rw [Array.getElem?_modify]
  obtain ⟨i⟩ := id
  obtain ⟨k⟩ := x
  simp only [UnitId.mk.injEq]
  split
  next => cases s.units[k]? <;> rfl
  next => rfl

theorem sameShape_change (s : Store) (id : UnitId) {f : ModuleUnit → ModuleUnit}
    (h : ∀ unit, (f unit).shape = unit.shape) : s.SameShape (s.change id f) := by
  intro x
  unfold shape?
  rw [unit?_change]
  split
  next =>
    rw [Option.map_map]
    congr 1
    funext unit
    exact h unit
  next => rfl

theorem status_change (s : Store) (id : UnitId) {f : ModuleUnit → ModuleUnit}
    (h : ∀ unit, (f unit).status = unit.status) (x : UnitId) :
    (s.change id f).status x = s.status x := by
  unfold status
  rw [unit?_change]
  split
  next =>
    rw [Option.map_map]
    congr 2
    funext unit
    exact h unit
  next => rfl

theorem sameShape_setStatus (s : Store) (id : UnitId) (status : Status) :
    s.SameShape (s.setStatus id status) :=
  sameShape_change s id fun unit => by cases unit <;> rfl

theorem status_setStatus_self {unit : ModuleUnit} (status : Status) (hplain : s.Plain)
    (h : s.unit? id = some unit) : (s.setStatus id status).status id = status := by
  unfold Store.status setStatus
  rw [unit?_change, if_pos rfl, h]
  cases unit with
  | script u => rfl
  | bridge b => rfl
  | manifest m => exact (hplain id _ h).elim

theorem status_setStatus_of_ne (s : Store) (status : Status) (h : id ≠ x) :
    (s.setStatus id status).status x = s.status x := by
  unfold Store.status setStatus
  rw [unit?_change, if_neg h]

theorem Plain.setStatus {status : Status} (hplain : s.Plain) (id : UnitId)
    (h : status ≠ .unlinked) : (s.setStatus id status).Plain := by
  refine (sameShape_setStatus s id status).plain hplain fun x hx => ?_
  by_cases hid : id = x
  · subst hid
    cases hunit : s.unit? id with
    | none => unfold Store.status; rw [hunit]; rfl
    | some unit =>
      rw [status_setStatus_self status hplain hunit] at hx
      exact absurd hx h
  · rw [status_setStatus_of_ne s status hid] at hx
    exact hx

theorem sameShape_bindImports (s : Store) (id : UnitId) (u : ScriptUnit) :
    s.SameShape (s.bindImports id u).1 := by
  unfold bindImports
  split
  next => exact sameShape_change s id fun unit => by cases unit <;> rfl
  next => exact .refl s

theorem status_bindImports (s : Store) (id : UnitId) (u : ScriptUnit) (x : UnitId) :
    (s.bindImports id u).1.status x = s.status x := by
  unfold bindImports
  split
  next => exact status_change s id (fun unit => by cases unit <;> rfl) x
  next => rfl

/-! ## What an instantiation does -/

/-- The way from a unit to another one over units that are linked and that nobody has entered. -/
def Leads (s : Store) (x y : UnitId) : Prop :=
  s.status x = .linked ∧
    ReflTransGen (fun a b => s.DependsOn a b ∧ s.status b = .linked) x y

theorem Leads.of_later (h : s.SameShape s')
    (hlinked : ∀ x, s'.status x = .linked → s.status x = .linked) (hl : s'.Leads x y) :
    s.Leads x y := by
  refine ⟨hlinked x hl.1, ReflTransGen.mono (fun a b ⟨hd, hb⟩ => ?_) x y hl.2⟩
  exact ⟨h.dependsOn.mp hd, hlinked b hb⟩

/-- What entering some units one after the other does to a store, when the answer is `r`. -/
structure Entering (s : Store) (starts : UnitId → Prop) (s' : Store) (r : Except LoadError Unit) :
    Prop where
  shape : s.SameShape s'
  kept : ∀ x, s.status x ≠ .linked → s'.status x = s.status x
  settled : ∀ x, s.status x = .linked →
    s'.status x = .linked ∨ s'.status x = .instantiated ∨ ∃ e, s'.status x = .errored e
  /-- Whatever gets its imports bound depends on units that are entered themselves. -/
  bound : ∀ x y, s.status x = .linked → s'.status x = .instantiated → s.DependsOn x y →
    (s'.status y).isEntered = true
  /-- Nothing is entered but what the starts lead to. -/
  led : ∀ x, s.status x = .linked → (s'.status x).isEntered = true →
    ∃ a, starts a ∧ s.Leads a x
  /-- If all goes well, every start is entered and no unit fails. -/
  fine : r = .ok () → (∀ a, starts a → (s'.status a).isEntered = true) ∧
    ∀ x e, s'.status x = .errored e → s.status x = .errored e
  clean : s.Clean → s'.Clean ∧ ∀ e, r = .error e → e.isUninstantiated = false

namespace Entering

variable {starts others : UnitId → Prop} {r : Except LoadError Unit} {e : LoadError}

theorem entered (h : Entering s starts s' r) (hx : (s.status x).isEntered = true) :
    (s'.status x).isEntered = true := by
  rw [h.kept x (Status.ne_linked_of_isEntered hx)]
  exact hx

theorem linked (h : Entering s starts s' r) (hx : s'.status x = .linked) :
    s.status x = .linked := by
  by_contra hne
  rw [h.kept x hne] at hx
  exact hne hx

theorem unlinked (h : Entering s starts s' r) (hx : s'.status x = .unlinked) :
    s.status x = .unlinked := by
  by_cases hlinked : s.status x = .linked
  · rcases h.settled x hlinked with hs | hs | ⟨e, hs⟩
    · rw [hx] at hs; cases hs
    · rw [hx] at hs; cases hs
    · rw [hx] at hs; cases hs
  · rw [h.kept x hlinked] at hx
    exact hx

theorem plain (h : Entering s starts s' r) (hp : s.Plain) : s'.Plain :=
  h.shape.plain hp fun _ => h.unlinked

theorem safe (h : Entering s starts s' r) (hs : s.Safe) : s'.Safe where
  plain := h.plain hs.plain
  clean := (h.clean hs.clean).1
  closed x y hx hd := by
    by_cases hlinked : s.status x = .linked
    · rcases h.settled x hlinked with hx' | hx' | ⟨e, hx'⟩
      · rw [hx'] at hx; cases hx
      · exact h.bound x y hlinked hx' (h.shape.dependsOn.mp hd)
      · rw [hx'] at hx; cases hx
    · rw [h.kept x hlinked] at hx
      exact h.entered (hs.closed x y hx (h.shape.dependsOn.mp hd))
  settled x hx := by
    by_cases hlinked : s.status x = .linked
    · rcases h.settled x hlinked with hx' | hx' | ⟨e, hx'⟩
      · rw [hx'] at hx; cases hx
      · rw [hx'] at hx; cases hx
      · rw [hx'] at hx; cases hx
    · exact hs.settled x ((h.kept x hlinked).symm.trans hx)

/-- Nothing happens: the starts are entered already, or the answer is an error. -/
theorem stay (hfine : r = .ok () → ∀ a, starts a → (s.status a).isEntered = true)
    (hclean : s.Clean → ∀ e, r = .error e → e.isUninstantiated = false) :
    Entering s starts s r where
  shape := .refl s
  kept _ _ := rfl
  settled _ hx := .inl hx
  bound x y hx hx' := by rw [hx] at hx'; cases hx'
  led x hx hx' := absurd hx (Status.ne_linked_of_isEntered hx')
  fine hr := ⟨hfine hr, fun _ _ h => h⟩
  clean hc := ⟨hc, hclean hc⟩

/-- The first failure ends the search; what else was to be entered is left out. -/
theorem failed (h : Entering s starts s' (.error e)) :
    Entering s (fun a => starts a ∨ others a) s' (.error e) :=
  { h with
    led := fun x hx hx' =>
      let ⟨a, ha, hl⟩ := h.led x hx hx'
      ⟨a, .inl ha, hl⟩
    fine := fun hr => by cases hr }

/-- One search after another that went well. -/
theorem trans (h : Entering s starts s' (.ok ())) (h' : Entering s' others t r) :
    Entering s (fun a => starts a ∨ others a) t r where
  shape := h.shape.trans h'.shape
  kept x hx := by
    have hs := h.kept x hx
    rw [h'.kept x (hs ▸ hx), hs]
  settled x hx := by
    rcases h.settled x hx with hs | hs | ⟨e, hs⟩
    · exact h'.settled x hs
    · exact .inr (.inl ((h'.kept x (by rw [hs]; simp)).trans hs))
    · exact .inr (.inr ⟨e, (h'.kept x (by rw [hs]; simp)).trans hs⟩)
  bound x y hx hx' hd := by
    by_cases hs : s'.status x = .linked
    · exact h'.bound x y hs hx' (h.shape.dependsOn.mpr hd)
    · exact h'.entered (h.bound x y hx ((h'.kept x hs).symm.trans hx') hd)
  led x hx hx' := by
    by_cases hs : s'.status x = .linked
    · obtain ⟨a, ha, hl⟩ := h'.led x hs hx'
      exact ⟨a, .inr ha, hl.of_later h.shape fun _ => h.linked⟩
    · rw [h'.kept x hs] at hx'
      obtain ⟨a, ha, hl⟩ := h.led x hx hx'
      exact ⟨a, .inl ha, hl⟩
  fine hr := by
    obtain ⟨hstarts, herrors⟩ := h.fine rfl
    obtain ⟨hothers, herrors'⟩ := h'.fine hr
    refine ⟨?_, fun x e hx => herrors x e (herrors' x e hx)⟩
    rintro a (ha | ha)
    · exact h'.entered (hstarts a ha)
    · exact hothers a ha
  clean hc := h'.clean (h.clean hc).1

end Entering

/-- Entering the units behind some items, where each of them is entered as it should be. -/
theorem entering_forEach {α : Type} {step : Store → α → Store × Except LoadError Unit}
    {starts : α → UnitId → Prop} {Ready : Store → Prop}
    (keeps : ∀ {s s' : Store} {starts r}, Entering s starts s' r → Ready s → Ready s')
    (items : List α)
    (h : ∀ s a, a ∈ items → Ready s → Entering s (starts a) (step s a).1 (step s a).2)
    {s : Store} (hs : Ready s) :
    Entering s (fun y => ∃ a ∈ items, starts a y) (s.forEach step items).1
      (s.forEach step items).2 := by
  induction items generalizing s with
  | nil =>
    exact .stay (fun _ _ ⟨_, hin, _⟩ => absurd hin List.not_mem_nil) fun _ _ h => by cases h
  | cons a rest ih =>
    have hfirst := h s a List.mem_cons_self hs
    have hstarts : (fun y => ∃ b ∈ a :: rest, starts b y) =
        fun y => starts a y ∨ ∃ b ∈ rest, starts b y := by
      funext y
      simp only [List.mem_cons, exists_eq_or_imp]
    rw [hstarts]
    unfold forEach
    split
    next s' e hstep => rw [hstep] at hfirst; exact hfirst.failed
    next s' hstep =>
      rw [hstep] at hfirst
      exact hfirst.trans (ih (fun s b hb => h s b (List.mem_cons_of_mem _ hb)) (keeps hfirst hs))

/-! ### Binding imports -/

theorem importCells_error {u : ScriptUnit} {decl : Script.ImportDecl} {e : LoadError}
    (h : s.importCells u decl = .error e) : e.isUninstantiated = false := by
  unfold importCells at h
  cases hdep : s.dependency u decl.specifier with
  | error e' =>
    rw [hdep] at h
    cases h
    exact dependency_error hdep
  | ok target =>
    rw [hdep] at h
    simp only [bind, Except.bind] at h
    split at h
    next => cases h; rfl
    next unit hunit =>
      obtain ⟨binding, -, hb⟩ := exists_error_of_mapM h
      split at hb
      next => cases hb
      next => cases hb; rfl

theorem bindImports_error {u : ScriptUnit} {e : LoadError} (h : (s.bindImports id u).2 = .error e) :
    e.isUninstantiated = false := by
  unfold bindImports at h
  split at h
  next => cases h
  next e' he =>
    cases h
    unfold allImportCells at he
    cases hmap : u.program.imports.mapM (s.importCells u) with
    | ok scopes => rw [hmap] at he; cases he
    | error e' =>
      rw [hmap] at he
      cases he
      obtain ⟨decl, -, hd⟩ := exists_error_of_mapM hmap
      exact importCells_error hd

/-- Binding the imports of a unit shows in its scope only. -/
theorem bindImports_kept {u : ScriptUnit} {r : Except LoadError Unit}
    (h : s.bindImports id u = (t, r)) :
    s.SameShape t ∧ (∀ x, t.status x = s.status x) ∧
      ∀ e, r = .error e → e.isUninstantiated = false := by
  have hshape := sameShape_bindImports s id u
  have hstatus := status_bindImports s id u
  rw [h] at hshape hstatus
  refine ⟨hshape, hstatus, fun e he => ?_⟩
  have hbind : (s.bindImports id u).2 = .error e := by
    rw [h]
    exact he
  exact bindImports_error hbind

/-! ### The search -/

/-- The status that keeps the outcome of an instantiation. -/
def outcomeStatus : Except LoadError Unit → Status
  | .ok () => .instantiated
  | .error e => .errored e

theorem settleInstantiation_eq (id : UnitId) (s : Store) (r : Except LoadError Unit) :
    settleInstantiation id (s, r) = (s.setStatus id (outcomeStatus r), r) := by
  cases r <;> rfl

/-- A unit is settled after those that it depends on were entered: `r` is how that went, and `r'` is
what the unit keeps. -/
structure Settling (s : Store) (id : UnitId) (s' : Store) (r : Except LoadError Unit) (t : Store)
    (r' : Except LoadError Unit) : Prop where
  plain : s.Plain
  linked : s.status id = .linked
  entering : Entering (s.setStatus id .instantiating) (s.DependsOn id) s' r
  shape : s'.SameShape t
  self : t.status id = outcomeStatus r'
  others : ∀ x, id ≠ x → t.status x = s'.status x
  fine : r' = .ok () → r = .ok ()
  clean : (∀ e, r = .error e → e.isUninstantiated = false) →
    ∀ e, r' = .error e → e.isUninstantiated = false

namespace Settling

variable {r r' : Except LoadError Unit}

theorem isEntered (h : Settling s id s' r t r') (hy : (s'.status y).isEntered = true) :
    (t.status y).isEntered = true := by
  by_cases hid : id = y
  · subst hid
    rw [h.self]
    cases r' <;> rfl
  · rw [h.others y hid]
    exact hy

theorem kept (h : Settling s id s' r t r') (hx : s.status x ≠ .linked) :
    t.status x = s.status x := by
  have hid : id ≠ x := by
    rintro rfl
    exact hx h.linked
  have hsame := status_setStatus_of_ne s .instantiating hid
  rw [h.others x hid, h.entering.kept x (by rw [hsame]; exact hx), hsame]

theorem settled (h : Settling s id s' r t r') (hx : s.status x = .linked) :
    t.status x = .linked ∨ t.status x = .instantiated ∨ ∃ e, t.status x = .errored e := by
  by_cases hid : id = x
  · subst hid
    rw [h.self]
    cases r' with
    | ok _ => exact .inr (.inl rfl)
    | error e => exact .inr (.inr ⟨e, rfl⟩)
  · rw [h.others x hid]
    exact h.entering.settled x ((status_setStatus_of_ne s _ hid).trans hx)

theorem bound (h : Settling s id s' r t r') (hx : s.status x = .linked)
    (hx' : t.status x = .instantiated) (hd : s.DependsOn x y) : (s'.status y).isEntered = true := by
  by_cases hid : id = x
  · subst hid
    rw [h.self] at hx'
    cases r' with
    | ok _ => exact (h.entering.fine (h.fine rfl)).1 y hd
    | error e => cases hx'
  · rw [h.others x hid] at hx'
    have hdepends := (sameShape_setStatus s id .instantiating).dependsOn.mpr hd
    exact h.entering.bound x y ((status_setStatus_of_ne s _ hid).trans hx) hx' hdepends

theorem led (h : Settling s id s' r t r') (hx : s.status x = .linked)
    (hx' : (t.status x).isEntered = true) : s.Leads id x := by
  by_cases hid : id = x
  · subst hid
    exact ⟨h.linked, .refl⟩
  · rw [h.others x hid] at hx'
    obtain ⟨a, ha, hl⟩ := h.entering.led x ((status_setStatus_of_ne s _ hid).trans hx) hx'
    -- the dependencies lead on over units that were linked before their dependent was entered
    have hback := hl.of_later (sameShape_setStatus s id _) fun x hx => by
      by_cases hid : id = x
      · subst hid; exact h.linked
      · exact (status_setStatus_of_ne s _ hid).symm.trans hx
    exact ⟨h.linked, .head ⟨ha, hback.1⟩ hback.2⟩

theorem errored (h : Settling s id s' r t r') (hok : r' = .ok ()) {e : LoadError}
    (hx : t.status x = .errored e) : s.status x = .errored e := by
  by_cases hid : id = x
  · subst hid
    rw [h.self, hok] at hx
    cases hx
  · rw [h.others x hid] at hx
    exact (status_setStatus_of_ne s _ hid).symm.trans ((h.entering.fine (h.fine hok)).2 x e hx)

theorem clean_before (h : Settling s id s' r t r') (hc : s.Clean) :
    (s.setStatus id .instantiating).Clean := by
  intro x e hx
  by_cases hid : id = x
  · subst hid
    obtain ⟨unit, hunit, -⟩ := unit?_of_linked h.linked
    rw [status_setStatus_self .instantiating h.plain hunit] at hx
    cases hx
  · exact hc x e ((status_setStatus_of_ne s _ hid).symm.trans hx)

theorem clean_after (h : Settling s id s' r t r') (hc : s.Clean) : t.Clean := by
  obtain ⟨hclean, he⟩ := h.entering.clean (h.clean_before hc)
  intro x e hx
  by_cases hid : id = x
  · subst hid
    rw [h.self] at hx
    cases r' with
    | ok _ => cases hx
    | error e' => cases hx; exact h.clean he e rfl
  · exact hclean x e ((h.others x hid).symm.trans hx)

theorem entered (h : Settling s id s' r t r') : Entering s (· = id) t r' where
  shape := (sameShape_setStatus s id _).trans (h.entering.shape.trans h.shape)
  kept _ hx := h.kept hx
  settled _ hx := h.settled hx
  bound _ _ hx hx' hd := h.isEntered (h.bound hx hx' hd)
  led _ hx hx' := ⟨id, rfl, h.led hx hx'⟩
  fine hok := by
    refine ⟨fun a ha => ?_, fun x e hx => h.errored hok hx⟩
    subst ha
    rw [h.self, hok]
    rfl
  clean hc := ⟨h.clean_after hc, h.clean (h.entering.clean (h.clean_before hc)).2⟩

end Settling

/-- The linked units among the first ones, by their numbers. -/
def linkedUnits (s : Store) (count : Nat) : Finset Nat :=
  (Finset.range count).filter fun i => (s.status ⟨i⟩).isLinked = true

/-- There is depth enough for all units that can wait for each other. -/
structure Ready (count depth : Nat) (s : Store) : Prop where
  plain : s.Plain
  index : ∀ x, s.status x = .linked → x.index < count
  depth : (s.linkedUnits count).card < depth

theorem mem_linkedUnits {count : Nat} :
    x.index ∈ s.linkedUnits count ↔ x.index < count ∧ s.status x = .linked := by
  unfold linkedUnits
  rw [Finset.mem_filter, Finset.mem_range, Status.isLinked_iff]

theorem linkedUnits_subset (count : Nat) (h : ∀ x, t.status x = .linked → s.status x = .linked) :
    t.linkedUnits count ⊆ s.linkedUnits count := by
  intro i hi
  obtain ⟨hlt, hlinked⟩ := (mem_linkedUnits (x := ⟨i⟩)).mp hi
  exact (mem_linkedUnits (x := ⟨i⟩)).mpr ⟨hlt, h _ hlinked⟩

theorem Ready.entering {count depth : Nat} {starts : UnitId → Prop} {r : Except LoadError Unit}
    (h : Entering s starts t r) (hs : s.Ready count depth) : t.Ready count depth where
  plain := h.plain hs.plain
  index x hx := hs.index x (h.linked hx)
  depth := Nat.lt_of_le_of_lt (Finset.card_le_card (linkedUnits_subset count fun _ => h.linked))
    hs.depth

/-- A unit that is entered takes one level. -/
theorem Ready.enter {count depth : Nat} (hs : s.Ready count (depth + 1))
    (hlinked : s.status id = .linked) : (s.setStatus id .instantiating).Ready count depth := by
  obtain ⟨unit, hunit, -⟩ := unit?_of_linked hlinked
  have hself := status_setStatus_self .instantiating hs.plain hunit
  have hsub : ∀ x, (s.setStatus id .instantiating).status x = .linked → s.status x = .linked := by
    intro x hx
    by_cases hid : id = x
    · subst hid
      exact hlinked
    · rw [status_setStatus_of_ne s _ hid] at hx
      exact hx
  refine ⟨hs.plain.setStatus id (fun h => by cases h), fun x hx => hs.index x (hsub x hx), ?_⟩
  -- the unit itself was among the linked ones, and is not any more
  have hin := mem_linkedUnits.mpr ⟨hs.index id hlinked, hlinked⟩
  have hout : id.index ∉ (s.setStatus id .instantiating).linkedUnits count := by
    intro h
    have hx := (mem_linkedUnits.mp h).2
    rw [hself] at hx
    cases hx
  have hlt := Finset.card_lt_card
    (Finset.ssubset_iff_subset_ne.mpr ⟨linkedUnits_subset count hsub, fun h => hout (h ▸ hin)⟩)
  have hdepth := hs.depth
  omega

/-- A unit that was entered before is left as it is. -/
theorem entering_entered (h : (s.status id).isEntered = true) : Entering s (· = id) s (.ok ()) :=
  .stay (fun _ a ha => ha ▸ h) fun _ e he => by cases he

theorem entering_bridge {b : Bridge} (hplain : s.Plain) (hb : s.unit? id = some (.bridge b))
    (hlinked : b.status = .linked) :
    Entering s (· = id) (s.setStatus id .instantiated) (.ok ()) := by
  have hstatus : s.status id = .linked := (status_of_unit? hb).trans hlinked
  have hsettling : Settling s id (s.setStatus id .instantiating) (.ok ())
      (s.setStatus id .instantiated) (.ok ()) := by
    refine ⟨hplain, hstatus, ?_, ?_, ?_, fun x hx => ?_, fun h => h, fun h => h⟩
    · exact .stay (fun _ a ha => absurd ha (not_dependsOn_of_bridge hb)) fun _ e he => by cases he
    · exact (sameShape_setStatus s id _).symm.trans (sameShape_setStatus s id _)
    · exact status_setStatus_self .instantiated hplain hb
    · rw [status_setStatus_of_ne s _ hx, status_setStatus_of_ne s _ hx]
  exact hsettling.entered

/-- What is done for one specifier of a script. -/
theorem entering_specifier {count depth : Nat} (u : ScriptUnit) (specifier : String)
    (ih : ∀ {s : Store} {id}, s.Ready count depth → (s.unit? id).isSome = true →
      Entering s (· = id) (instantiateWithin depth s id).1 (instantiateWithin depth s id).2)
    {r : Store × Except LoadError Unit} (hs : s.Ready count depth)
    (hr : (match s.dependency u specifier with
      | .ok dependency => instantiateWithin depth s dependency
      | .error e => (s, .error e)) = r) :
    Entering s (fun y => u.dependencies.lookup specifier = some y) r.1 r.2 := by
  subst hr
  split
  next y hy =>
    obtain ⟨hlookup, hsome⟩ := dependency_eq_ok hy
    have hstarts : (fun y' => u.dependencies.lookup specifier = some y') = (· = y) := by
      funext y'
      rw [hlookup, Option.some.injEq]
      exact propext eq_comm
    rw [hstarts]
    exact ih hs hsome
  next e he => exact .stay (fun h => by cases h) fun _ e' h => by cases h; exact dependency_error he

/-- A script is settled after its dependencies were entered, and its imports bound if all went
well. -/
theorem entering_script {u : ScriptUnit} {searched result : Store × Except LoadError Unit}
    (hresult : (match searched with
      | (s', .error e) => (s', .error e)
      | (s', .ok ()) => s'.bindImports id u) = result)
    (hplain : s.Plain) (hlinked : s.status id = .linked)
    (h : Entering (s.setStatus id .instantiating) (s.DependsOn id) searched.1 searched.2) :
    Entering s (· = id) (settleInstantiation id result).1 (settleInstantiation id result).2 := by
  obtain ⟨s', r⟩ := searched
  obtain ⟨t, r'⟩ := result
  have hbound : s'.SameShape t ∧ (∀ x, t.status x = s'.status x) ∧ (r' = .ok () → r = .ok ()) ∧
      ((∀ e, r = .error e → e.isUninstantiated = false) →
        ∀ e, r' = .error e → e.isUninstantiated = false) := by
    cases r with
    | ok _ =>
      obtain ⟨hshape, hstatus, herror⟩ := bindImports_kept hresult
      exact ⟨hshape, hstatus, fun _ => rfl, fun _ => herror⟩
    | error e =>
      cases hresult
      exact ⟨.refl s', fun _ => rfl, fun he => he, fun he => he⟩
  obtain ⟨hshape, hstatus, hok, herror⟩ := hbound
  obtain ⟨unit, hunit, -⟩ := unit?_of_linked hlinked
  have hplain' : t.Plain :=
    hshape.plain (h.plain (hplain.setStatus id (fun he => by cases he)))
      fun x hx => (hstatus x).symm.trans hx
  have hsome := ((sameShape_setStatus s id .instantiating).trans (h.shape.trans hshape)).isSome id
  rw [hunit, Option.isSome_some] at hsome
  obtain ⟨unit', hunit'⟩ := Option.isSome_iff_exists.mp hsome
  rw [settleInstantiation_eq]
  refine Settling.entered ⟨hplain, hlinked, h, hshape.trans (sameShape_setStatus t id _),
    status_setStatus_self _ hplain' hunit', fun x hx => ?_, hok, herror⟩
  rw [status_setStatus_of_ne t _ hx, hstatus]

theorem entering_instantiateWithin (count depth : Nat) (hs : s.Ready count depth)
    (hid : (s.unit? id).isSome = true) :
    Entering s (· = id) (instantiateWithin depth s id).1 (instantiateWithin depth s id).2 := by
  induction depth generalizing s id with
  | zero => exact absurd hs.depth (Nat.not_lt_zero _)
  | succ depth ih =>
    unfold instantiateWithin
    split
    next hunit => rw [hunit] at hid; cases hid
    next b hb =>
      split
      next hlinked => exact entering_bridge hs.plain hb hlinked
      next hother =>
        refine entering_entered ?_
        rw [show s.status id = b.status from status_of_unit? hb]
        have hunlinked : b.status ≠ .unlinked := hs.plain id _ hb
        cases hstatus : b.status with
        | unlinked => exact absurd hstatus hunlinked
        | linked => exact absurd hstatus hother
        | _ => rfl
    next m hm => exact (hs.plain id _ hm).elim
    next u hu =>
      have hstatus : s.status id = u.status := status_of_unit? hu
      split
      next => exact .stay (fun h => by cases h) fun _ e h => by cases h; rfl
      next e he =>
        rw [he] at hstatus
        exact .stay (fun h => by cases h) fun hclean e' h => by cases h; exact hclean id e hstatus
      next hlinked =>
        rw [hlinked] at hstatus
        have hsearch := entering_forEach (fun h hs => Ready.entering h hs) u.program.specifiers
          (fun s specifier _ hs => entering_specifier u specifier ih hs rfl) (hs.enter hstatus)
        have hstarts : (fun y => ∃ specifier ∈ u.program.specifiers,
            u.dependencies.lookup specifier = some y) = s.DependsOn id :=
          funext fun y => propext (dependsOn_iff hu).symm
        rw [hstarts] at hsearch
        exact entering_script rfl hs.plain hstatus hsearch
      next hunlinked herrored hlinked =>
        refine entering_entered ?_
        rw [hstatus]
        cases h : u.status with
        | unlinked => exact absurd h hunlinked
        | linked => exact absurd h hlinked
        | errored e => exact absurd h (herrored e)
        | _ => rfl

/-- An instantiation enters the unit that it is asked for, at whatever depth it takes. -/
theorem entering_instantiate (hplain : s.Plain) (hid : (s.unit? id).isSome = true) :
    Entering s (· = id) (s.instantiate id).1 (s.instantiate id).2 := by
  refine entering_instantiateWithin s.units.size _ ⟨hplain, fun x hx => ?_, ?_⟩ hid
  -- at most all units wait for each other, and there is one level more than units
  · obtain ⟨_, -, hlt⟩ := unit?_of_linked hx
    exact hlt
  · have hcard := Finset.card_filter_le (Finset.range s.units.size)
      fun i => (s.status ⟨i⟩).isLinked = true
    rw [Finset.card_range] at hcard
    exact Nat.lt_succ_of_le hcard

/-- After an instantiation that went well, a unit is entered exactly if it was before or if the
start leads to it over units that were not. -/
theorem entered_instantiate_iff (h : Entering s (· = id) s' (.ok ())) :
    (s'.status y).isEntered = true ↔ (s.status y).isEntered = true ∨ s.Leads id y := by
  constructor
  · intro hy
    by_cases hlinked : s.status y = .linked
    · obtain ⟨a, rfl, hl⟩ := h.led y hlinked hy
      exact .inr hl
    · rw [h.kept y hlinked] at hy
      exact .inl hy
  · rintro (hy | ⟨hlinked, hpath⟩)
    · exact h.entered hy
    · obtain ⟨hstarts, herrors⟩ := h.fine rfl
      -- no unit on the way has failed, so each one has its imports bound and the next is entered
      have hboth : s.status y = .linked ∧ (s'.status y).isEntered = true := by
        induction hpath with
        | refl => exact ⟨hlinked, hstarts id rfl⟩
        | @tail a b _ hedge ih =>
          obtain ⟨ha, hentered⟩ := ih
          refine ⟨hedge.2, h.bound a b ha ?_ hedge.1⟩
          rcases h.settled a ha with hs | hs | ⟨e, hs⟩
          · rw [hs] at hentered; cases hentered
          · exact hs
          · rw [herrors a e hs] at ha; cases ha
      exact hboth.2

end Store

end ModuleLoader
