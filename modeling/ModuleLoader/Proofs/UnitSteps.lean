import ModuleLoader.Proofs.Evaluation
import ModuleLoader.Proofs.Keeping
/-!
# Making and linking units

A unit is made, asked for its specifiers and wired to others before anybody instantiates it. None of
this touches a unit that was entered, so what holds of a store between two calls goes on to hold.

Results:
1. `Safe.change_fresh`: changing one unit that nobody has entered keeps a store safe.
2. `Adds`, `Host.compile_cases`, `Host.bridge_cases`: how units are made.
3. `Begins`, `begins_beginLink`: how a unit is asked for its specifiers.
4. `Wires`, `wires_wire`: how a specifier gets its unit.
-/
namespace ModuleLoader

/-! ## Lists -/

theorem nodup_eraseDups {α : Type} [BEq α] [LawfulBEq α] (items : List α) :
    items.eraseDups.Nodup := by
  induction hlength : items.length using Nat.strong_induction_on generalizing items with
  | _ length ih =>
    cases items with
    | nil => exact List.nodup_nil
    | cons a rest =>
      rw [List.eraseDups_cons, List.nodup_cons]
      refine ⟨fun hin => ?_, ih _ ?_ _ rfl⟩
      · rw [List.mem_eraseDups, List.mem_filter] at hin
        simp at hin
      · have hfilter := List.length_filter_le (fun b => !b == a) rest
        simp only [List.length_cons] at hlength
        omega

theorem lookup_filter_ne (entries : List (String × UnitId)) {specifier other : String}
    (hne : other ≠ specifier) :
    (entries.filter (·.1 ≠ specifier)).lookup other = entries.lookup other := by
  induction entries with
  | nil => rfl
  | cons entry rest ih =>
    obtain ⟨name, unit⟩ := entry
    rw [List.filter_cons]
    split
    next => rw [List.lookup_cons, List.lookup_cons, ih]
    next hname =>
      have hname : name = specifier := by simpa using hname
      subst hname
      rw [ih, List.lookup_cons, beq_false_of_ne hne]

theorem lookup_filter_self (entries : List (String × UnitId)) (specifier : String) :
    (entries.filter (·.1 ≠ specifier)).lookup specifier = none := by
  rw [List.lookup_eq_none_iff]
  rintro ⟨name, unit⟩ hin
  have hname := (List.mem_filter.mp hin).2
  simp only [ne_eq, decide_eq_true_eq] at hname
  exact bne_iff_ne.mpr fun h => hname h.symm

/-- What is recorded after one more specifier got its unit. -/
theorem lookup_wire (entries : List (String × UnitId)) (specifier other : String) (y : UnitId) :
    (entries.filter (·.1 ≠ specifier) ++ [(specifier, y)]).lookup other =
      if other = specifier then some y else entries.lookup other := by
  rw [List.lookup_append]
  split
  next hsame =>
    subst hsame
    rw [lookup_filter_self]
    simp
  next hne =>
    rw [lookup_filter_ne entries hne, List.lookup_cons, beq_false_of_ne hne]
    exact Option.or_none

/-- Where every item of a list has a value, the values are those of the items in turn. -/
theorem map_eq_of_mapM {α β : Type} {f : α → Option β} {items : List α} {values : List β}
    (h : items.mapM f = some values) : items.map f = values.map some := by
  induction items generalizing values with
  | nil => cases h; rfl
  | cons a rest ih =>
    rw [List.mapM_cons] at h
    obtain ⟨b, hb, h⟩ := Option.bind_eq_some_iff.mp h
    obtain ⟨bs, hbs, h⟩ := Option.bind_eq_some_iff.mp h
    cases h
    rw [List.map_cons, List.map_cons, hb, ih hbs]

/-- Where every item of a list has a value, items and values are related as they belong together. -/
theorem forall₂_of_map_eq {α β γ : Type} {f : α → Option β} {g : α → γ} {R : γ → β → Prop}
    {items : List α} {values : List β} (h : items.map f = values.map some)
    (hR : ∀ a ∈ items, ∀ b, f a = some b → R (g a) b) : List.Forall₂ R (items.map g) values := by
  induction items generalizing values with
  | nil =>
    cases List.map_eq_nil_iff.mp h.symm
    exact .nil
  | cons a rest ih =>
    cases values with
    | nil => cases h
    | cons b values =>
      obtain ⟨hfirst, hrest⟩ := List.cons.inj h
      exact .cons (hR a List.mem_cons_self b hfirst)
        (ih hrest fun c hc => hR c (List.mem_cons_of_mem _ hc))

theorem exists_of_forall₂ {α β : Type} {R : α → β → Prop} {items : List α} {values : List β}
    (h : List.Forall₂ R items values) {a : α} (ha : a ∈ items) : ∃ b ∈ values, R a b := by
  induction h with
  | nil => cases ha
  | @cons a' b items values hfirst _ ih =>
    rcases List.mem_cons.mp ha with rfl | hrest
    · exact ⟨b, List.mem_cons_self, hfirst⟩
    · obtain ⟨c, hc, hR⟩ := ih hrest
      exact ⟨c, List.mem_cons_of_mem _ hc, hR⟩

/-- An item of a list with one item changed. -/
theorem mem_modify {α : Type} {items : List α} {index : Nat} {f : α → α} {a : α}
    (h : a ∈ items.modify index f) :
    (∃ k, k ≠ index ∧ items[k]? = some a) ∨ ∃ b, items[index]? = some b ∧ a = f b := by
  obtain ⟨k, hk⟩ := List.mem_iff_getElem?.mp h
  rw [List.getElem?_modify] at hk
  obtain ⟨b, hb, hba⟩ := Option.map_eq_some_iff.mp hk
  by_cases hindex : index = k
  · subst hindex
    rw [if_pos rfl] at hba
    exact .inr ⟨b, hb, hba.symm⟩
  · rw [if_neg hindex] at hba
    exact .inl ⟨k, fun hne => hindex hne.symm, hba ▸ hb⟩

theorem mem_modify_self {α : Type} {items : List α} {index : Nat} {f : α → α} {a : α}
    (h : items[index]? = some a) : f a ∈ items.modify index f := by
  refine List.mem_of_getElem? (i := index) ?_
  rw [List.getElem?_modify, h]
  simp

theorem mem_modify_of_ne {α : Type} {items : List α} {index i : Nat} {f : α → α} {a : α}
    (h : items[i]? = some a) (hne : index ≠ i) : a ∈ items.modify index f := by
  refine List.mem_of_getElem? (i := i) ?_
  rw [List.getElem?_modify, h]
  simp [hne]

namespace Store

variable {s s' : Store} {x y id : UnitId} {specifier other : String}

/-! ## What units ask for and what they get -/

def Shape.specifiers : Shape → List String
  | .script _ program _ => program.specifiers
  | .bridge _ => []
  | .manifest m => m.specifiers

/-- The specifiers that a unit asks for. -/
def Specifies (s : Store) (x : UnitId) (specifiers : List String) : Prop :=
  (s.shape? x).map Shape.specifiers = some specifiers

theorem specifiers_of_unit? {specifiers : List String} {unit : ModuleUnit}
    (hunit : s.unit? x = some unit) (h : s.Specifies x specifiers) : specifiers = unit.specifiers := by
  unfold Specifies shape? at h
  rw [hunit] at h
  rw [← Option.some.inj h]
  cases unit <;> rfl

/-- A unit has another one recorded behind a specifier. -/
def Imports (s : Store) (x : UnitId) (specifier : String) (y : UnitId) : Prop :=
  ∃ url program dependencies, s.shape? x = some (.script url program dependencies) ∧
    dependencies.lookup specifier = some y

theorem dependsOn_iff_imports {specifiers : List String} (h : s.Specifies x specifiers) :
    s.DependsOn x y ↔ ∃ specifier ∈ specifiers, s.Imports x specifier y := by
  constructor
  · rintro ⟨url, program, dependencies, hshape, specifier, hin, hlookup⟩
    unfold Specifies at h
    rw [hshape] at h
    cases h
    exact ⟨specifier, hin, url, program, dependencies, hshape, hlookup⟩
  · rintro ⟨specifier, hin, url, program, dependencies, hshape, hlookup⟩
    unfold Specifies at h
    rw [hshape] at h
    cases h
    exact ⟨url, program, dependencies, hshape, specifier, hin, hlookup⟩

/-- A unit asks for every specifier once. -/
theorem Specifies.nodup {specifiers : List String} (hplain : s.Plain)
    (h : s.Specifies x specifiers) : specifiers.Nodup := by
  obtain ⟨shape, hshape, rfl⟩ := Option.map_eq_some_iff.mp h
  cases shape with
  | script url program dependencies => exact nodup_eraseDups _
  | bridge url => exact List.nodup_nil
  | manifest m => exact (hplain x _ (shape?_eq_manifest.mp hshape)).elim

theorem Imports.unique (h : s.Imports x specifier y) (h' : s.Imports x specifier id) : y = id := by
  obtain ⟨url, program, dependencies, hshape, hlookup⟩ := h
  obtain ⟨_, _, _, hshape', hlookup'⟩ := h'
  cases hshape.symm.trans hshape'
  exact Option.some.inj (hlookup.symm.trans hlookup')

/-! ## Changing a unit that nobody has entered -/

theorem shape?_of_unit? (h : s'.unit? x = s.unit? x) : s'.shape? x = s.shape? x := by
  unfold shape?
  rw [h]

theorem status_of_unit?_eq (h : s'.unit? x = s.unit? x) : s'.status x = s.status x := by
  unfold Store.status
  rw [h]

theorem Safe.change_fresh {unit : ModuleUnit} (hs : s.Safe)
    (hbefore : (s.status id).isEntered = false) (hself : s'.unit? id = some unit)
    (hplain : unit.Plain) (hafter : unit.status.isEntered = false)
    (hothers : ∀ x, id ≠ x → s'.unit? x = s.unit? x) : s'.Safe := by
  have hstatus : ∀ {x}, id ≠ x → s'.status x = s.status x :=
    fun hne => status_of_unit?_eq (hothers _ hne)
  have hne : ∀ {x}, (s'.status x).isEntered = true ∨ (s.status x).isEntered = true → id ≠ x := by
    rintro x (hx | hx) rfl
    · rw [status_of_unit? hself, hafter] at hx
      cases hx
    · rw [hbefore] at hx
      cases hx
  refine ⟨?_, ?_, ?_, ?_⟩
  · intro x other hother
    by_cases hid : id = x
    · subst hid
      cases hself.symm.trans hother
      exact hplain
    · exact hs.plain x other ((hothers x hid).symm.trans hother)
  · intro x e hx
    have hid : id ≠ x := hne (.inl (by rw [hx]; rfl))
    exact hs.clean x e ((hstatus hid).symm.trans hx)
  · intro x y hx hd
    -- neither end is the unit that changed: the one is bound, and so the other one is entered
    have hid : id ≠ x := hne (.inl (Status.isEntered_of_isBound hx))
    rw [hstatus hid] at hx
    have hy := hs.closed x y hx ((dependsOn_of_shape (shape?_of_unit? (hothers x hid))).mp hd)
    rw [hstatus (hne (.inr hy))]
    exact hy
  · intro x hx
    have hid : id ≠ x := hne (.inl (by rw [hx]; rfl))
    exact hs.settled x ((hstatus hid).symm.trans hx)

/-! ## Making units -/

/-- Nobody has linked the unit, and nothing is recorded in it. Bridges need no linking. -/
structure Bare (s : Store) (x : UnitId) : Prop where
  unlinked : s.status x = .unlinked ∨ ∃ url, s.shape? x = some (.bridge url)
  unrecorded : ∀ specifier y, ¬ s.Imports x specifier y

/-- A store with one more unit, which nobody has entered. -/
structure Adds (s s' : Store) (unit : UnitId) : Prop where
  before : s.unit? unit = none
  there : (s'.unit? unit).isSome = true
  fresh : (s'.status unit).isEntered = false
  bare : s'.Bare unit
  others : ∀ x, unit ≠ x → s'.unit? x = s.unit? x
  safe : s.Safe → s'.Safe

theorem unit?_add (s : Store) (unit : ModuleUnit) (x : UnitId) :
    (s.add unit).1.unit? x = if x = (s.add unit).2 then some unit else s.unit? x := by
  unfold unit? add
  obtain ⟨i⟩ := x
  rw [Array.getElem?_push]
  simp only [UnitId.mk.injEq]
  split
  next => rfl
  next => rfl

theorem unit?_add_new (s : Store) (unit : ModuleUnit) :
    (s.add unit).1.unit? (s.add unit).2 = some unit := by
  rw [unit?_add, if_pos rfl]

theorem unit?_add_cases {unit other : ModuleUnit} {x : UnitId}
    (h : (s.add unit).1.unit? x = some other) :
    other = unit ∧ x = (s.add unit).2 ∨ s.unit? x = some other ∧ x ≠ (s.add unit).2 := by
  rw [unit?_add] at h
  split at h
  next hself => cases h; exact .inl ⟨rfl, hself⟩
  next hne => exact .inr ⟨h, hne⟩

/-- There is no unit yet where the next one will be. -/
theorem unit?_add_self (s : Store) (unit : ModuleUnit) : s.unit? (s.add unit).2 = none := by
  unfold unit? add
  rw [Array.getElem?_eq_none (Nat.le_refl _)]
  rfl

theorem bare_script {u : ScriptUnit} (hu : s.unit? x = some (.script u))
    (hunlinked : u.status = .unlinked) (hdependencies : u.dependencies = []) : s.Bare x where
  unlinked := .inl ((status_of_unit? hu).trans hunlinked)
  unrecorded := by
    rintro specifier y ⟨_, _, _, hshape, hlookup⟩
    unfold shape? at hshape
    rw [hu] at hshape
    cases hshape
    rw [hdependencies] at hlookup
    cases hlookup

theorem bare_bridge {b : Bridge} (hb : s.unit? x = some (.bridge b)) : s.Bare x where
  unlinked := .inr ⟨b.url, shape?_eq_bridge.mpr ⟨b, hb, rfl⟩⟩
  unrecorded := by
    rintro specifier y ⟨_, _, _, hshape, -⟩
    cases (shape?_eq_bridge.mpr ⟨b, hb, rfl⟩).symm.trans hshape

theorem adds_add (s : Store) (cells : Cells) {unit : ModuleUnit} (hplain : unit.Plain)
    (hentered : unit.status.isEntered = false)
    (hnew : ∀ u, unit = .script u → u.status = .unlinked ∧ u.dependencies = []) :
    s.Adds ({ s with cells }.add unit).1 ({ s with cells }.add unit).2 := by
  have hbefore : s.unit? ({ s with cells }.add unit).2 = none :=
    unit?_add_self { s with cells } unit
  have hself := unit?_add_new { s with cells } unit
  have hothers : ∀ x, ({ s with cells }.add unit).2 ≠ x →
      ({ s with cells }.add unit).1.unit? x = s.unit? x := by
    intro x hx
    rw [unit?_add, if_neg (Ne.symm hx)]
    rfl
  refine ⟨hbefore, ?_, ?_, ?_, hothers, ?_⟩
  · rw [hself]
    rfl
  · rw [status_of_unit? hself]
    exact hentered
  · cases unit with
    | script u => exact bare_script hself (hnew u rfl).1 (hnew u rfl).2
    | bridge b => exact bare_bridge hself
    | manifest m => exact hplain.elim
  · intro hs
    refine hs.change_fresh ?_ hself hplain hentered hothers
    unfold Store.status
    rw [hbefore]
    rfl

/-! ## Linking units -/

/-- A unit that nobody has entered was asked for its specifiers. -/
structure Begins (s : Store) (id : UnitId) (specifiers : List String) (s' : Store) : Prop where
  safe : s'.Safe
  there : (s'.unit? id).isSome = true
  specifies : s'.Specifies id specifiers
  linked : s'.status id = .linked
  shape : s.SameShape s'
  others : ∀ x, id ≠ x → s'.unit? x = s.unit? x

theorem begins_beginLink (hs : s.Safe) (hid : (s.unit? id).isSome = true)
    (hentered : (s.status id).isEntered = false) :
    ∃ specifiers s', s.beginLink id = (s', .ok specifiers) ∧ s.Begins id specifiers s' := by
  obtain ⟨unit, hunit⟩ := Option.isSome_iff_exists.mp hid
  have hplain := hs.plain id unit hunit
  unfold beginLink
  rw [hunit]
  cases unit with
  | script u =>
    have hothers : ∀ x, id ≠ x → (s.setStatus id .linked).unit? x = s.unit? x := by
      intro x hx
      unfold setStatus
      rw [unit?_change, if_neg hx]
    have hself :
        (s.setStatus id .linked).unit? id = some (.script { u with status := .linked }) := by
      unfold setStatus
      rw [unit?_change, if_pos rfl, hunit]
      rfl
    refine ⟨u.program.specifiers, _, rfl, ?_, ?_, ?_, status_of_unit? hself,
      sameShape_setStatus s id .linked, hothers⟩
    · exact hs.change_fresh hentered hself trivial rfl hothers
    · rw [hself]
      rfl
    · unfold Specifies shape?
      rw [hself]
      rfl
  | bridge b =>
    refine ⟨[], s, rfl, hs, hid, ?_, ?_, .refl s, fun _ _ => rfl⟩
    · unfold Specifies shape?
      rw [hunit]
      rfl
    · rw [status_of_unit? hunit] at hentered ⊢
      change b.status.isEntered = false at hentered
      change b.status = .linked
      cases hstatus : b.status with
      | unlinked => exact absurd hstatus hplain
      | linked => rfl
      | _ => rw [hstatus] at hentered; cases hentered
  | manifest m => exact hplain.elim

/-- A specifier of a unit that nobody has entered got its unit. -/
structure Wires (s : Store) (id : UnitId) (specifier : String) (y : UnitId) (s' : Store) :
    Prop where
  safe : s'.Safe
  specifies : ∀ specifiers, s.Specifies id specifiers → s'.Specifies id specifiers
  status : s'.status id = s.status id
  others : ∀ x, id ≠ x → s'.unit? x = s.unit? x
  imports : s'.Imports id specifier y
  kept : ∀ other target, other ≠ specifier → s.Imports id other target → s'.Imports id other target
  only : ∀ other target, s'.Imports id other target → other ≠ specifier → s.Imports id other target

/-- Only a script asks for anything. -/
theorem Specifies.script {specifiers : List String} (h : s.Specifies id specifiers)
    (hplain : s.Plain) (hin : specifier ∈ specifiers) : ∃ u, s.unit? id = some (.script u) := by
  unfold Specifies shape? at h
  cases hunit : s.unit? id with
  | none => rw [hunit] at h; cases h
  | some unit =>
    cases unit with
    | script u => exact ⟨u, rfl⟩
    | bridge b => rw [hunit] at h; cases h; cases hin
    | manifest m => exact (hplain id _ hunit).elim

theorem status_wire (s : Store) (id : UnitId) (specifier : String) (y x : UnitId) :
    (s.wire id specifier y).status x = s.status x :=
  status_change s id (fun unit => by cases unit <;> rfl) x

theorem wires_wire (hs : s.Safe) {u : ScriptUnit} (hu : s.unit? id = some (.script u))
    (hentered : (s.status id).isEntered = false) (specifier : String) (y : UnitId) :
    s.Wires id specifier y (s.wire id specifier y) := by
  have hothers : ∀ x, id ≠ x → (s.wire id specifier y).unit? x = s.unit? x := by
    intro x hx
    unfold wire changeScript
    rw [unit?_change, if_neg hx]
  have hstatus : (s.wire id specifier y).status id = s.status id :=
    status_change s id (fun unit => by cases unit <;> rfl) id
  have hself : (s.wire id specifier y).unit? id = some (.script { u with
      dependencies := u.dependencies.filter (·.1 ≠ specifier) ++ [(specifier, y)] }) := by
    unfold wire changeScript
    rw [unit?_change, if_pos rfl, hu]
    rfl
  have hshape : (s.wire id specifier y).shape? id = some (.script u.url u.program
      (u.dependencies.filter (·.1 ≠ specifier) ++ [(specifier, y)])) := by
    unfold shape?
    rw [hself]
    rfl
  have hbefore : s.shape? id = some (.script u.url u.program u.dependencies) := by
    unfold shape?
    rw [hu]
    rfl
  refine ⟨?_, ?_, hstatus, hothers, ⟨_, _, _, hshape, ?_⟩, ?_, ?_⟩
  · refine hs.change_fresh hentered hself trivial ?_ hothers
    rw [status_of_unit? hu] at hentered
    exact hentered
  · intro specifiers hspecifies
    unfold Specifies at hspecifies ⊢
    rw [hbefore] at hspecifies
    rw [hshape]
    exact hspecifies
  · rw [lookup_wire, if_pos rfl]
  · rintro other target hne ⟨_, _, _, hother, hlookup⟩
    cases hbefore.symm.trans hother
    refine ⟨_, _, _, hshape, ?_⟩
    rw [lookup_wire, if_neg hne, hlookup]
  · rintro other target ⟨_, _, _, hother, hlookup⟩ hne
    cases hshape.symm.trans hother
    rw [lookup_wire, if_neg hne] at hlookup
    exact ⟨_, _, _, hbefore, hlookup⟩

end Store

namespace Host

theorem fresh_compile {url : Url} {source : String} {cells cells' : Cells} {u : ScriptUnit}
    (h : ScriptUnit.compile url source cells = .ok (cells', u)) :
    u.status = .unlinked ∧ u.dependencies = [] := by
  unfold ScriptUnit.compile at h
  simp only [bind, Except.bind, pure, Except.pure] at h
  split at h
  next => cases h
  next =>
    split at h
    next => cases h
    next => cases h; exact ⟨rfl, rfl⟩

/-- Compiling a script fails, or adds its unit. -/
theorem compile_cases {host : Host} (hcompiler : host.compiler = .script) (url : Url)
    (source : String) :
    (∃ e, host.compile url source = (host, .error e)) ∨
      ∃ host' unit, host.compile url source = (host', .ok unit) ∧
        host.store.Adds host'.store unit := by
  unfold compile
  rw [hcompiler]
  dsimp only
  split
  next e _ => exact .inl ⟨e, rfl⟩
  next cells u hu =>
    refine .inr ⟨_, _, rfl, Store.adds_add host.store cells trivial ?_ fun v hv => ?_⟩
    · show u.status.isEntered = false
      rw [(fresh_compile hu).1]
      rfl
    · cases hv
      exact fresh_compile hu

/-- Bridging a library fails, or adds its unit. -/
theorem bridge_cases (host : Host) (front : String) (url : Url) :
    (∃ e, host.bridge front url = (host, .error e)) ∨
      ∃ host' unit, host.bridge front url = (host', .ok unit) ∧
        host.store.Adds host'.store unit := by
  unfold bridge
  split
  next => exact .inl ⟨_, rfl⟩
  next id _ =>
    split
    next => exact .inl ⟨_, rfl⟩
    next library _ =>
      refine .inr ⟨_, _, rfl, Store.adds_add host.store _ ?_ rfl fun u hu => ?_⟩
      · intro hstatus
        cases hstatus
      · cases hu

end Host

end ModuleLoader
