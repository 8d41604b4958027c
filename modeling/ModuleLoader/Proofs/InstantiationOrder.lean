import ModuleLoader.Proofs.Assembly
import ModuleLoader.Proofs.Turns
/-!
# The order of instantiation

Units that are linked are instantiated in depth-first order up to the first name that the unit it is
imported from does not export. If there is none, everything that is reached is bound.

Results:
1. `Instantiable`: units that can be instantiated as far as their graph is concerned.
2. `forEach_instantiation`: turns end with the first name that is lacking.
3. `instantiate_eq_firstLack?`: so does the search, whatever was instantiated before.
4. `instantiation_binds`: all of it, for any store that is reached.
-/
namespace ModuleLoader.Store

open Relation (ReflTransGen)

/-- All that a unit reaches is there, linked, and has not failed. -/
structure Instantiable (s : Store) (root : UnitId) : Prop where
  there : (s.unit? root).isSome = true
  complete : ∀ x, ReflTransGen s.DependsOn root x → s.Complete x
  linked : ∀ x, ReflTransGen s.DependsOn root x → s.status x ≠ .unlinked
  fine : ∀ x e, ReflTransGen s.DependsOn root x → s.status x ≠ .errored e

variable {s s' t : Store} {x y root : UnitId} {unit : ModuleUnit} {order : List (Visit UnitId)}
  {log turns : List UnitId} {r : Except LoadError Unit}

/-! ## Statuses -/

/-- A unit that is entered has failed, or it is bound. -/
theorem Consistent.isBound (h : s.Consistent) (hx : (s.status x).isEntered = true)
    (hfine : ∀ e, s.status x ≠ .errored e) : (s.status x).isBound = true := by
  have hresting := h.resting x
  cases hstatus : s.status x with
  | errored e => exact absurd hstatus (hfine e)
  | instantiating => exact absurd hstatus hresting.1
  | unlinked => rw [hstatus] at hx; cases hx
  | linked => rw [hstatus] at hx; cases hx
  | _ => rfl

/-- A linked unit is entered, and one that was entered before is passed over. -/
theorem answer_instantiation (hs : s.NoManifests) (hunit : s.unit? x = some unit)
    (hlinked : unit.status ≠ .unlinked) (hfine : ∀ e, unit.status ≠ .errored e) :
    instantiation.answer unit = if unit.status.isLinked then none else some (.ok ()) := by
  cases unit with
  | script u =>
    change u.status ≠ .unlinked at hlinked
    change ∀ e, u.status ≠ .errored e at hfine
    cases hstatus : u.status <;>
      simp_all [instantiation, ModuleUnit.status, Status.isLinked]
  | bridge b =>
    change b.status ≠ .unlinked at hlinked
    cases hstatus : b.status <;>
      simp_all [instantiation, ModuleUnit.status, Status.isLinked]
  | manifest m => exact absurd hunit (hs x m)

namespace Instantiable

theorem isSome (h : s.Instantiable root) (hx : ReflTransGen s.DependsOn root x) :
    (s.unit? x).isSome = true := by
  cases hx with
  | refl => exact h.there
  | tail hpath hedge => exact (h.complete _ hpath).isSome hedge

theorem answer (h : s.Instantiable root) (hs : s.NoManifests)
    (hx : ReflTransGen s.DependsOn root x) (hunit : s.unit? x = some unit) :
    instantiation.answer unit = if (s.status x).isLinked then none else some (.ok ()) := by
  have hstatus := status_of_unit? hunit
  rw [hstatus]
  exact answer_instantiation hs hunit (hstatus ▸ h.linked x hx) fun e => hstatus ▸ h.fine x e hx

theorem opens_iff (h : s.Instantiable root) (hs : s.NoManifests)
    (hx : ReflTransGen s.DependsOn root x) : instantiation.Opens s x ↔ s.status x = .linked := by
  obtain ⟨unit, hunit⟩ := Option.isSome_iff_exists.mp (h.isSome hx)
  have hanswer := h.answer hs hx hunit
  rw [← Status.isLinked_iff]
  constructor
  · rintro ⟨other, hother, hnone⟩
    cases hunit.symm.trans hother
    rw [hanswer] at hnone
    simpa using hnone
  · intro hlinked
    exact ⟨unit, hunit, by rw [hanswer, if_pos hlinked]⟩

theorem passes_iff (h : s.Instantiable root) (hs : s.NoManifests)
    (hx : ReflTransGen s.DependsOn root x) : instantiation.Passes s x ↔ s.status x ≠ .linked := by
  obtain ⟨unit, hunit⟩ := Option.isSome_iff_exists.mp (h.isSome hx)
  have hanswer := h.answer hs hx hunit
  rw [ne_eq, ← Status.isLinked_iff]
  constructor
  · rintro ⟨other, hother, hpass⟩ hlinked
    cases hunit.symm.trans hother
    rw [hanswer, if_pos hlinked] at hpass
    cases hpass
  · intro hlinked
    exact ⟨unit, hunit, by rw [hanswer, if_neg hlinked]⟩

theorem isEntered (h : s.Instantiable root) (hx : ReflTransGen s.DependsOn root x)
    (hlinked : s.status x ≠ .linked) : (s.status x).isEntered = true := by
  have hunlinked := h.linked x hx
  cases hstatus : s.status x with
  | unlinked => exact absurd hstatus hunlinked
  | linked => exact absurd hstatus hlinked
  | _ => rfl

/-- The search covers what the root reaches. -/
theorem covers (h : s.Instantiable root) (hs : s.NoManifests) :
    instantiation.Covers s.children {x | ReflTransGen s.DependsOn root x} s where
  there _ hx := h.isSome hx
  closed _ hx _ hy := ReflTransGen.tail hx (mem_children.mp hy)
  leads x hx _ hunit _ := targets_of_complete hs (h.complete x hx) hunit
  ends x hx e he := by
    obtain ⟨unit, hunit, hanswer⟩ := he
    rw [h.answer hs hx hunit] at hanswer
    split at hanswer <;> cases hanswer

end Instantiable

/-- What a unit reaches and was instantiated before. -/
def boundBefore (s : Store) (root : UnitId) : Set UnitId :=
  {x | ReflTransGen s.DependsOn root x ∧ s.status x ≠ .linked}

/-! ## Turns -/

/-- Linked units that take their turns one after the other get to the first name that is lacking. -/
theorem forEach_instantiation (hcomplete : ∀ x ∈ turns, s.Complete x)
    (hopen : ∀ x ∈ turns, instantiation.Opens s x) (hnodup : turns.Nodup) (hframes : s.SameFrames t)
    (hunits : ∀ x ∈ turns, t.unit? x = s.unit? x) :
    (t.forEach instantiation.turn turns).2 = okUnless (s.firstLack? turns) := by
  induction turns generalizing t with
  | nil => rfl
  | cons x rest ih =>
    obtain ⟨hx, hrest⟩ := List.nodup_cons.mp hnodup
    have hself := List.mem_cons_self (a := x) (l := rest)
    have hturn := turn_instantiation (hcomplete x hself) (hopen x hself) hframes (hunits x hself)
    have hframes' := Phase.frames_turn instantiation_lawful t x
    have hothers : ∀ y, x ≠ y → (instantiation.turn t x).1.unit? y = t.unit? y :=
      fun y hne => Phase.turn_others instantiation_lawful hne
    unfold forEach firstLack?
    rw [List.findSome?_cons]
    unfold verdict at hturn
    generalize instantiation.turn t x = result at *
    obtain ⟨t', r⟩ := result
    cases hlack : (s.wants x).findSome? (s.lack? x) with
    | some e =>
      rw [hlack] at hturn
      cases hturn
      rfl
    | none =>
      rw [hlack] at hturn
      cases hturn
      refine ih (fun y hy => hcomplete y (List.mem_cons_of_mem _ hy))
        (fun y hy => hopen y (List.mem_cons_of_mem _ hy)) hrest (hframes.trans hframes')
        fun y hy => ?_
      rw [hothers y fun heq => hx (heq ▸ hy)]
      exact hunits y (List.mem_cons_of_mem _ hy)

theorem findSome?_filter {α β : Type} {f : α → Option β} {keep : α → Bool} {items : List α}
    (h : ∀ a ∈ items, keep a = false → f a = none) :
    (items.filter keep).findSome? f = items.findSome? f := by
  induction items with
  | nil => rfl
  | cons a rest ih =>
    have hrest := ih fun b hb => h b (List.mem_cons_of_mem _ hb)
    rw [List.filter_cons, List.findSome?_cons]
    cases hkeep : keep a with
    | true => rw [if_pos rfl, List.findSome?_cons, hrest]
    | false => rw [if_neg (by simp), h a List.mem_cons_self hkeep, hrest]

/-- A bound unit lacks nothing. -/
theorem Consistent.lacks_nothing (h : s.Consistent) (hbound : (s.status x).isBound = true) :
    (s.wants x).findSome? (s.lack? x) = none := by
  rw [List.findSome?_eq_none_iff]
  intro w hw
  obtain ⟨u, hu⟩ := script_of_wants hw
  rw [status_of_unit? hu] at hbound
  have hbinds := (h.bound x u hu hbound).2 w hw
  unfold lack?
  cases hsource : s.source? x w.specifier with
  | none => rfl
  | some exporter =>
    obtain ⟨cell, hcell, -⟩ := hbinds exporter hsource
    simp [hcell]

namespace Instantiable

/-- What was instantiated before is closed under what it imports from. -/
theorem bound_closed (h : s.Instantiable root) (hs : s.Consistent) :
    ∀ a ∈ s.boundBefore root, ∀ b ∈ s.children a, b ∈ s.boundBefore root := by
  rintro a ⟨ha, hlinked⟩ b hb
  have hd := mem_children.mp hb
  have hbound := hs.isBound (h.isEntered ha hlinked) fun e => h.fine a e ha
  have hpath := ha.tail hd
  exact ⟨hpath, Status.ne_linked_of_isEntered (hs.closed a b hbound hd (h.isSome hpath))⟩

theorem exists_order (h : s.Instantiable root) (hs : s.NoManifests) :
    ∃ order, Search s.children ∅ [] [root] order ∧
      ∀ x, x ∈ nodes order ↔ ReflTransGen s.DependsOn root x := by
  have hfinite : {x | ReflTransGen s.DependsOn root x}.Finite :=
    (Phase.finite_units s).subset fun x hx => h.isSome hx
  obtain ⟨order, horder⟩ : ∃ order, Search s.children ∅ [] [root] order :=
    exists_search hfinite (h.covers hs).closed fun x hx => List.mem_singleton.mp hx ▸ .refl
  have hedge : (fun a b => b ∈ s.children a) = s.DependsOn :=
    funext fun a => funext fun b => propext mem_children
  refine ⟨order, horder, fun x => ⟨fun hx => ?_, fun hx => ?_⟩⟩
  · obtain ⟨a, ha, hpath⟩ := horder.reached hx
    cases List.mem_singleton.mp ha
    exact hedge ▸ hpath
  · refine (horder.mem_of_reached List.mem_cons_self (hedge ▸ hx) ?_).resolve_left fun hin => hin
    exact fun a ha => absurd ha (Set.notMem_empty a)

/-- An instantiation gets to the first name that is lacking, whatever was instantiated before. -/
theorem instantiate_eq_firstLack? (h : s.Instantiable root) (hs : s.Consistent)
    (horder : Search s.children ∅ [] [root] order) :
    (s.instantiate root).2 = okUnless (s.firstLack? (nodes order)) := by
  classical
  have hmanifests := hs.noManifests
  obtain ⟨log, hruns⟩ := instantiate_runs hmanifests root
  have hseen : ∀ x ∈ {x | ReflTransGen s.DependsOn root x},
      x ∈ s.boundBefore root ↔ instantiation.Passes s x := fun x hx =>
    ⟨fun hin => (h.passes_iff hmanifests hx).mpr hin.2,
      fun hpass => ⟨hx, (h.passes_iff hmanifests hx).mp hpass⟩⟩
  -- the search leaves out what was instantiated before
  have hopen := horder.leave_out _ (h.bound_closed hs)
  rw [Set.empty_union] at hopen
  have hfollows := hruns.follows instantiation_lawful (h.covers hmanifests) .refl hseen hopen
  have hnodes : nodes (order.filter fun v => v.node ∉ s.boundBefore root) =
      (nodes order).filter fun x => x ∉ s.boundBefore root := by
    unfold nodes
    rw [List.filter_map]
    rfl
  have hlinked : ∀ x ∈ (nodes order).filter (fun x => x ∉ s.boundBefore root),
      ReflTransGen s.DependsOn root x ∧ s.status x = .linked := by
    intro x hx
    obtain ⟨hin, hout⟩ := List.mem_filter.mp hx
    obtain ⟨a, ha, hway⟩ := horder.reached hin
    cases List.mem_singleton.mp ha
    have hpath := mem_of_path (h.covers hmanifests).closed .refl hway
    exact ⟨hpath, by_contra fun hne => of_decide_eq_true hout ⟨hpath, hne⟩⟩
  rw [← hfollows.result, hnodes, forEach_instantiation (fun x hx => h.complete x (hlinked x hx).1)
    (fun x hx => (h.opens_iff hmanifests (hlinked x hx).1).mpr (hlinked x hx).2)
    (horder.nodup.filter _) (.refl s) fun _ _ => rfl]
  unfold firstLack?
  rw [findSome?_filter fun x hx hkept => ?_]
  have hin : x ∈ s.boundBefore root := not_not.mp (of_decide_eq_false hkept)
  exact hs.lacks_nothing (hs.isBound (h.isEntered hin.1 hin.2) fun e => h.fine x e hin.1)

/-- After an instantiation that went well, everything that is reached is bound. -/
theorem bound_after (h : s.Instantiable root) (hs : s.Consistent)
    (hok : (s.instantiate root).2 = .ok ()) (hx : ReflTransGen s.DependsOn root x) :
    ((s.instantiate root).1.status x).isBound = true := by
  have hentering := entering_instantiate hs.plain h.there
  have hs' := hs.instantiate root
  obtain ⟨hstarts, herrors⟩ := hentering.fine hok
  have hfine : ∀ {x}, ReflTransGen s.DependsOn root x →
      ∀ e, (s.instantiate root).1.status x ≠ .errored e :=
    fun hx e he => h.fine _ e hx (herrors _ e he)
  induction hx with
  | refl => exact hs'.isBound (hstarts root rfl) (hfine .refl)
  | @tail y z hpath hedge ih =>
    have hthere := (hentering.shape.isSome z).trans (h.isSome (hpath.tail hedge))
    have hentered := hs'.closed y z ih (hentering.shape.dependsOn.mpr hedge) hthere
    exact hs'.isBound hentered (hfine (hpath.tail hedge))

end Instantiable

theorem okUnless_eq_ok {e? : Option LoadError} : okUnless e? = .ok () ↔ e? = none := by
  cases e? <;> simp [okUnless]

/-- An instantiation goes well exactly if every imported name is exported. -/
theorem firstLack?_eq_none (h : s.Instantiable root)
    (hnodes : ∀ x, x ∈ nodes order ↔ ReflTransGen s.DependsOn root x) :
    s.firstLack? (nodes order) = none ↔ ∀ x, ReflTransGen s.DependsOn root x →
      ∀ w ∈ s.wants x, (s.wanted? x w).isSome = true := by
  unfold firstLack?
  rw [List.findSome?_eq_none_iff]
  constructor
  · intro hnone x hx w hw
    rw [← lack?_eq_none (h.complete x hx) hw]
    exact List.findSome?_eq_none_iff.mp (hnone x ((hnodes x).mpr hx)) w hw
  · intro hall x hx
    have hpath := (hnodes x).mp hx
    rw [List.findSome?_eq_none_iff]
    exact fun w hw => (lack?_eq_none (h.complete x hpath) hw).mpr (hall x hpath w hw)

theorem Instantiable.shares (h : s.Instantiable root) (hs : s.Consistent)
    (hok : (s.instantiate root).2 = .ok ()) (hx : ReflTransGen s.DependsOn root x)
    {w : Script.Want} (hw : w ∈ s.wants x) : (s.instantiate root).1.Shares x w := by
  have hshape := (entering_instantiate hs.plain h.there).shape
  have hbound := h.bound_after hs hok hx
  have hw' : w ∈ (s.instantiate root).1.wants x := by rwa [hshape.wants]
  obtain ⟨u, hu⟩ := script_of_wants hw'
  rw [status_of_unit? hu] at hbound
  refine (hs.instantiate root).shares hu hbound hw' ?_
  rw [wants_of_script hu] at hw'
  obtain ⟨_, _, -, -, hsource⟩ :=
    (hshape.complete (h.complete x hx)).source hu (specifier_of_want hw')
  rw [hsource]
  rfl

/--
An instantiation of units that are linked once, in any store that is reached:

* It ends, at whatever depth it takes.
* It goes over all units that are reached, in depth-first order, to the first name that the unit it
  is imported from does not export, whether some of them were instantiated before or not.
* It goes well exactly if every imported name is exported.
* If so, everything that is reached is bound, and each imported name reads the cell of the exporter,
  which the exporter writes and its namespace shows, for as long as both are there.
-/
theorem instantiation_binds (deeds : List Deed) (root : UnitId)
    (h : (({} : Store).enactAll deeds).Instantiable root) :
    let s := ({} : Store).enactAll deeds
    let s' := (s.instantiate root).1
    let r := (s.instantiate root).2
    (∀ depth, s.units.size < depth → s.instantiateWithin depth root = s.instantiate root) ∧
    (∃ order, Search s.children ∅ [] [root] order ∧
      (∀ x, x ∈ nodes order ↔ ReflTransGen s.DependsOn root x) ∧
      r = okUnless (s.firstLack? (nodes order))) ∧
    (r = .ok () ↔ ∀ x, ReflTransGen s.DependsOn root x →
      ∀ w ∈ s.wants x, (s.wanted? x w).isSome = true) ∧
    (r = .ok () → ∀ x, ReflTransGen s.DependsOn root x →
      (s'.status x = .instantiated ∨ ∃ v, s'.status x = .evaluated v) ∧
      ∀ w ∈ s.wants x, s'.Shares x w ∧ ∀ later, let t := s'.enactAll later
        (t.unit? x).isSome = true → (t.source? x w.specifier).isSome = true → t.Shares x w) := by
  intro s s' r
  have hs : s.Consistent := consistent_empty.enactAll deeds
  have hs' : s'.Consistent := hs.instantiate root
  obtain ⟨order, horder, hnodes⟩ := h.exists_order hs.noManifests
  have hr : r = okUnless (s.firstLack? (nodes order)) := h.instantiate_eq_firstLack? hs horder
  refine ⟨fun depth hdepth => instantiateWithin_of_size hs.noManifests root hdepth,
    ⟨order, horder, hnodes, hr⟩, ?_, fun hok x hx => ⟨?_, fun w hw => ?_⟩⟩
  · rw [hr, okUnless_eq_ok]
    exact firstLack?_eq_none h hnodes
  · have hbound := h.bound_after hs hok hx
    have hresting := hs'.resting x
    cases hstatus : s'.status x with
    | instantiated => exact .inl rfl
    | evaluated v => exact .inr ⟨v, rfl⟩
    | evaluating => exact absurd hstatus hresting.2
    | _ => rw [hstatus] at hbound; cases hbound
  · have hshares := h.shares hs hok hx hw
    refine ⟨hshares, fun later ht hsource => ?_⟩
    exact hshares.later (Status.isEntered_of_isBound (h.bound_after hs hok hx))
      (becomes_enactAll hs' later) (hs'.enactAll later) ht hsource

/-! ### Two scripts that import each other -/

/-- Whether all units are linked, with a unit behind each of their specifiers. -/
def allLinked (s : Store) : Bool :=
  s.units.all fun
    | some (.script u) => u.status.isLinked && u.program.specifiers.all fun specifier =>
        (u.dependencies.lookup specifier).any fun y => (s.unit? y).isSome
    | some (.bridge b) => b.status.isLinked
    | _ => false

theorem instantiable_of_allLinked (h : s.allLinked = true) (hroot : (s.unit? root).isSome = true) :
    s.Instantiable root := by
  have hunit : ∀ {x unit}, s.unit? x = some unit → unit.status = .linked ∧ s.Complete x := by
    intro x unit hx
    have hplace : s.units[x.index]? = some (some unit) := Option.join_eq_some_iff.mp hx
    obtain ⟨hlt, hget⟩ := Array.getElem?_eq_some_iff.mp hplace
    have hall := Array.all_eq_true.mp h x.index hlt
    rw [hget] at hall
    cases unit with
    | script u =>
      obtain ⟨hlinked, hspecifiers⟩ := Bool.and_eq_true_iff.mp hall
      refine ⟨Status.isLinked_iff.mp hlinked, fun v hv specifier hin => ?_⟩
      cases hx.symm.trans hv
      have hany := List.all_eq_true.mp hspecifiers specifier hin
      cases hlookup : u.dependencies.lookup specifier with
      | none => rw [hlookup] at hany; cases hany
      | some y => rw [hlookup] at hany; exact ⟨y, rfl, hany⟩
    | bridge b => exact ⟨Status.isLinked_iff.mp hall, fun v hv => by cases hx.symm.trans hv⟩
    | manifest m => cases hall
  have hcomplete : ∀ x, s.Complete x := fun x u hu => (hunit hu).2 u hu
  have hlinked : ∀ x, ReflTransGen s.DependsOn root x → s.status x = .linked := by
    intro x hx
    have hthere : (s.unit? x).isSome = true := by
      cases hx with
      | refl => exact hroot
      | tail _ hedge => exact (hcomplete _).isSome hedge
    obtain ⟨unit, hx⟩ := Option.isSome_iff_exists.mp hthere
    exact (status_of_unit? hx).trans (hunit hx).1
  exact ⟨hroot, fun x _ => hcomplete x, fun x hx => by rw [hlinked x hx]; simp,
    fun x e hx => by rw [hlinked x hx]; simp⟩

/-- Two scripts that import each other and one name of a table each. -/
def crossing : List Deed :=
  [.bridge { scheme := "builtin", path := .rootless "table" } ["x"] none,
    .script { scheme := "file", path := .segments ["a"] } "import { x } from 't'; import './b';",
    .script { scheme := "file", path := .segments ["b"] } "import './a'; import { x as y } from 't';",
    .link ⟨1⟩, .wire ⟨1⟩ "./b" ⟨2⟩, .wire ⟨1⟩ "t" ⟨0⟩,
    .link ⟨2⟩, .wire ⟨2⟩ "t" ⟨0⟩, .wire ⟨2⟩ "./a" ⟨1⟩]

theorem instantiation_binds_crossing :
    (({} : Store).enactAll crossing).Instantiable ⟨1⟩ ∧
      ((({} : Store).enactAll crossing).instantiate ⟨1⟩).2 = .ok () ∧
      ∀ w ∈ (({} : Store).enactAll crossing).wants ⟨1⟩,
        ((({} : Store).enactAll crossing).instantiate ⟨1⟩).1.Shares ⟨1⟩ w := by
  have h : (({} : Store).enactAll crossing).Instantiable ⟨1⟩ :=
    instantiable_of_allLinked (by decide +kernel) (by decide +kernel)
  have hok : ((({} : Store).enactAll crossing).instantiate ⟨1⟩).2 = .ok () := by
    have hisOk : ((({} : Store).enactAll crossing).instantiate ⟨1⟩).2.isOk = true := by
      decide +kernel
    cases hresult : ((({} : Store).enactAll crossing).instantiate ⟨1⟩).2 with
    | ok _ => rfl
    | error e => rw [hresult] at hisOk; cases hisOk
  obtain ⟨-, -, -, hbound⟩ := instantiation_binds crossing ⟨1⟩ h
  exact ⟨h, hok, fun w hw => ((hbound hok ⟨1⟩ .refl).2 w hw).1⟩

end ModuleLoader.Store
