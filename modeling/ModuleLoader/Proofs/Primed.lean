import ModuleLoader.Proofs.Alike
import ModuleLoader.Proofs.Calm
/-!
# Modules that are linked and not entered

A loader instantiates a module when units of all modules that it leads to are linked to each other. If
nobody has entered any of them by then, the modules alone settle what comes of it: the units of
another loader in the same situation are alike, one by one, and what is done to them later keeps them
alike.

Results:
1. `Primed`: a module with all that it leads to, linked and not entered.
2. `Primed.alike`: the units of two stores that are primed for one module are alike.
3. `Primed.entered`: an instantiation that goes well enters all of them.
4. `Instantiated.same`, `HasRun.same`: instantiating and running the module comes to the same.
-/
namespace ModuleLoader

open Relation (ReflTransGen)
open Relator (BiUnique)

namespace Project

variable {p p' : Project} {t t' t₀ : Resolved}

/-- The modules to which a module leads, itself included. -/
def Reaches (p : Project) : Resolved → Resolved → Prop := ReflTransGen p.Imports

/-- Two projects with the same modules, which lead to each other in the same way, on hosts whose
functions do the same. -/
structure Same (p p' : Project) : Prop where
  content : ∀ t, p.content? t = p'.content? t
  leads : ∀ t specifier, p.leads t specifier = p'.leads t specifier
  library : ∀ url, p.library? url = p'.library? url
  tables : p.tables = p'.tables
  functions : p.functions = p'.functions

theorem Same.symm (h : p.Same p') : p'.Same p where
  content t := (h.content t).symm
  leads t specifier := (h.leads t specifier).symm
  library url := (h.library url).symm
  tables := h.tables.symm
  functions := h.functions.symm

theorem Same.trans {p'' : Project} (h : p.Same p') (h' : p'.Same p'') : p.Same p'' where
  content t := (h.content t).trans (h'.content t)
  leads t specifier := (h.leads t specifier).trans (h'.leads t specifier)
  library url := (h.library url).trans (h'.library url)
  tables := h.tables.trans h'.tables
  functions := h.functions.trans h'.functions

theorem Links.same (hlinks : p.Links t) (h : p.Same p') : p'.Links t := by
  obtain ⟨c, hc, hall⟩ := hlinks
  refine ⟨c, (h.content t).symm.trans hc, fun specifier hin => ?_⟩
  obtain ⟨t', hleads, hthere⟩ := hall specifier hin
  exact ⟨t', (h.leads t specifier).symm.trans hleads, h.content t' ▸ hthere⟩

theorem Same.reaches (h : p.Same p') (hreach : p.Reaches t₀ t) : p'.Reaches t₀ t := by
  have himports : ∀ a b, p.Imports a b → p'.Imports a b := fun a b himports => by
    obtain ⟨c, hc, specifier, hin, hleads⟩ := himports
    exact ⟨c, (h.content a).symm.trans hc, specifier, hin, (h.leads a specifier).symm.trans hleads⟩
  exact ReflTransGen.mono himports _ _ hreach

end Project

namespace Store

variable {p p' : Project} {t t₀ : Resolved} {f f' : Resolved → UnitId} {s s' : Store}
  {x x' y : UnitId} {name name' : String} {c c' : CellId}

/-! ## Cells by their names -/

/-- The cell that a unit has to itself under a name. -/
def OwnCell (s : Store) (x : UnitId) (name : String) (c : CellId) : Prop :=
  ∃ unit, s.unit? x = some unit ∧ (name, c) ∈ unit.own

theorem Follows.ownCell_unique (h : s.Follows p) (hc : s.OwnCell x name c)
    (hc' : s.OwnCell x name c') : c = c' := by
  obtain ⟨unit, hunit, hin⟩ := hc
  obtain ⟨unit', hunit', hin'⟩ := hc'
  cases hunit.symm.trans hunit'
  have hsame := List.inj_on_of_nodup_map (h.made x unit hunit).own_named hin hin' rfl
  exact congrArg Prod.snd hsame

theorem Owned.ownCell_inj (h : s.Owned) (hc : s.OwnCell x name c) (hc' : s.OwnCell y name' c) :
    x = y ∧ name = name' := by
  obtain ⟨unit, hunit, hin⟩ := hc
  obtain ⟨unit', hunit', hin'⟩ := hc'
  by_cases hxy : x = y
  · subst hxy
    cases hunit.symm.trans hunit'
    have hsame := List.inj_on_of_nodup_map (h.distinct x unit hunit) hin hin' rfl
    exact ⟨rfl, congrArg Prod.fst hsame⟩
  · exact absurd (List.mem_map_of_mem hin')
      (h.apart x y unit unit' hxy hunit hunit' c (List.mem_map_of_mem hin))

/-! ## Modules that are primed -/

/-- A module and all that it leads to have units, which are linked to each other and which nobody has
entered. -/
structure Primed (p : Project) (t₀ : Resolved) (unitOf : Resolved → UnitId) (s : Store) : Prop where
  follows : s.Follows p
  plain : s.Plain
  functions : s.cells.functions = p.functions
  fresh : s.AllFresh p
  unbound : s.Unbound
  holds : ∀ t, p.Reaches t₀ t → s.Holds p (unitOf t) t
  linked : ∀ t, p.Reaches t₀ t → s.status (unitOf t) = .linked
  wired : ∀ t c specifier, p.Reaches t₀ t → p.content? t = some c → specifier ∈ c.specifiers →
    ∃ t', p.leads t specifier = .ok t' ∧ s.Imports (unitOf t) specifier (unitOf t')

/-- Units of one module in two stores. -/
def Twins (p : Project) (t₀ : Resolved) (unitOf unitOf' : Resolved → UnitId) (x x' : UnitId) :
    Prop :=
  ∃ t, p.Reaches t₀ t ∧ unitOf t = x ∧ unitOf' t = x'

/-- Cells that units of one module have under one name. -/
def TwinCells (p : Project) (t₀ : Resolved) (unitOf unitOf' : Resolved → UnitId) (s s' : Store)
    (c c' : CellId) : Prop :=
  ∃ t name, p.Reaches t₀ t ∧ s.OwnCell (unitOf t) name c ∧ s'.OwnCell (unitOf' t) name c'

namespace Primed

theorem injective (h : s.Primed p t₀ f) {t t' : Resolved} (ht : p.Reaches t₀ t)
    (ht' : p.Reaches t₀ t') (heq : f t = f t') : t = t' :=
  (h.holds t ht).unique (heq ▸ h.holds t' ht')

/-- Nothing was written yet to the cells of the units. -/
theorem untouched (h : s.Primed p t₀ f) (ht : p.Reaches t₀ t) (hc : s.OwnCell (f t) name c) :
    s.cells.read c = .undefined := by
  obtain ⟨unit, hunit, hin⟩ := hc
  have hstatus := (status_of_unit? hunit).symm.trans (h.linked t ht)
  have hfresh := h.fresh _ unit hunit (by rw [hstatus]; rfl)
  cases unit with
  | script u => exact hfresh _ hin
  | bridge b => exact hfresh.1 _ hin
  | manifest m => cases hin

/-- What a specifier has behind it follows from the module to which it leads. -/
theorem reaches_of_leads {t' : Resolved} {content : Content} {specifier : String}
    (ht : p.Reaches t₀ t) (hc : p.content? t = some content) (hin : specifier ∈ content.specifiers)
    (hleads : p.leads t specifier = .ok t') : p.Reaches t₀ t' :=
  ReflTransGen.tail ht ⟨content, hc, specifier, hin, hleads⟩

variable (h : s.Primed p t₀ f) (h' : s'.Primed p' t₀ f') (hsame : p.Same p')

include h h' hsame

theorem biUnique_twins : BiUnique (Twins p t₀ f f') := by
  constructor
  · rintro x y x' ⟨t, ht, rfl, htwin⟩ ⟨t', ht', rfl, htwin'⟩
    obtain rfl := h'.injective (hsame.reaches ht) (hsame.reaches ht') (htwin.trans htwin'.symm)
    rfl
  · rintro x x' y ⟨t, ht, htwin, rfl⟩ ⟨t', ht', htwin', rfl⟩
    obtain rfl := h.injective ht ht' (htwin.trans htwin'.symm)
    rfl

theorem biUnique_twinCells : BiUnique (TwinCells p t₀ f f' s s') := by
  constructor
  · rintro c d c' ⟨t, name, ht, hc, hc'⟩ ⟨t', name', ht', hd, hd'⟩
    obtain ⟨hunits, rfl⟩ := h'.follows.ownCell_inj hc' hd'
    obtain rfl := h'.injective (hsame.reaches ht) (hsame.reaches ht') hunits
    exact h.follows.ownCell_unique hc hd
  · rintro c c' d ⟨t, name, ht, hc, hc'⟩ ⟨t', name', ht', hd, hd'⟩
    obtain ⟨hunits, rfl⟩ := h.follows.ownCell_inj hc hd
    obtain rfl := h.injective ht ht' hunits
    exact h'.follows.ownCell_unique hc' hd'

/-- Units for one module are made of the same. -/
theorem alike_units (ht : p.Reaches t₀ t) : ∃ unit unit', s.unit? (f t) = some unit ∧
    s'.unit? (f' t) = some unit' ∧
    unit.Alike (Twins p t₀ f f') (TwinCells p t₀ f f' s s') unit' := by
  obtain ⟨unit, hunit, hmade, htarget⟩ := h.holds t ht
  obtain ⟨unit', hunit', hmade', htarget'⟩ := h'.holds t (hsame.reaches ht)
  have hown : ∀ name c c', (name, c) ∈ unit.own → (name, c') ∈ unit'.own →
      TwinCells p t₀ f f' s s' c c' := fun name c c' hc hc' =>
    ⟨t, name, ht, ⟨unit, hunit, hc⟩, ⟨unit', hunit', hc'⟩⟩
  have hstatus := (status_of_unit? hunit).symm.trans (h.linked t ht)
  have hstatus' := (status_of_unit? hunit').symm.trans (h'.linked t (hsame.reaches ht))
  have hurl : unit.target = unit'.target := htarget.trans htarget'.symm
  refine ⟨unit, unit', hunit, hunit', ?_⟩
  cases hmade with
  | @script u names hcontent hlocals hexports =>
    cases hmade' with
    | bridge => cases show Format.js = .builtin from congrArg Resolved.format hurl
    | @script u' names' hcontent' hlocals' hexports' =>
      have hurls : u.url = u'.url := congrArg Resolved.url hurl
      rw [hsame.content, hurls, hcontent'] at hcontent
      obtain ⟨hprogram, rfl⟩ := Content.script.inj (Option.some.inj hcontent)
      have halike := Scope.alike_of_names (hlocals.trans hlocals'.symm) hown
      refine .script ⟨hurls, hprogram.symm, halike, ?_, ?_, fun specifier hin => ?_,
        hstatus.trans hstatus'.symm⟩
      · rw [hexports, hexports']
        exact halike.exported _
      · -- nothing is bound before somebody enters the unit
        rw [h.unbound _ _ hunit (by rw [show u.status = .linked from hstatus]; rfl),
          h'.unbound _ _ hunit' (by rw [show u'.status = .linked from hstatus']; rfl)]
        exact .nil
      · have hthere : p'.content? t = some (.script u'.program names') := htarget' ▸ hcontent'
        have hthere' := (hsame.content t).trans hthere
        have hin' : specifier ∈ (Content.script u'.program names').specifiers := by
          rw [hprogram]
          exact hin
        obtain ⟨t', hleads, himports⟩ := h.wired t _ specifier ht hthere' hin'
        obtain ⟨t'', hleads', himports'⟩ :=
          h'.wired t _ specifier (hsame.reaches ht) hthere hin'
        cases ((hsame.leads _ _).symm.trans hleads).symm.trans hleads'
        exact ⟨f t', f' t', ⟨t', reaches_of_leads ht hthere' hin' hleads, rfl, rfl⟩,
          (imports_of_script hunit).mp himports, (imports_of_script hunit').mp himports'⟩
  | @bridge b names table hcontent hnames =>
    cases hmade' with
    | script => cases show Format.builtin = .js from congrArg Resolved.format hurl
    | @bridge b' names' table' hcontent' hnames' =>
      obtain ⟨-, library, hlibrary, hexecutor⟩ := h.fresh _ _ hunit (by rw [hstatus]; rfl)
      obtain ⟨-, library', hlibrary', hexecutor'⟩ := h'.fresh _ _ hunit' (by rw [hstatus']; rfl)
      have hurls : b.url = b'.url := congrArg Resolved.url hurl
      rw [hsame.content, hurls, hcontent'] at hcontent
      obtain ⟨rfl, -⟩ := Content.library.inj (Option.some.inj hcontent)
      rw [hsame.library, hurls, hlibrary'] at hlibrary
      cases hlibrary
      exact .bridge ⟨hurls, Scope.alike_of_names (hnames.trans hnames'.symm) hown,
        hexecutor.trans hexecutor'.symm, hstatus.trans hstatus'.symm⟩

/-- Stores that are primed for one module are alike. -/
theorem alike : s.Alike (Twins p t₀ f f') (TwinCells p t₀ f f' s s') s' where
  units x x' := by
    rintro ⟨t, ht, rfl, rfl⟩
    exact h.alike_units h' hsame ht
  cells := by
    constructor
    · rintro c c' ⟨t, name, -, ⟨unit, hunit, hin⟩, unit', hunit', hin'⟩
      exact ⟨h.follows.there _ unit hunit _ hin, h'.follows.there _ unit' hunit' _ hin'⟩
    · rintro c c' ⟨t, name, ht, hc, hc'⟩
      rw [h.untouched ht hc, h'.untouched (hsame.reaches ht) hc']
    · rw [h.functions, h'.functions, hsame.functions]
  tables := h.follows.tables.trans (hsame.tables.trans h'.follows.tables.symm)

omit h' hsame

/-- An instantiation that goes well enters all the units. -/
theorem entered (hok : (s.instantiate (f t₀)).2 = .ok ()) (ht : p.Reaches t₀ t) :
    ((s.instantiate (f t₀)).1.status (f t)).isEntered = true := by
  obtain ⟨unit, hunit, -⟩ := h.holds t₀ .refl
  have hentering := entering_instantiate h.plain (show (s.unit? (f t₀)).isSome = true by
    rw [hunit]; rfl)
  rw [hok] at hentering
  refine (entered_instantiate_iff hentering).mpr (.inr ⟨h.linked t₀ .refl, ?_⟩)
  induction ht with
  | refl => exact .refl
  | @tail t t' ht himports ih =>
    obtain ⟨c, hc, specifier, hin, hleads⟩ := himports
    obtain ⟨other, hother, himports⟩ := h.wired t c specifier ht hc hin
    cases hleads.symm.trans hother
    refine ih.tail ⟨?_, h.linked _ (reaches_of_leads ht hc hin hleads)⟩
    obtain ⟨unit, hunit, hmade, rfl⟩ := h.holds t ht
    obtain ⟨c', hc', hspecifiers⟩ := hmade.specifiers
    cases hc.symm.trans hc'
    obtain ⟨url, program, dependencies, hshape, hlookup⟩ := himports
    obtain ⟨unit', hunit', heq⟩ := Option.map_eq_some_iff.mp hshape
    cases hunit.symm.trans hunit'
    cases unit with
    | script u =>
      cases heq
      rw [← show u.program.specifiers = c.specifiers from hspecifiers] at hin
      exact ⟨_, _, _, hshape, specifier, hin, hlookup⟩
    | bridge b => cases heq
    | manifest m => cases heq

end Primed

/-! ## What comes of a module -/

variable {R : UnitId → UnitId → Prop} {C : CellId → CellId → Prop} {r r' : Except LoadError Unit}

/-- Units that were entered stay alike while others are made and linked. -/
theorem Alike.calm {t t' : Store} (h : s.Alike R C s') (hcalm : s.Calm p t) (hcalm' : s'.Calm p' t')
    (htables : t.tables = t'.tables)
    (hentered : ∀ x x', R x x' → (s.status x).isEntered = true) : t.Alike R C t' where
  units x x' hx := by
    obtain ⟨unit, unit', hunit, hunit', halike⟩ := h.units x x' hx
    have hx' : (s'.status x').isEntered = true := by
      rw [status_of_unit? hunit', ← halike.status, ← status_of_unit? hunit]
      exact hentered x x' hx
    exact ⟨unit, unit', (hcalm.unit? (hentered x x' hx)).trans hunit,
      (hcalm'.unit? hx').trans hunit', halike⟩
  cells := by
    constructor
    · intro c c' hc
      obtain ⟨hthere, hthere'⟩ := h.cells.there c c' hc
      exact ⟨Nat.lt_of_lt_of_le hthere hcalm.size, Nat.lt_of_lt_of_le hthere' hcalm'.size⟩
    · intro c c' hc
      obtain ⟨hthere, hthere'⟩ := h.cells.there c c' hc
      rw [hcalm.cells c hthere, hcalm'.cells c' hthere', h.cells.read c c' hc]
    · rw [hcalm.functions, hcalm'.functions, h.cells.functions]
  tables := htables

/-- The unit of a module was instantiated with this outcome, and what was done since has left alone
all that was entered. -/
def Instantiated (p : Project) (t₀ : Resolved) (x : UnitId) (r : Except LoadError Unit) (s : Store) :
    Prop :=
  ∃ f s₀, Store.Primed p t₀ f s₀ ∧ f t₀ = x ∧ (s₀.instantiate x).2 = r ∧
    (s₀.instantiate x).1.Calm p s

/-- The unit of a module was instantiated and then evaluated with this outcome, and what was done in
between and since has left alone all that was entered. -/
def HasRun (p : Project) (t₀ : Resolved) (x : UnitId) (r : Except LoadError Unit) (s : Store) :
    Prop :=
  ∃ t : Store, t.Instantiated p t₀ x (.ok ()) ∧ t.Follows p ∧ t.Plain ∧
    (forget (t.evaluate x)).2 = r ∧ (t.evaluate x).1.Calm p s

theorem Instantiated.calm (h : s.Instantiated p t₀ x r) (hs : s.Owned) (hcalm : s.Calm p s') :
    s'.Instantiated p t₀ x r := by
  obtain ⟨f, s₀, hprimed, hx, hr, hbefore⟩ := h
  exact ⟨f, s₀, hprimed, hx, hr,
    hbefore.trans hcalm (hprimed.follows.instantiate x).1.toOwned hs⟩

theorem HasRun.calm (h : s.HasRun p t₀ x r) (hs : s.Owned) (hcalm : s.Calm p s') :
    s'.HasRun p t₀ x r := by
  obtain ⟨t, hinstantiated, hfollows, hplain, hr, hbefore⟩ := h
  exact ⟨t, hinstantiated, hfollows, hplain, hr,
    hbefore.trans hcalm (hfollows.evaluate x).1.toOwned hs⟩

/-- To instantiate a module comes to the same in every store. -/
theorem Instantiated.same (h : s.Instantiated p t₀ x r) (h' : s'.Instantiated p' t₀ x' r')
    (hsame : p.Same p') (hs : s.Follows p) (hs' : s'.Follows p') : r = r' ∧ (r = .ok () →
      ∃ R C, BiUnique R ∧ BiUnique C ∧ R x x' ∧ s.Alike R C s' ∧
        ∀ y y', R y y' → (s.status y).isEntered = true) := by
  obtain ⟨f, s₀, hprimed, rfl, rfl, hcalm⟩ := h
  obtain ⟨f', s₀', hprimed', rfl, rfl, hcalm'⟩ := h'
  have hunits := hprimed.biUnique_twins hprimed' hsame
  have htwins : Twins p t₀ f f' (f t₀) (f' t₀) := ⟨t₀, .refl, rfl, rfl⟩
  obtain ⟨hresult, halike⟩ := (hprimed.alike hprimed' hsame).instantiate hunits
    hprimed.follows.noManifests hprimed'.follows.noManifests htwins
  refine ⟨hresult, fun hok => ⟨_, _, hunits, hprimed.biUnique_twinCells hprimed' hsame, htwins,
    halike.calm hcalm hcalm' (hs.tables.trans (hsame.tables.trans hs'.tables.symm)) ?_, ?_⟩⟩
  · rintro y y' ⟨t, ht, rfl, -⟩
    exact hprimed.entered hok ht
  · rintro y y' ⟨t, ht, rfl, -⟩
    exact hcalm.onward.entered _ (hprimed.entered hok ht)

/-- So does it to run the module, and its exports show the same values afterwards. -/
theorem HasRun.same (h : s.HasRun p t₀ x r) (h' : s'.HasRun p' t₀ x' r') (hsame : p.Same p')
    (hs : s.Follows p) (hs' : s'.Follows p') : r = r' ∧
      ∀ unit unit', s.unit? x = some unit → s'.unit? x' = some unit' →
        unit.exports.read s.cells = unit'.exports.read s'.cells := by
  obtain ⟨t, hinstantiated, hfollows, hplain, rfl, hcalm⟩ := h
  obtain ⟨t', hinstantiated', hfollows', hplain', rfl, hcalm'⟩ := h'
  obtain ⟨-, hboth⟩ := hinstantiated.same hinstantiated' hsame hfollows hfollows'
  obtain ⟨R, C, hR, hC, hx, halike, hentered⟩ := hboth rfl
  obtain ⟨hresult, hafter⟩ := halike.evaluate hR hC hplain hplain' hx
  refine ⟨hresult, fun unit unit' hunit hunit' => ?_⟩
  have hend := hafter.calm hcalm hcalm' (hs.tables.trans (hsame.tables.trans hs'.tables.symm))
    fun y y' hy => (onward_evaluate hplain.noManifests x).entered y (hentered y y' hy)
  obtain ⟨_, _, hunit₁, hunit₂, hunits⟩ := hend.units x x' hx
  cases hunit.symm.trans hunit₁
  cases hunit'.symm.trans hunit₂
  exact hunits.exports.read hend.cells

end Store

end ModuleLoader
