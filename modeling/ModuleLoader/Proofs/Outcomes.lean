import Mathlib.Logic.Relation
import ModuleLoader.Loader.State
import ModuleLoader.Proofs.Binding
import ModuleLoader.Proofs.Bodies
/-!
# What a module comes to

The files, libraries and settings of a loader say what each module is and where its specifiers lead.
With what the functions of the host do they also say what comes of running the module: whether it goes
well, with which completion, and which values its exports have afterwards. No store and no order of
events has a part in that.

Results:
1. `Project`, `Content`, `Project.leads`: modules as they are before anything is loaded.
2. `Project.Yields`: what comes of running a module.
3. `Yields.exported`: a module that comes to anything shows all of its exports.
4. `Yields.unique`: it comes to one thing only.
-/
namespace ModuleLoader

open Script (Want)

/-- What a module is before it is loaded. -/
inductive Content
  | script (program : Script.Program) (names : Script.Declarations)
  | library (names : List String) (table : Table)

namespace Content

/-- The specifiers that the module imports from. -/
def specifiers : Content → List String
  | script program _ => program.specifiers
  | library .. => []

/-- The names that the module exports. -/
def exported : Content → List String
  | script _ names => names.exports.map Prod.fst
  | library names _ => (names.mergeSort nameLe).eraseDups

end Content

/-- The exported names with the values of the locals behind them. -/
def Script.Declarations.shown (names : Declarations) (values : List (String × Value)) :
    List (String × Value) :=
  names.exports.filterMap fun (exported, here) =>
    (values.lookup here).map fun v => (exported, v)

/-- The locals of a script that has not run. -/
def Script.Declarations.untouched (names : Declarations) : List (String × Value) :=
  names.locals.eraseDups.map fun name => (name, .undefined)

/-- The value that each imported name gets from what the modules behind the specifiers export. -/
def Script.Program.imported (program : Program) (values : String → List (String × Value))
    (name : String) : Option Value :=
  (program.wants.find? fun w => w.here = name).bind fun w =>
    (values w.specifier).lookup w.imported

/-- What a loader finds when it begins. -/
structure Project where
  files : Files
  registry : Registry
  tables : Tables
  settings : Settings
  functions : HostFunctions

namespace Project

variable {p : Project} {t t' : Resolved} {c : Content} {program : Script.Program}
  {names : Script.Declarations} {values values' : List (String × Value)}
  {r r' : Except Unit (Option Value)}

/-- The library that is registered behind the path of a URL. -/
def library? (p : Project) (url : Url) : Option Library :=
  (Host.builtinId? p.settings.builtinPrefix url.path.text).bind (p.registry.load? p.tables)

/-- What a module is, if it compiles or its library is registered. -/
def content? (p : Project) (t : Resolved) : Option Content :=
  match t.format with
  | .js => do
    let source ← (t.url.source p.files none).toOption
    let program ← (Script.parse source).toOption
    let names ← (Script.declarations program).toOption
    return .script program names
  | .builtin => (p.library? t.url).map fun library =>
    .library library.names (p.tables.read library.table)
  | .remote => none

/-- Where a specifier of a module leads. -/
def leads (p : Project) (t : Resolved) (specifier : String) : Except LoadError Resolved :=
  p.settings.resolve p.files specifier (some t.url)

/-- One module imports from another. -/
def Imports (p : Project) (t t' : Resolved) : Prop :=
  ∃ c, p.content? t = some c ∧ ∃ specifier ∈ c.specifiers, p.leads t specifier = .ok t'

/-- What comes of running a module: the completion, if it goes well, and the values of its exports. -/
inductive Yields (p : Project) :
    Resolved → Except Unit (Option Value) → List (String × Value) → Prop
  /-- A library shows what its table has. -/
  | library {t : Resolved} {names : List String} {table : Table} :
      p.content? t = some (.library names table) →
      p.Yields t (.ok none) ((names.mergeSort nameLe).eraseDups.map fun name =>
        (name, (table.get? name).getD .undefined))
  /-- A script does not run if it asks for a name that is not exported. -/
  | lacks {t t' : Resolved} {program : Script.Program} {names : Script.Declarations} {w : Want}
      {c : Content} :
      p.content? t = some (.script program names) → w ∈ program.wants →
      p.leads t w.specifier = .ok t' → p.content? t' = some c → w.imported ∉ c.exported →
      p.Yields t (.error ()) (names.shown names.untouched)
  /-- Nor does it run if something that it imports from fails. -/
  | stuck {t t' : Resolved} {program : Script.Program} {names : Script.Declarations}
      {specifier : String} {values : List (String × Value)} :
      p.content? t = some (.script program names) → specifier ∈ program.specifiers →
      p.leads t specifier = .ok t' → p.Yields t' (.error ()) values →
      p.Yields t (.error ()) (names.shown names.untouched)
  /-- Otherwise it runs with the values of its imports, on cells of its own. -/
  | ran {t : Resolved} {program : Script.Program} {names : Script.Declarations}
      {behind : String → Resolved} {completion : String → Option Value}
      {values : String → List (String × Value)} {body : Script.Bindings} {cells : Cells} :
      p.content? t = some (.script program names) →
      (∀ specifier ∈ program.specifiers, p.leads t specifier = .ok (behind specifier)) →
      (∀ specifier ∈ program.specifiers,
        p.Yields (behind specifier) (.ok (completion specifier)) (values specifier)) →
      (∀ w ∈ program.wants, ((values w.specifier).lookup w.imported).isSome = true) →
      body.Apart cells → body.values cells = (names.untouched, program.imported values) →
      cells.functions = p.functions →
      p.Yields t ((program.run body cells).2.mapError fun _ => ())
        (names.shown (body.locals.read (program.run body cells).1))

/-! ## Contents and exports -/

/-- A script is what its source parses to. -/
theorem source_of_content? {url : Url} (h : p.content? ⟨url, .js⟩ = some c) :
    ∃ source program names, url.source p.files none = .ok source ∧
      Script.parse source = .ok program ∧ Script.declarations program = .ok names ∧
      c = .script program names := by
  obtain ⟨source, hsource, h⟩ := Option.bind_eq_some_iff.mp h
  obtain ⟨program, hprogram, h⟩ := Option.bind_eq_some_iff.mp h
  obtain ⟨names, hnames, h⟩ := Option.bind_eq_some_iff.mp h
  cases h
  have hok : ∀ {ε α : Type} {r : Except ε α} {a : α}, r.toOption = some a → r = .ok a := by
    intro ε α r a hr
    cases r with
    | ok _ => cases hr; rfl
    | error _ => cases hr
  exact ⟨source, program, names, hok hsource, hok hprogram, hok hnames, rfl⟩

theorem content?_of_library {url : Url} {library : Library} (h : p.library? url = some library) :
    p.content? ⟨url, .builtin⟩ = some (.library library.names (p.tables.read library.table)) := by
  unfold content?
  rw [h]
  rfl

theorem declarations_of_content? (h : p.content? t = some (.script program names)) :
    Script.declarations program = .ok names := by
  obtain ⟨url, format⟩ := t
  cases format with
  | js =>
    obtain ⟨_, _, _, -, -, hnames, heq⟩ := source_of_content? h
    cases heq
    exact hnames
  | builtin =>
    obtain ⟨_, -, heq⟩ := Option.map_eq_some_iff.mp h
    cases heq
  | remote => cases h

/-- All exports are shown where all locals have values. -/
theorem map_fst_shown (hnames : names.Distinct)
    (hlocals : values.map Prod.fst = names.locals.eraseDups) :
    (names.shown values).map Prod.fst = names.exports.map Prod.fst := by
  have hhere : ∀ e ∈ names.exports, ∃ v, values.lookup e.2 = some v := by
    intro e he
    have hin : e.2 ∈ values.map Prod.fst := by
      rw [hlocals, List.mem_eraseDups]
      exact hnames.here e he
    obtain ⟨entry, hentry, heq⟩ := List.mem_map.mp hin
    refine Option.isSome_iff_exists.mp (List.lookup_isSome_iff.mpr ⟨entry, hentry, ?_⟩)
    simp [heq]
  unfold Script.Declarations.shown
  generalize names.exports = exports at hhere
  induction exports with
  | nil => rfl
  | cons e rest ih =>
    obtain ⟨v, hv⟩ := hhere e List.mem_cons_self
    rw [List.filterMap_cons, List.map_cons, ← ih fun e he => hhere e (List.mem_cons_of_mem _ he)]
    simp only [hv, Option.map_some, List.map_cons]

theorem map_fst_untouched (names : Script.Declarations) :
    names.untouched.map Prod.fst = names.locals.eraseDups := by
  unfold Script.Declarations.untouched
  rw [List.map_map]
  exact List.map_id _

/-- A module that comes to anything shows all of its exports. -/
theorem Yields.exported (h : p.Yields t r values) :
    ∃ c, p.content? t = some c ∧ values.map Prod.fst = c.exported := by
  have huntouched : ∀ {program names}, p.content? t = some (.script program names) →
      (names.shown names.untouched).map Prod.fst = names.exports.map Prod.fst := fun hcontent =>
    map_fst_shown (Script.Declarations.distinct_declarations
      (declarations_of_content? hcontent)).1 (map_fst_untouched _)
  cases h with
  | library hcontent =>
    refine ⟨_, hcontent, ?_⟩
    rw [List.map_map]
    exact List.map_id _
  | lacks hcontent => exact ⟨_, hcontent, huntouched hcontent⟩
  | stuck hcontent => exact ⟨_, hcontent, huntouched hcontent⟩
  | @ran _ program names _ _ _ body cells hcontent _ _ _ _ hvalues _ =>
    refine ⟨_, hcontent, map_fst_shown (Script.Declarations.distinct_declarations
      (declarations_of_content? hcontent)).1 ?_⟩
    have huntouched : body.locals.read cells = names.untouched := congrArg Prod.fst hvalues
    rw [Scope.map_fst_read, ← map_fst_untouched, ← huntouched, Scope.map_fst_read]

/-! ## One outcome -/

/-- A module that runs finds all that it asks for. -/
theorem not_lacks {w : Want} (hyields : p.Yields t' r values)
    (hsome : (values.lookup w.imported).isSome = true) (hcontent : p.content? t' = some c) :
    w.imported ∈ c.exported := by
  obtain ⟨c', hcontent', hexported⟩ := hyields.exported
  cases hcontent.symm.trans hcontent'
  obtain ⟨entry, hentry, heq⟩ := List.lookup_isSome_iff.mp hsome
  rw [← hexported]
  exact List.mem_map.mpr ⟨entry, hentry, (beq_iff_eq.mp heq).symm⟩

/-- A module comes to one thing only. -/
theorem Yields.unique (h : p.Yields t r values) (h' : p.Yields t r' values') :
    r = r' ∧ values = values' := by
  induction h generalizing r' values' with
  | library hcontent =>
    cases h' with
    | library hcontent' => cases hcontent.symm.trans hcontent'; exact ⟨rfl, rfl⟩
    | lacks hcontent' | stuck hcontent' | ran hcontent' => cases hcontent.symm.trans hcontent'
  | lacks hcontent hw hleads hother hlacks =>
    cases h' with
    | library hcontent' => cases hcontent.symm.trans hcontent'
    | lacks hcontent' | stuck hcontent' => cases hcontent.symm.trans hcontent'; exact ⟨rfl, rfl⟩
    | ran hcontent' hbehind hyields hsome =>
      cases hcontent.symm.trans hcontent'
      have hin := Store.specifier_of_want hw
      cases hleads.symm.trans (hbehind _ hin)
      exact absurd (not_lacks (hyields _ hin) (hsome _ hw) hother) hlacks
  | stuck hcontent hin hleads hyields ih =>
    cases h' with
    | library hcontent' => cases hcontent.symm.trans hcontent'
    | lacks hcontent' | stuck hcontent' => cases hcontent.symm.trans hcontent'; exact ⟨rfl, rfl⟩
    | ran hcontent' hbehind hyields' =>
      cases hcontent.symm.trans hcontent'
      cases hleads.symm.trans (hbehind _ hin)
      cases (ih (hyields' _ hin)).1
  | @ran t program names behind completion vals body cells hcontent hbehind hyields hsome hapart
      hvalues hfunctions ih =>
    cases h' with
    | library hcontent' => cases hcontent.symm.trans hcontent'
    | lacks hcontent' hw hleads hother hlacks =>
      cases hcontent.symm.trans hcontent'
      have hin := Store.specifier_of_want hw
      cases hleads.symm.trans (hbehind _ hin)
      exact absurd (not_lacks (hyields _ hin) (hsome _ hw) hother) hlacks
    | stuck hcontent' hin hleads hyields' =>
      cases hcontent.symm.trans hcontent'
      cases hleads.symm.trans (hbehind _ hin)
      cases (ih _ hin hyields').1
    | @ran _ _ _ behind' completion' vals' body' cells' hcontent' hbehind' hyields' hsome' hapart'
        hvalues' hfunctions' =>
      cases hcontent.symm.trans hcontent'
      -- the modules behind the specifiers have come to the same, so the bodies begin alike
      have hsame : ∀ specifier ∈ program.specifiers, vals specifier = vals' specifier := by
        intro specifier hin
        have hother := hyields' specifier hin
        rw [← Except.ok.inj ((hbehind _ hin).symm.trans (hbehind' _ hin))] at hother
        exact (ih specifier hin hother).2
      have himported : program.imported vals = program.imported vals' := by
        funext name
        unfold Script.Program.imported
        refine Option.bind_congr fun w hw => ?_
        rw [hsame w.specifier (Store.specifier_of_want (List.mem_of_find?_eq_some hw))]
      have hagree : Script.Agree body cells body' cells' :=
        ⟨hapart, hapart', by rw [hvalues, hvalues', himported], hfunctions.trans hfunctions'.symm⟩
      obtain ⟨hresult, hends⟩ := Script.Program.run_agree hagree program
      exact ⟨by rw [hresult], congrArg names.shown (congrArg Prod.fst hends)⟩

end Project

end ModuleLoader
