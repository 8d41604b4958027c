import ModuleLoader.Proofs.Names

/-!
# Which names a script may declare and export

A script is checked before it gets its cells. What it may declare and export can be said without the
check: the names that it introduces are distinct, its export lists name what it declares, and no name
is exported twice. The check refuses exactly the other scripts, and tells the first thing that is
wrong, where everything that introduces a name comes before the first export list.

Results:
1. `Program.introduced`, `Program.listed`, `Program.exports`: the names of a script, read off its
   statements.
2. `foldlM_eq_error`: where a checked row of items is refused.
3. `introduce_eq_ok`, `addExport_eq_ok`: which rows of introductions and of exports pass, and what is
   known behind them.
4. `declarations_eq_ok`, `declarations_eq_error`: the check against the rules.
5. `compile_checks`: the same for a source text, and the cells of a script that passes.
-/

namespace ModuleLoader

namespace Script

/-! ## The names of a script -/

/-- The names that a statement introduces: what an import is called here, and what is declared. -/
def Statement.introduced : Statement → List String
  | .importFrom decl => decl.bindings.map ImportBinding.here
  | .declare name .. => [name]
  | _ => []

/-- What a statement exports by a list. -/
def Statement.listed : Statement → List ExportBinding
  | .exportList bindings => bindings
  | _ => []

namespace Program

/-- All introduced names in source order, each as often as it is introduced. -/
def introduced (p : Program) : List String := p.statements.flatMap Statement.introduced

/-- The names that imports introduce. -/
def importedHere (p : Program) : List String := p.wants.map Want.here

/-- The declared names that are exported as themselves. -/
def exportedHere (p : Program) : List String :=
  p.statements.filterMap fun
    | .declare name _ true _ => some name
    | _ => none

/-- The entries of all export lists in source order. -/
def listed (p : Program) : List ExportBinding := p.statements.flatMap Statement.listed

/-- All exported names with the declared names behind them. -/
def exports (p : Program) : List (String × String) :=
  (p.exportedHere.map fun name => (name, name)) ++
    p.listed.map fun entry => (entry.exported, entry.here)

/-- These entries export what is declared, and no name a second time. -/
structure Exportable (p : Program) (entries : List ExportBinding) : Prop where
  here : ∀ entry ∈ entries, entry.here ∈ p.declared
  distinct : (p.exportedHere ++ entries.map ExportBinding.exported).Nodup

/-- The rules for the names of a script. -/
structure WellDeclared (p : Program) : Prop where
  distinct : p.introduced.Nodup
  exports : p.Exportable p.listed

/-- The first rule that a script breaks, and how that is told. Export lists are looked at only where
all introduced names are distinct. -/
inductive Breaks (p : Program) : ScriptError → Prop
  | introduced {before after : List String} {name : String} :
      p.introduced = before ++ name :: after → before.Nodup → name ∈ before →
      Breaks p (.duplicate name)
  | imported {before after : List ExportBinding} {entry : ExportBinding} : p.introduced.Nodup →
      p.listed = before ++ entry :: after → p.Exportable before →
      entry.here ∉ p.declared → entry.here ∈ p.importedHere →
      Breaks p (.reexported entry.span.position entry.here)
  | unknown {before after : List ExportBinding} {entry : ExportBinding} : p.introduced.Nodup →
      p.listed = before ++ entry :: after → p.Exportable before →
      entry.here ∉ p.declared → entry.here ∉ p.importedHere →
      Breaks p (.undeclared entry.span.position entry.here)
  | exported {before after : List ExportBinding} {entry : ExportBinding} : p.introduced.Nodup →
      p.listed = before ++ entry :: after → p.Exportable before → entry.here ∈ p.declared →
      entry.exported ∈ p.exportedHere ++ before.map ExportBinding.exported →
      Breaks p (.duplicate entry.exported)

end Program

/-! ## Rows of items -/

section Rows

variable {α β δ ε : Type} {f : δ → α → Except ε δ} {items : List α} {d : δ} {e : ε}

/-- A row is refused at the first item that does not go with what comes before it. -/
theorem foldlM_eq_error : items.foldlM f d = .error e ↔ ∃ before a after d',
    items = before ++ a :: after ∧ before.foldlM f d = .ok d' ∧ f d' a = .error e := by
  constructor
  · intro h
    induction items generalizing d with
    | nil => cases h
    | cons a rest ih =>
      rw [List.foldlM_cons] at h
      cases ha : f d a with
      | error fault =>
        rw [ha] at h
        cases h
        exact ⟨[], a, rest, d, rfl, rfl, ha⟩
      | ok d₁ =>
        rw [ha] at h
        obtain ⟨before, b, after, d', rfl, hbefore, hb⟩ := ih h
        refine ⟨a :: before, b, after, d', rfl, ?_, hb⟩
        rw [List.foldlM_cons, ha]
        exact hbefore
  · rintro ⟨before, a, after, d', rfl, hbefore, ha⟩
    rw [List.foldlM_append, hbefore]
    show (a :: after).foldlM f d' = _
    rw [List.foldlM_cons, ha]
    rfl

theorem foldlM_flatMap (inner : β → List α) (groups : List β) (d : δ) :
    groups.foldlM (fun d g => (inner g).foldlM f d) d = (groups.flatMap inner).foldlM f d := by
  induction groups generalizing d with
  | nil => rfl
  | cons g rest ih =>
    rw [List.foldlM_cons, List.flatMap_cons, List.foldlM_append]
    simp only [ih]

/-- The names behind a new one are new and distinct, and other than that one. -/
theorem distinct_cons_iff {known : α → Prop} {a : α} (ha : ¬ known a) :
    (items.Nodup ∧ ∀ b ∈ items, ¬ known b ∧ ¬ b = a) ↔
      (a ∉ items ∧ items.Nodup) ∧ ¬ known a ∧ ∀ b ∈ items, ¬ known b := by
  constructor
  · rintro ⟨hdistinct, hnew⟩
    exact ⟨⟨fun hin => (hnew a hin).2 rfl, hdistinct⟩, ha, fun b hb => (hnew b hb).1⟩
  · rintro ⟨⟨hfirst, hdistinct⟩, -, hnew⟩
    exact ⟨hdistinct, fun b hb => ⟨hnew b hb, fun heq => hfirst (heq ▸ hb)⟩⟩

end Rows

/-! ## Introductions -/

/-- One name that is introduced, by an import or by a declaration. -/
inductive Introduction
  | imports (binding : ImportBinding)
  | declares (name : String) (exported : Bool)

namespace Introduction

def name : Introduction → String
  | imports binding => binding.here
  | declares name _ => name

/-- What an introduction adds to what is known. -/
def adds : Introduction → Declarations
  | imports binding => { imported := [binding.here] }
  | declares name exported =>
    { locals := [name], exports := if exported then [(name, name)] else [] }

theorem mem_adds {i : Introduction} {name : String} :
    name ∈ i.adds.imported ∨ name ∈ i.adds.locals ↔ name = i.name := by
  cases i <;> simp [adds, Introduction.name]

end Introduction

def Statement.introductions : Statement → List Introduction
  | .importFrom decl => decl.bindings.map .imports
  | .declare name _ exported _ => [.declares name exported]
  | _ => []

def Program.introductions (p : Program) : List Introduction :=
  p.statements.flatMap Statement.introductions

theorem Statement.map_name_introductions (s : Statement) :
    s.introductions.map Introduction.name = s.introduced := by
  cases s with
  | importFrom decl => exact List.map_map
  | _ => rfl

theorem Program.map_name_introductions (p : Program) :
    p.introductions.map Introduction.name = p.introduced := by
  unfold introductions introduced
  rw [List.map_flatMap]
  simp only [Statement.map_name_introductions]

namespace Declarations

variable {d d' : Declarations}

/-- One after the other. -/
def append (d more : Declarations) : Declarations :=
  ⟨d.imported ++ more.imported, d.locals ++ more.locals, d.exports ++ more.exports⟩

theorem append_empty (d : Declarations) : d.append {} = d := by
  unfold append
  simp only [List.append_nil]

/-- What some introductions add. -/
def ofIntroductions (is : List Introduction) : Declarations :=
  ⟨is.flatMap (·.adds.imported), is.flatMap (·.adds.locals), is.flatMap (·.adds.exports)⟩

def introduce (d : Declarations) : Introduction → Except ScriptError Declarations
  | .imports binding => d.addImport binding
  | .declares name exported => d.addLocal name exported

theorem introduce_eq (d : Declarations) (i : Introduction) : d.introduce i =
    if d.declares i.name then .error (.duplicate i.name) else .ok (d.append i.adds) := by
  cases i with
  | imports binding =>
    simp only [introduce, addImport, Introduction.name, append, Introduction.adds, List.append_nil]
  | declares name exported =>
    cases exported <;>
      simp only [introduce, addLocal, Introduction.name, append, Introduction.adds,
        List.append_nil, if_true, if_false, Bool.false_eq_true]

theorem addDeclared_eq (d : Declarations) (s : Statement) :
    d.addDeclared s = s.introductions.foldlM introduce d := by
  cases s with
  | importFrom decl =>
    show _ = (decl.bindings.map Introduction.imports).foldlM introduce d
    rw [List.foldlM_map]
    rfl
  | declare name init exported span =>
    show d.addLocal name exported = d.addLocal name exported >>= pure
    rw [bind_pure]
  | _ => rfl

theorem declares_iff {name : String} :
    d.declares name = true ↔ name ∈ d.imported ∨ name ∈ d.locals := by
  simp [declares]

/-- Introductions pass if all their names are new and distinct, and all of them are known then. -/
theorem introduce_eq_ok {is : List Introduction} : is.foldlM introduce d = .ok d' ↔
    ((is.map Introduction.name).Nodup ∧
      ∀ name ∈ is.map Introduction.name, ¬ d.declares name = true) ∧
    d' = d.append (ofIntroductions is) := by
  induction is generalizing d with
  | nil =>
    rw [show d.append (ofIntroductions []) = d from append_empty d]
    exact ⟨fun h => by cases h; simp, fun h => by rw [h.2]; rfl⟩
  | cons i rest ih =>
    have hnext : ∀ name, (d.append i.adds).declares name = true ↔
        d.declares name = true ∨ name = i.name := by
      intro name
      rw [declares_iff, declares_iff, ← Introduction.mem_adds]
      simp only [append, List.mem_append]
      tauto
    have hadds : (d.append i.adds).append (ofIntroductions rest) =
        d.append (ofIntroductions (i :: rest)) := by
      simp only [append, ofIntroductions, List.flatMap_cons, List.append_assoc]
    rw [List.foldlM_cons, introduce_eq]
    by_cases hi : d.declares i.name = true
    · rw [if_pos hi]
      refine iff_of_false (fun h => by cases h) ?_
      rintro ⟨⟨-, hnew⟩, -⟩
      exact hnew i.name List.mem_cons_self hi
    · rw [if_neg hi]
      show rest.foldlM introduce (d.append i.adds) = .ok d' ↔ _
      rw [ih, hadds, List.map_cons, List.nodup_cons, List.forall_mem_cons]
      simp only [hnext, not_or]
      exact and_congr_left fun _ => distinct_cons_iff hi

/-! ## Export lists -/

/-- What some entries of export lists add. -/
def ofEntries (entries : List ExportBinding) : Declarations :=
  { exports := entries.map fun entry => (entry.exported, entry.here) }

theorem addListed_eq (d : Declarations) (s : Statement) :
    d.addListed s = s.listed.foldlM addExport d := by
  cases s <;> rfl

theorem exportsName_iff {name : String} :
    d.exportsName name = true ↔ name ∈ d.exports.map Prod.fst := by
  simp [exportsName]

/-- Entries pass if they name locals and export new and distinct names. -/
theorem addExport_eq_ok {entries : List ExportBinding} : entries.foldlM addExport d = .ok d' ↔
    ((∀ entry ∈ entries, entry.here ∈ d.locals) ∧
      (entries.map ExportBinding.exported).Nodup ∧
      ∀ name ∈ entries.map ExportBinding.exported, name ∉ d.exports.map Prod.fst) ∧
    d' = d.append (ofEntries entries) := by
  induction entries generalizing d with
  | nil =>
    rw [show d.append (ofEntries []) = d from append_empty d]
    exact ⟨fun h => by cases h; simp, fun h => by rw [h.2]; rfl⟩
  | cons entry rest ih =>
    rw [List.foldlM_cons]
    unfold addExport
    by_cases hhere : d.locals.contains entry.here = true
    · rw [if_pos hhere]
      by_cases htwice : d.exportsName entry.exported = true
      · rw [if_pos htwice]
        refine iff_of_false (fun h => by cases h) ?_
        rintro ⟨⟨-, -, hnew⟩, -⟩
        exact hnew entry.exported List.mem_cons_self (exportsName_iff.mp htwice)
      · rw [if_neg htwice]
        show rest.foldlM addExport { d with exports := d.exports ++ [(entry.exported, entry.here)] } =
          .ok d' ↔ _
        rw [ih, List.map_cons, List.nodup_cons, List.forall_mem_cons, List.forall_mem_cons]
        have hadds : ({ d with exports := d.exports ++ [(entry.exported, entry.here)] } :
            Declarations).append (ofEntries rest) = d.append (ofEntries (entry :: rest)) := by
          simp only [append, ofEntries, List.map_cons, List.append_assoc, List.singleton_append]
        rw [hadds]
        rw [exportsName_iff] at htwice
        have hlocal : entry.here ∈ d.locals := List.contains_iff_mem.mp hhere
        simp only [List.map_append, List.mem_append, List.map_cons, List.map_nil,
          List.mem_singleton, not_or]
        have hlocals : (∀ entry ∈ rest, entry.here ∈ d.locals) ↔
            entry.here ∈ d.locals ∧ ∀ entry ∈ rest, entry.here ∈ d.locals :=
          ⟨fun h => ⟨hlocal, h⟩, And.right⟩
        exact and_congr_left fun _ => and_congr hlocals (distinct_cons_iff htwice)
    · rw [if_neg hhere]
      refine iff_of_false (fun h => by split at h <;> cases h) ?_
      rintro ⟨⟨hlocals, -⟩, -⟩
      exact hhere (List.contains_iff_mem.mpr (hlocals entry List.mem_cons_self))

/-- An entry does not pass if it names no local, or exports a name that is exported already. -/
theorem addExport_eq_error {entry : ExportBinding} {e : ScriptError} :
    d.addExport entry = .error e ↔
      (entry.here ∉ d.locals ∧ entry.here ∈ d.imported ∧
        e = .reexported entry.span.position entry.here) ∨
      (entry.here ∉ d.locals ∧ entry.here ∉ d.imported ∧
        e = .undeclared entry.span.position entry.here) ∨
      (entry.here ∈ d.locals ∧ entry.exported ∈ d.exports.map Prod.fst ∧
        e = .duplicate entry.exported) := by
  unfold addExport
  simp only [List.contains_iff_mem, exportsName_iff]
  by_cases hlocal : entry.here ∈ d.locals
  · by_cases hexported : entry.exported ∈ d.exports.map Prod.fst
    · simp [hlocal, hexported, eq_comm]
    · simp [hlocal, hexported]
  · by_cases himported : entry.here ∈ d.imported
    · simp [hlocal, himported, eq_comm]
    · simp [hlocal, himported, eq_comm]

end Declarations

/-! ## The check against the rules -/

section Check

open Declarations

variable {p : Program} {d : Declarations} {e : ScriptError}

theorem declarations_eq (p : Program) : declarations p =
    p.introductions.foldlM introduce {} >>= fun d => p.listed.foldlM addExport d := by
  unfold declarations Program.introductions Program.listed
  simp only [← foldlM_flatMap, ← addDeclared_eq, ← addListed_eq]

namespace Program

theorem imported_introductions (p : Program) :
    p.introductions.flatMap (·.adds.imported) = p.importedHere := by
  unfold introductions importedHere
  rw [map_here_wants, List.flatMap_assoc]
  congr 1
  funext s
  cases s with
  | importFrom decl =>
    show (decl.bindings.map Introduction.imports).flatMap (·.adds.imported) = decl.bindings.map _
    rw [List.flatMap_map]
    exact (List.map_eq_flatMap ..).symm
  | _ => rfl

theorem locals_introductions (p : Program) :
    p.introductions.flatMap (·.adds.locals) = p.declared := by
  unfold introductions declared
  rw [List.flatMap_assoc, List.filterMap_eq_flatMap_toList]
  congr 1
  funext s
  cases s with
  | importFrom decl => simp [Statement.introductions, List.flatMap_map, Introduction.adds]
  | _ => rfl

theorem exports_introductions (p : Program) : p.introductions.flatMap (·.adds.exports) =
    p.exportedHere.map fun name => (name, name) := by
  unfold introductions exportedHere
  rw [List.flatMap_assoc, List.filterMap_eq_flatMap_toList, List.map_flatMap]
  congr 1
  funext s
  cases s with
  | importFrom decl => simp [Statement.introductions, List.flatMap_map, Introduction.adds]
  | declare name init exported span => cases exported <;> rfl
  | _ => rfl

theorem exportedHere_sublist (p : Program) : p.exportedHere.Sublist p.introduced := by
  unfold exportedHere introduced
  induction p.statements with
  | nil => exact .slnil
  | cons s rest ih =>
    rw [List.flatMap_cons]
    cases s with
    | declare name init exported span =>
      cases exported with
      | true => exact ih.cons_cons name
      | false => exact ih.cons name
    | importFrom decl =>
      exact ih.trans (List.sublist_append_right _ _)
    | _ => exact ih

/-- What is known of the names of a script before its export lists are read. -/
def known (p : Program) : Declarations :=
  ⟨p.importedHere, p.declared, p.exportedHere.map fun name => (name, name)⟩

end Program

theorem introductions_eq_ok : p.introductions.foldlM introduce {} = .ok d ↔
    p.introduced.Nodup ∧ d = p.known := by
  have hknown : (({} : Declarations).append (ofIntroductions p.introductions)) = p.known := by
    unfold append ofIntroductions Program.known
    rw [p.imported_introductions, p.locals_introductions, p.exports_introductions]
    rfl
  rw [introduce_eq_ok, hknown, p.map_name_introductions]
  refine and_congr_left fun _ => and_iff_left fun name _ => ?_
  rw [declares_iff]
  simp

theorem introductions_eq_error : p.introductions.foldlM introduce {} = .error e ↔
    ∃ before after name, p.introduced = before ++ name :: after ∧ before.Nodup ∧ name ∈ before ∧
      e = .duplicate name := by
  have hdeclares : ∀ is name, (({} : Declarations).append (ofIntroductions is)).declares name = true ↔
      name ∈ is.map Introduction.name := by
    intro is name
    rw [declares_iff]
    simp only [append, ofIntroductions, List.nil_append, List.mem_flatMap, ← exists_or, ← and_or_left,
      Introduction.mem_adds, List.mem_map, eq_comm]
  rw [foldlM_eq_error, ← p.map_name_introductions]
  constructor
  · rintro ⟨before, i, after, d', hsplit, hbefore, herror⟩
    obtain ⟨⟨hdistinct, -⟩, rfl⟩ := introduce_eq_ok.mp hbefore
    rw [introduce_eq] at herror
    split at herror
    next hin =>
      cases herror
      refine ⟨before.map Introduction.name, after.map Introduction.name, i.name, ?_, hdistinct,
        (hdeclares before i.name).mp hin, rfl⟩
      rw [hsplit, List.map_append, List.map_cons]
    next => cases herror
  · rintro ⟨front, back, name, hsplit, hdistinct, hin, rfl⟩
    obtain ⟨before, more, hmore, rfl, hnames⟩ := List.map_eq_append_iff.mp hsplit
    obtain ⟨i, after, rfl, rfl, -⟩ := List.map_eq_cons_iff.mp hnames
    refine ⟨before, i, after, _, hmore, introduce_eq_ok.mpr ⟨⟨hdistinct, fun name _ => ?_⟩, rfl⟩, ?_⟩
    · rw [declares_iff]
      simp
    · rw [introduce_eq, if_pos ((hdeclares before i.name).mpr hin)]

theorem map_fst_known (p : Program) : p.known.exports.map Prod.fst = p.exportedHere := by
  unfold Program.known
  rw [List.map_map]
  exact List.map_id _

theorem listed_eq_ok {entries : List ExportBinding} (h : p.introduced.Nodup) :
    entries.foldlM addExport p.known = .ok d ↔
      p.Exportable entries ∧ d = p.known.append (ofEntries entries) := by
  rw [addExport_eq_ok, map_fst_known]
  refine and_congr_left fun _ => ⟨?_, ?_⟩
  · rintro ⟨hhere, hdistinct, hnew⟩
    refine ⟨hhere, List.nodup_append.mpr ⟨h.sublist p.exportedHere_sublist, hdistinct, ?_⟩⟩
    exact fun name hname other hother heq => hnew other hother (heq ▸ hname)
  · rintro ⟨hhere, hall⟩
    obtain ⟨-, hdistinct, hapart⟩ := List.nodup_append.mp hall
    exact ⟨hhere, hdistinct, fun name hname hother => hapart name hother name hname rfl⟩

/-- The check accepts a script that follows the rules, and knows its names then. -/
theorem declarations_eq_ok : declarations p = .ok d ↔
    p.WellDeclared ∧ d = p.known.append (ofEntries p.listed) := by
  rw [declarations_eq]
  cases hfirst : p.introductions.foldlM introduce {} with
  | error fault =>
    refine iff_of_false (fun h => by cases h) ?_
    rintro ⟨hrules, -⟩
    rw [introductions_eq_ok.mpr ⟨hrules.distinct, rfl⟩] at hfirst
    cases hfirst
  | ok known =>
    obtain ⟨hdistinct, rfl⟩ := introductions_eq_ok.mp hfirst
    exact (listed_eq_ok hdistinct).trans
      (and_congr_left fun _ => ⟨fun h => ⟨hdistinct, h⟩, fun h => h.exports⟩)

theorem listed_eq_error (h : p.introduced.Nodup) :
    p.listed.foldlM addExport p.known = .error e ↔ ∃ before entry after,
      p.listed = before ++ entry :: after ∧ p.Exportable before ∧
      (entry.here ∉ p.declared ∧ entry.here ∈ p.importedHere ∧
          e = .reexported entry.span.position entry.here ∨
        entry.here ∉ p.declared ∧ entry.here ∉ p.importedHere ∧
          e = .undeclared entry.span.position entry.here ∨
        entry.here ∈ p.declared ∧
          entry.exported ∈ p.exportedHere ++ before.map ExportBinding.exported ∧
          e = .duplicate entry.exported) := by
  have hentry : ∀ before entry, (p.known.append (ofEntries before)).addExport entry = .error e ↔
      _ := fun before entry => addExport_eq_error
  have hlocals : ∀ before, (p.known.append (ofEntries before)).locals = p.declared :=
    fun before => List.append_nil _
  have himported : ∀ before, (p.known.append (ofEntries before)).imported = p.importedHere :=
    fun before => List.append_nil _
  have hexports : ∀ before, (p.known.append (ofEntries before)).exports.map Prod.fst =
      p.exportedHere ++ before.map ExportBinding.exported := by
    intro before
    simp only [append, ofEntries, List.map_append, map_fst_known, List.map_map]
    rfl
  simp only [hlocals, himported, hexports] at hentry
  rw [foldlM_eq_error]
  constructor
  · rintro ⟨before, entry, after, d', hsplit, hbefore, herror⟩
    obtain ⟨hexportable, rfl⟩ := (listed_eq_ok h).mp hbefore
    exact ⟨before, entry, after, hsplit, hexportable, (hentry before entry).mp herror⟩
  · rintro ⟨before, entry, after, hsplit, hexportable, herror⟩
    exact ⟨before, entry, after, _, hsplit, (listed_eq_ok h).mpr ⟨hexportable, rfl⟩,
      (hentry before entry).mpr herror⟩

/-- The check tells the first rule that is broken. -/
theorem declarations_eq_error : declarations p = .error e ↔ p.Breaks e := by
  rw [declarations_eq]
  constructor
  · intro h
    cases hfirst : p.introductions.foldlM introduce {} with
    | error fault =>
      rw [hfirst] at h
      cases h
      obtain ⟨before, after, name, hsplit, hdistinct, hin, rfl⟩ := introductions_eq_error.mp hfirst
      exact .introduced hsplit hdistinct hin
    | ok known =>
      obtain ⟨hdistinct, rfl⟩ := introductions_eq_ok.mp hfirst
      rw [hfirst] at h
      obtain ⟨before, entry, after, hsplit, hexportable, ⟨hhere, hin, rfl⟩ | ⟨hhere, hout, rfl⟩ |
        ⟨hhere, htwice, rfl⟩⟩ := (listed_eq_error hdistinct).mp h
      · exact .imported hdistinct hsplit hexportable hhere hin
      · exact .unknown hdistinct hsplit hexportable hhere hout
      · exact .exported hdistinct hsplit hexportable hhere htwice
  · have hlists : p.introduced.Nodup → p.listed.foldlM addExport p.known = .error e →
        (p.introductions.foldlM introduce {} >>= fun d => p.listed.foldlM addExport d) =
          .error e := by
      intro hdistinct herror
      rw [introductions_eq_ok.mpr ⟨hdistinct, rfl⟩]
      exact herror
    intro h
    cases h with
    | introduced hsplit hdistinct hin =>
      rw [introductions_eq_error.mpr ⟨_, _, _, hsplit, hdistinct, hin, rfl⟩]
      rfl
    | imported hdistinct hsplit hexportable hhere hin =>
      exact hlists hdistinct ((listed_eq_error hdistinct).mpr
        ⟨_, _, _, hsplit, hexportable, .inl ⟨hhere, hin, rfl⟩⟩)
    | unknown hdistinct hsplit hexportable hhere hout =>
      exact hlists hdistinct ((listed_eq_error hdistinct).mpr
        ⟨_, _, _, hsplit, hexportable, .inr (.inl ⟨hhere, hout, rfl⟩)⟩)
    | exported hdistinct hsplit hexportable hhere htwice =>
      exact hlists hdistinct ((listed_eq_error hdistinct).mpr
        ⟨_, _, _, hsplit, hexportable, .inr (.inr ⟨hhere, htwice, rfl⟩)⟩)

end Check

end Script

/-! ## Scripts that pass the check -/

open Script

theorem eraseDups_of_nodup {items : List String} (h : items.Nodup) : items.eraseDups = items := by
  induction items with
  | nil => rfl
  | cons a rest ih =>
    obtain ⟨ha, hrest⟩ := List.nodup_cons.mp h
    have hkeep : rest.filter (fun b => !b == a) = rest :=
      List.filter_eq_self.mpr fun b hb => by
        have hne : b ≠ a := fun heq => ha (heq ▸ hb)
        simpa using hne
    rw [List.eraseDups_cons, hkeep, ih hrest]

namespace Scope

variable {scope : Scope} {exports : List (String × String)}

theorem isSome_cell? {name : String} : (scope.cell? name).isSome ↔ name ∈ scope.map Prod.fst := by
  rw [← not_iff_not, Bool.not_eq_true, Option.isSome_eq_false_iff, Option.isNone_iff_eq_none]
  exact cell?_eq_none

/-- Exported names with the cells of a scope behind them. -/
def share (scope : Scope) (exports : List (String × String)) : Scope :=
  exports.filterMap fun (exported, here) =>
    (scope.cell? here).map fun cell => (exported, cell)

/-- Nothing is left out where all exports have cells. -/
theorem map_fst_share (h : ∀ e ∈ exports, (scope.cell? e.2).isSome) :
    (scope.share exports).map Prod.fst = exports.map Prod.fst := by
  unfold share
  induction exports with
  | nil => rfl
  | cons e rest ih =>
    obtain ⟨cell, hcell⟩ := Option.isSome_iff_exists.mp (h e List.mem_cons_self)
    rw [List.filterMap_cons, List.map_cons, ← ih fun e he => h e (List.mem_cons_of_mem _ he)]
    simp only [hcell, Option.map_some, List.map_cons]

/-- An exported name has the cell of the local, also in the namespace. -/
theorem cell?_share (h : ∀ e ∈ exports, (scope.cell? e.2).isSome)
    (hdistinct : (exports.map Prod.fst).Nodup) {e : String × String} (he : e ∈ exports) :
    ∃ cell, scope.cell? e.2 = some cell ∧ (scope.share exports).cell? e.1 = some cell ∧
      (Namespace.ofScope (scope.share exports)).cell? e.1 = some cell := by
  obtain ⟨cell, hcell⟩ := Option.isSome_iff_exists.mp (h e he)
  have hnodup : ((scope.share exports).map Prod.fst).Nodup := by
    rw [map_fst_share h]
    exact hdistinct
  have hin : (e.1, cell) ∈ scope.share exports :=
    List.mem_filterMap.mpr ⟨e, he, by simp only [hcell, Option.map_some]⟩
  have hexport := cell?_of_mem hnodup hin
  exact ⟨cell, hcell, hexport, (cell?_ofScope hnodup e.1).trans hexport⟩

end Scope

/-- A new script by its program, with the cells before and after it was made. Every declared name has
an undefined cell of its own, an exported name has the cell of the local behind it, also where the
exports are listed, and the cells that there were keep their values. -/
structure ScriptUnit.Made (u : ScriptUnit) (p : Program) (cells cells' : Cells) : Prop where
  locals : u.locals.map Prod.fst = p.declared
  apart : (u.locals.map Prod.snd).Nodup
  fresh : ∀ e ∈ u.locals, cells.values.size ≤ e.2.index ∧ e.2.index < cells'.values.size ∧
    cells'.read e.2 = .undefined
  kept : ∀ cell, cell.index < cells.values.size → cells'.read cell = cells.read cell
  exports : u.exports.map Prod.fst = p.exports.map Prod.fst
  shared : ∀ e ∈ p.exports, ∃ cell, u.locals.cell? e.2 = some cell ∧
    u.exports.cell? e.1 = some cell ∧ (Namespace.ofScope u.exports).cell? e.1 = some cell

variable {url : Url} {source : String} {p : Program} {cells cells' : Cells} {u : ScriptUnit}

theorem made_compile (hparse : Script.parse source = .ok p)
    (h : ScriptUnit.compile url source cells = .ok (cells', u)) : u.Made p cells cells' := by
  obtain ⟨p', names, hparse', hnames, rfl, rfl⟩ := compile_eq_ok h
  cases hparse.symm.trans hparse'
  obtain ⟨-, rfl⟩ := declarations_eq_ok.mp hnames
  obtain ⟨hdistinct, -⟩ := Declarations.distinct_declarations hnames
  have hlocals : (p.known.append (Declarations.ofEntries p.listed)).locals = p.declared :=
    List.append_nil _
  have hhere := hdistinct.here
  have hdeclared := (List.nodup_append.mp hdistinct.names).2.1
  rw [hlocals] at hhere hdeclared
  have hnamesOf : (Scope.fresh p.declared cells).2.map Prod.fst = p.declared :=
    (Scope.names_fresh _ _).trans (eraseDups_of_nodup hdeclared)
  have hcells : ∀ e ∈ p.exports, ((Scope.fresh p.declared cells).2.cell? e.2).isSome := by
    intro e he
    rw [Scope.isSome_cell?, hnamesOf]
    exact hhere e he
  simp only [hlocals]
  exact {
    locals := hnamesOf
    apart := Scope.nodup_fresh _ _
    fresh := fun e he => Scope.mem_fresh he
    kept := fun cell hcell => Scope.read_fresh _ hcell
    exports := Scope.map_fst_share hcells
    shared := fun e he => Scope.cell?_share hcells hdistinct.exported he }

/-- A source text that parses compiles if the check accepts it, and tells what the check tells
otherwise. -/
theorem compile_eq_error (hparse : Script.parse source = .ok p) {e : LoadError} :
    ScriptUnit.compile url source cells = .error e ↔
      ∃ fault, declarations p = .error fault ∧ e = .compile url (.script fault) := by
  constructor
  · intro h
    cases hnames : declarations p with
    | error fault =>
      simp only [ScriptUnit.compile, hparse, Except.mapError, bind, Except.bind, hnames] at h
      cases h
      exact ⟨fault, rfl, rfl⟩
    | ok names =>
      obtain ⟨cells', u, hok⟩ := compile_of_declarations hparse hnames
      cases h.symm.trans hok
  · rintro ⟨fault, hnames, rfl⟩
    simp only [ScriptUnit.compile, hparse, Except.mapError, bind, Except.bind, hnames]

/-- A source text that parses becomes a unit exactly if its names follow the rules, and the first
rule that it breaks is told otherwise. The unit has the names of the text, each with its cell. -/
theorem compile_checks (url : Url) (source : String) (cells : Cells) (p : Program)
    (hparse : Script.parse source = .ok p) :
    ((∃ made, ScriptUnit.compile url source cells = .ok made) ↔ p.WellDeclared) ∧
    (∀ e, ScriptUnit.compile url source cells = .error e ↔
      ∃ fault, p.Breaks fault ∧ e = .compile url (.script fault)) ∧
    ∀ cells' u, ScriptUnit.compile url source cells = .ok (cells', u) → u.Made p cells cells' := by
  refine ⟨⟨?_, fun hrules => ?_⟩, fun e => ?_, fun cells' u h => made_compile hparse h⟩
  · rintro ⟨⟨cells', u⟩, h⟩
    obtain ⟨p', names, hparse', hnames, -⟩ := compile_eq_ok h
    cases hparse.symm.trans hparse'
    exact (declarations_eq_ok.mp hnames).1
  · obtain ⟨cells', u, h⟩ := compile_of_declarations hparse (declarations_eq_ok.mpr ⟨hrules, rfl⟩)
    exact ⟨(cells', u), h⟩
  · simp only [compile_eq_error hparse, declarations_eq_error]

/-- The tokens of a text with an export list, the declaration that it names, and an import. -/
def listFirst : Tokens :=
  [⟨.word .exportWord, 0, 6, 1, 1⟩, ⟨.symbol .leftBrace, 7, 8, 1, 8⟩,
    ⟨.identifier "b", 9, 10, 1, 10⟩, ⟨.word .asWord, 11, 13, 1, 12⟩,
    ⟨.identifier "c", 14, 15, 1, 15⟩, ⟨.symbol .rightBrace, 16, 17, 1, 17⟩,
    ⟨.symbol .semicolon, 17, 18, 1, 18⟩, ⟨.word .exportWord, 19, 25, 1, 20⟩,
    ⟨.word .letWord, 26, 29, 1, 27⟩, ⟨.identifier "b", 30, 31, 1, 31⟩,
    ⟨.symbol .equal, 32, 33, 1, 33⟩, ⟨.word .nullWord, 34, 38, 1, 35⟩,
    ⟨.symbol .semicolon, 38, 39, 1, 39⟩, ⟨.word .importWord, 40, 46, 1, 41⟩,
    ⟨.symbol .leftBrace, 47, 48, 1, 48⟩, ⟨.identifier "x", 49, 50, 1, 50⟩,
    ⟨.word .asWord, 51, 53, 1, 52⟩, ⟨.identifier "d", 54, 55, 1, 55⟩,
    ⟨.symbol .rightBrace, 56, 57, 1, 57⟩, ⟨.word .fromWord, 58, 62, 1, 59⟩,
    ⟨.string "./x", 63, 68, 1, 64⟩, ⟨.symbol .semicolon, 68, 69, 1, 69⟩]

theorem program_listFirst : program listFirst =
    .ok ⟨[.exportList [⟨"b", "c", 9, 10, 1, 10⟩], .declare "b" .null true ⟨30, 31, 1, 31⟩,
      .importFrom ⟨"./x", [⟨"x", "d", 49, 50, 1, 50⟩], 40, 46, 1, 41⟩]⟩ := by
  simp [listFirst, program, statements, statement, declaration, exportRest, importRest,
    importSource, bindings?, bindings, binding, specifier, name, initializer, symbol, word,
    startsWith, expression, term, unary, primary, productTail, sumTail, callTail, multiplicative?,
    additive?, Reading.map, Reading.widen, bind, Except.bind, pure, Except.pure, Except.map]

/-- An export list may stand before the declaration that it names, and export it under another name
also. -/
theorem compile_checks_list_first : ∃ p,
    Script.parse "export \x7b b as c \x7d; export let b = null; import \x7b x as d \x7d from './x';" =
      .ok p ∧
    p.exports = [("b", "b"), ("c", "b")] ∧
    ∃ cells u, ScriptUnit.compile ⟨"a", none, .rootless "b", none, none⟩
      "export \x7b b as c \x7d; export let b = null; import \x7b x as d \x7d from './x';" {} =
        .ok (cells, u) ∧
      u.Made p {} cells := by
  have htokens : Script.tokens
      "export \x7b b as c \x7d; export let b = null; import \x7b x as d \x7d from './x';" =
        .ok listFirst := by
    decide +kernel
  have hparse := (parse_eq htokens).trans (congrArg _ program_listFirst)
  refine ⟨_, hparse, by decide, ?_⟩
  obtain ⟨haccepts, -, hmade⟩ := compile_checks ⟨"a", none, .rootless "b", none, none⟩
    "export \x7b b as c \x7d; export let b = null; import \x7b x as d \x7d from './x';" {} _ hparse
  obtain ⟨⟨cells, u⟩, h⟩ := haccepts.mpr ⟨by decide, by decide, by decide⟩
  exact ⟨cells, u, h, hmade cells u h⟩

end ModuleLoader
