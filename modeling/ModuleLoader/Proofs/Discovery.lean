import Mathlib.Data.Set.Finite.Lattice
import ModuleLoader.Proofs.DataUrls
import ModuleLoader.Proofs.FoundFiles
import ModuleLoader.Proofs.Outcomes

/-!
# What is discovered from a start

Modules lead to others by their specifiers, and a map of modules is keyed by URLs, so one file can be
met under many of them.

Results:
1. `finite_discovered_iff`: finitely many modules are met from a start exactly if there is a bound on
   what data URLs hold to which modules lead by going on from the path of their own data URL.
-/

namespace ModuleLoader

open Text (size)

/-! ## Finitely many URLs -/

namespace Url

theorem finite_lists {α : Type} {s : Set α} (h : s.Finite) (n : Nat) :
    {l : List α | l.length ≤ n ∧ ∀ a ∈ l, a ∈ s}.Finite := by
  have := h.to_subtype
  refine ((List.finite_length_le s n).image (List.map Subtype.val)).subset ?_
  rintro l ⟨hlength, hl⟩
  refine ⟨l.attachWith (· ∈ s) hl, ?_, List.attachWith_map_subtype_val hl⟩
  simpa using hlength

/-- Every segment stands behind a slash. -/
theorem size_pathChars (parts : List String) : parts.length ≤ size (pathChars parts) ∧
    ∀ part ∈ parts, size part.toList ≤ size (pathChars parts) := by
  induction parts with
  | nil => exact ⟨Nat.zero_le _, nofun⟩
  | cons part rest ih =>
    have hslash : size ['/'] = 1 := rfl
    have hsize : size (pathChars (part :: rest)) = 1 + size part.toList + size (pathChars rest) := by
      have hcons : pathChars (part :: rest) = '/' :: part.toList ++ pathChars rest := rfl
      rw [hcons, Text.size_append, Text.size_cons, hslash]
    refine ⟨by rw [List.length_cons]; omega, fun other hother => ?_⟩
    rcases List.mem_cons.1 hother with rfl | hother
    · omega
    · have hrest := ih.2 other hother
      omega

theorem finite_path (n : Nat) : {path : Path | size path.text.toList ≤ n}.Finite := by
  have hrootless := (Text.finite_size_le n).image Path.rootless
  have hsegments := (finite_lists (Text.finite_size_le n) n).image Path.segments
  refine (hrootless.union hsegments).subset fun path hpath => ?_
  cases path with
  | rootless text => exact .inl ⟨text, hpath, rfl⟩
  | segments parts =>
    refine .inr ⟨parts, ?_, rfl⟩
    change size (Path.segments parts).text.toList ≤ n at hpath
    rw [toList_text] at hpath
    have hparts := size_pathChars parts
    exact ⟨Nat.le_trans hparts.1 hpath, fun part hpart => Nat.le_trans (hparts.2 part hpart) hpath⟩

theorem finite_short (n : Nat) :
    {text : Option String | ∀ s ∈ text, size s.toList ≤ n}.Finite := by
  refine (((Text.finite_size_le n).image some).union (Set.finite_singleton none)).subset ?_
  intro text htext
  cases text with
  | none => exact .inr rfl
  | some s => exact .inl ⟨s, htext s rfl, rfl⟩

/-- URLs whose parts are among finitely many. -/
theorem finite_urls {authorities : Set (Option Authority)} {queries fragments : Set (Option String)}
    (hauthorities : authorities.Finite) (hqueries : queries.Finite) (hfragments : fragments.Finite)
    (scheme : String) (n : Nat) :
    {u : Url | u.scheme = scheme ∧ u.authority ∈ authorities ∧ size u.path.text.toList ≤ n ∧
      u.query ∈ queries ∧ u.fragment ∈ fragments}.Finite := by
  refine ((((hauthorities.prod (finite_path n)).prod (hqueries.prod hfragments))).image
    fun ((authority, path), query, fragment) =>
      ({ scheme, authority, path, query, fragment } : Url)).subset ?_
  rintro ⟨_, authority, path, query, fragment⟩ ⟨rfl, hauthority, hpath, hquery, hfragment⟩
  exact ⟨((authority, path), query, fragment), ⟨⟨hauthority, hpath⟩, hquery, hfragment⟩, rfl⟩

/-- Only the eval module and the prompt are no places to look from. -/
theorem isVirtual_of_scheme {u : Url} (h : u.scheme ≠ "internal") : u.isVirtual = false := by
  refine Bool.or_eq_false_iff.mpr ⟨decide_eq_false ?_, decide_eq_false ?_⟩
  · exact fun heq => h (congrArg Url.scheme heq)
  · exact fun heq => h (congrArg Url.scheme heq)

theorem scheme_of_continues {base : Url} {reference : String} (h : base.continues reference = true) :
    base.scheme = "data" := by
  simp only [continues, Bool.and_eq_true, decide_eq_true_eq] at h
  exact h.1.1.1

/-- What goes on from the path of a data URL is a data URL. -/
theorem scheme_of_continued {base u : Url} {reference : String}
    (hcontinues : base.continues reference = true) (h : base.join reference = .ok u) :
    u.scheme = "data" := by
  have hbase := scheme_of_continues hcontinues
  simp only [continues, Bool.and_eq_true, Bool.not_eq_true', Option.isNone_iff_eq_none] at hcontinues
  obtain ⟨⟨⟨-, hrootless⟩, hscheme⟩, hgoes⟩ := hcontinues
  unfold join parseWith at h
  dsimp only at h
  rw [hscheme] at h
  dsimp only at h
  split at h
  next heq => rw [heq] at hgoes; cases hgoes
  next =>
    rw [hrootless, if_neg Bool.false_ne_true, if_neg (by rw [kind_of_data hbase]; decide)] at h
    exact (scheme_relative h).trans hbase

end Url

/-! ## What modules lead to -/

/-- The number of bytes that can be read from an entry. -/
def FileEntry.length : FileEntry → Nat
  | .contents bytes => bytes.length
  | _ => 0

namespace Project

variable {p : Project} {supplied : Option String} {start : Option Resolved} {n : Nat}
  {t t' : Resolved} {program : Script.Program} {specifier : String}

/-- The program that is compiled for a module, when this text is supplied for the eval module. -/
def program? (p : Project) (supplied : Option String) (t : Resolved) : Option Script.Program :=
  match t.format with
  | .js => do
    let source ← (t.url.source p.files supplied).toOption
    let program ← (Script.parse source).toOption
    let _ ← (Script.declarations program).toOption
    return program
  | _ => none

/-- The modules that link phases meet from a start. -/
inductive Discovered (p : Project) (supplied : Option String) (start : Option Resolved) :
    Resolved → Prop
  | start {t : Resolved} : start = some t → Discovered p supplied start t
  | linked {t t' : Resolved} {program : Script.Program} {specifier : String} :
      Discovered p supplied start t → p.program? supplied t = some program →
      specifier ∈ program.specifiers → p.leads t specifier = .ok t' → Discovered p supplied start t'

/-- The URLs to which modules lead that go on from the path of their own data URL. -/
def continued (p : Project) (supplied : Option String) (start : Option Resolved) : Set Url :=
  {u | ∃ t program specifier, p.Discovered supplied start t ∧
    p.program? supplied t = some program ∧ specifier ∈ program.specifiers ∧
    p.settings.isFixed specifier = false ∧ t.url.continues specifier = true ∧
    t.url.join specifier = .ok u}

theorem program?_eq_some (h : p.program? supplied t = some program) :
    ∃ source, t.url.source p.files supplied = .ok source ∧ Script.parse source = .ok program := by
  unfold program? at h
  split at h
  next =>
    obtain ⟨source, hsource, h⟩ := Option.bind_eq_some_iff.mp h
    obtain ⟨program', hprogram, h⟩ := Option.bind_eq_some_iff.mp h
    obtain ⟨names, -, h⟩ := Option.bind_eq_some_iff.mp h
    cases h
    have hok : ∀ {ε α : Type} {r : Except ε α} {a}, r.toOption = some a → r = .ok a := by
      intro ε α r a hr
      cases r <;> cases hr
      rfl
    exact ⟨source, hok hsource, hok hprogram⟩
  next => cases h

/-! ### How long sources are -/

/-- No source that is met is longer, if what goes on from the path of a data URL holds at most `n`. -/
def longest (p : Project) (supplied : Option String) (start : Option Resolved) (n : Nat) : Nat :=
  (p.files.map fun (_, entry) => entry.length).sum + (supplied.elim 0 fun text => size text.toList) +
    (start.elim 0 fun t => t.url.bulk) + n

theorem length_read {path : FilePath} {bytes : Text.Bytes} (h : p.files.read path = .ok bytes) :
    bytes.length ≤ (p.files.map fun (_, entry) => entry.length).sum := by
  unfold Files.read at h
  split at h
  next => cases h
  next found hlookup =>
    cases h
    obtain ⟨front, back, hfiles, -⟩ := List.lookup_eq_some_iff.mp hlookup
    rw [hfiles, List.map_append, List.sum_append, List.map_cons, List.sum_cons]
    have hentry : (FileEntry.contents bytes).length = bytes.length := rfl
    dsimp only
    omega
  next => cases h

/-- A module that has a source is the eval module, or its URL holds the source or names a file. -/
theorem source_cases {u : Url} {source : String} (h : u.source p.files supplied = .ok source) :
    u = Url.evalModule ∧ supplied = some source ∨ u.scheme = "data" ∨
      u.scheme = "file" ∧ ∃ path bytes, p.files.read path = .ok bytes ∧
        Text.ofUtf8? bytes = some source := by
  unfold Url.source Url.sourcePlace at h
  by_cases heval : u = Url.evalModule
  · rw [if_pos heval] at h
    cases supplied with
    | none => cases h
    | some text => exact .inl ⟨heval, congrArg some (Except.ok.inj h)⟩
  rw [if_neg heval] at h
  by_cases hdata : u.scheme = "data"
  · exact .inr (.inl hdata)
  rw [if_neg hdata] at h
  by_cases hfile : u.scheme = "file"
  · rw [if_pos hfile] at h
    cases hpath : u.toFilePath? with
    | none => rw [hpath] at h; cases h
    | some path =>
      rw [hpath] at h
      change sourceOfRead u path (p.files.read path) = .ok source at h
      cases hread : p.files.read path with
      | error fault => rw [hread] at h; cases h
      | ok bytes =>
        rw [hread] at h
        exact .inr (.inr ⟨hfile, path, bytes, hread, Url.sourceText_eq_ok.mp h⟩)
  · rw [if_neg hfile] at h
    cases h

theorem size_source {u : Url} {source : String} (h : u.source p.files supplied = .ok source)
    (hbulk : u.scheme = "data" → u.bulk ≤ p.longest supplied start n) :
    size source.toList ≤ p.longest supplied start n := by
  rcases source_cases h with ⟨-, rfl⟩ | hdata | ⟨-, path, bytes, hread, htext⟩
  · unfold longest
    rw [Option.elim_some]
    omega
  · exact Nat.le_trans (Url.size_source_data hdata h) (hbulk hdata)
  · have hsize := Text.size_ofUtf8? htext
    have hlength := length_read hread
    unfold longest
    omega

/-! ### URLs that are met -/

/-- The bytes of all paths that have entries. -/
def allPaths (p : Project) : Nat := (p.files.map fun (path, _) => path.bytes.length).sum

/-- The authorities of data URLs come from specifiers, or from the start. -/
def authorities (p : Project) (supplied : Option String) (start : Option Resolved) (n : Nat) :
    Set (Option Url.Authority) :=
  {authority | (∃ specifier u, size specifier.toList ≤ p.longest supplied start n ∧
    (Url.parse specifier = .ok u ∨ Url.emptyData.join specifier = .ok u) ∧ u.authority = authority) ∨
      ∃ t ∈ start, t.url.authority = authority}

/-- Queries come from specifiers, or from the start or the working directory. -/
def queries (p : Project) (supplied : Option String) (start : Option Resolved) (n : Nat) :
    Set (Option String) :=
  {query | (∀ text ∈ query, size text.toList ≤ 3 * p.longest supplied start n) ∨
    p.settings.cwdUrl.query = query ∨ ∃ t ∈ start, t.url.query = query}

/-- Fragments come from specifiers, or from the start. -/
def fragments (p : Project) (supplied : Option String) (start : Option Resolved) (n : Nat) :
    Set (Option String) :=
  {fragment | (∀ text ∈ fragment, size text.toList ≤ 3 * p.longest supplied start n) ∨
    ∃ t ∈ start, t.url.fragment = fragment}

/-- The data URLs that can be met. -/
def dataUrls (p : Project) (supplied : Option String) (start : Option Resolved) (n : Nat) : Set Url :=
  {u | u.scheme = "data" ∧ u.authority ∈ p.authorities supplied start n ∧
    size u.path.text.toList ≤ 3 * p.longest supplied start n ∧
    u.query ∈ p.queries supplied start n ∧ u.fragment ∈ p.fragments supplied start n}

/-- The local URLs whose paths are not longer than those that have entries. -/
def localUrls (p : Project) (supplied : Option String) (start : Option Resolved) (n : Nat) : Set Url :=
  {u | u.scheme = "file" ∧ u.authority ∈ ({some {}} : Set (Option Url.Authority)) ∧
    size u.path.text.toList ≤ 3 * p.allPaths ∧
    u.query ∈ p.queries supplied start n ∧ u.fragment ∈ p.fragments supplied start n}

/-- The URL with the source extension behind its path. -/
def extend (p : Project) (u : Url) : Url :=
  u.setPath (u.path.text ++ "." ++ p.settings.sourceExtension)

/-- The URLs of modules with a source. -/
def sourceUrls (p : Project) (supplied : Option String) (start : Option Resolved) (n : Nat) : Set Url :=
  {Url.evalModule} ∪ {u | ∃ t ∈ start, t.url = u} ∪ p.dataUrls supplied start n ∪
    (p.localUrls supplied start n ∪ p.extend '' p.localUrls supplied start n)

theorem finite_of_start {α : Type} (start : Option Resolved) (f : Resolved → α) :
    {a | ∃ t ∈ start, f t = a}.Finite := by
  refine ((Set.finite_singleton start).image fun start => start.map f).preimage
    (Option.some_injective α).injOn |>.subset ?_
  rintro a ⟨t, rfl, rfl⟩
  exact ⟨some t, rfl, rfl⟩

theorem finite_authorities : (p.authorities supplied start n).Finite := by
  have hspecifiers := Text.finite_size_le (p.longest supplied start n)
  have hread := hspecifiers.image fun specifier => (Url.parse specifier).toOption.bind Url.authority
  have hjoined := hspecifiers.image
    fun specifier => (Url.emptyData.join specifier).toOption.bind Url.authority
  refine ((hread.union hjoined).union
    (finite_of_start start fun t => t.url.authority)).subset ?_
  rintro _ (⟨specifier, u, hsize, h | h, rfl⟩ | hstart)
  · exact .inl (.inl ⟨specifier, hsize, by simp [h, Except.toOption]⟩)
  · exact .inl (.inr ⟨specifier, hsize, by simp [h, Except.toOption]⟩)
  · exact .inr hstart

theorem finite_queries : (p.queries supplied start n).Finite :=
  (Url.finite_short _).union ((Set.finite_singleton _).union (finite_of_start start _)) |>.subset
    fun _ h => h.imp_right (Or.imp_left Eq.symm)

theorem finite_fragments : (p.fragments supplied start n).Finite :=
  (Url.finite_short _).union (finite_of_start start _)

theorem finite_sourceUrls : (p.sourceUrls supplied start n).Finite := by
  have hlocal : (p.localUrls supplied start n).Finite :=
    Url.finite_urls (Set.finite_singleton _) finite_queries finite_fragments _ _
  have hdata : (p.dataUrls supplied start n).Finite :=
    Url.finite_urls finite_authorities finite_queries finite_fragments _ _
  exact (((Set.finite_singleton _).union (finite_of_start start _)).union hdata).union
    (hlocal.union (hlocal.image _))

/-- What is known of the URL of a module with a source. -/
structure Met (p : Project) (supplied : Option String) (start : Option Resolved) (n : Nat)
    (u : Url) : Prop where
  made : u.Made
  query : u.query ∈ p.queries supplied start n
  fragment : u.fragment ∈ p.fragments supplied start n
  data : u.scheme = "data" →
    u.bulk ≤ p.longest supplied start n ∧ u.authority ∈ p.authorities supplied start n
  file : u.scheme = "file" → (∃ t ∈ start, t.url = u) ∨ u ∈ p.localUrls supplied start n ∨
    u ∈ p.extend '' p.localUrls supplied start n

theorem Met.mem_sourceUrls {u : Url} (h : p.Met supplied start n u)
    (hscheme : u.scheme = "data" ∨ u.scheme = "file") : u ∈ p.sourceUrls supplied start n := by
  rcases hscheme with hdata | hfile
  · obtain ⟨hbulk, hauthority⟩ := h.data hdata
    refine .inl (.inr ⟨hdata, hauthority, ?_, h.query, h.fragment⟩)
    have hsize := Url.size_le_held u.pathAndQuery
    have hpath : size u.path.text.toList ≤ size u.pathAndQuery.toList := by
      rw [Url.pathAndQuery, String.toList_append]
      exact Text.size_le_of_sublist (List.sublist_append_left _ _)
    have hheld : Url.held u.pathAndQuery = u.bulk := rfl
    omega
  · rcases h.file hfile with hstart | hfile
    · exact .inl (.inl (.inr hstart))
    · exact .inr hfile

/-- The start is met. -/
theorem met_start (hmade : t.url.Made) (hstart : start = some t) : p.Met supplied start n t.url where
  made := hmade
  query := .inr (.inr ⟨t, hstart, rfl⟩)
  fragment := .inr ⟨t, hstart, rfl⟩
  data _ := ⟨by unfold longest; rw [hstart, Option.elim_some]; omega, .inr ⟨t, hstart, rfl⟩⟩
  file _ := .inl ⟨t, hstart, rfl⟩

/-! ### One link further -/

/-- Where a module with a source starts to look from: its URL, or the working directory. -/
structure LooksFrom (p : Project) (supplied : Option String) (start : Option Resolved) (n : Nat)
    (t : Resolved) (base : Url) : Prop where
  made : base.Made
  query : base.query ∈ p.queries supplied start n
  data : base.scheme = "data" → base = t.url ∧ p.Met supplied start n base

theorem looksFrom_of_met (hcwd : p.settings.cwdUrl.Made) (hfile : p.settings.cwdUrl.scheme = "file")
    (h : t.url = Url.evalModule ∨
      (t.url.scheme = "data" ∨ t.url.scheme = "file") ∧ p.Met supplied start n t.url) :
    p.LooksFrom supplied start n t (p.settings.start (some t.url)) := by
  rcases h with heval | ⟨hscheme, hmet⟩
  · have hbase : p.settings.start (some t.url) = p.settings.cwdUrl := by
      rw [heval]
      rfl
    rw [hbase]
    refine ⟨hcwd, .inr (.inl rfl), fun hdata => ?_⟩
    rw [hfile] at hdata
    exact absurd hdata (by decide)
  · have hvirtual : t.url.isVirtual = false := by
      have hinternal : t.url.scheme ≠ "internal" := by
        rcases hscheme with h | h <;> rw [h] <;> decide
      refine Bool.or_eq_false_iff.mpr ⟨decide_eq_false ?_, decide_eq_false ?_⟩
      · exact fun heq => hinternal (congrArg Url.scheme heq)
      · exact fun heq => hinternal (congrArg Url.scheme heq)
    have hbase : p.settings.start (some t.url) = t.url := if_neg (by rw [hvirtual]; decide)
    rw [hbase]
    exact ⟨hmet.made, hmet.query, fun _ => ⟨rfl, hmet⟩⟩

theorem tail_of_join {base u : Url} (hbase : base.query ∈ p.queries supplied start n)
    (hsize : size specifier.toList ≤ p.longest supplied start n) (h : base.join specifier = .ok u) :
    u.query ∈ p.queries supplied start n ∧ u.fragment ∈ p.fragments supplied start n := by
  have htail := Url.tail_join h
  refine ⟨?_, .inl fun text htext => Nat.le_trans (htail.fragment text htext) (by omega)⟩
  rcases htail.query with ⟨b, hb, hsame⟩ | hshort
  · obtain rfl := Option.mem_some_iff.1 hb
    rw [hsame]
    exact hbase
  · exact .inl fun text htext => Nat.le_trans (hshort text htext) (by omega)

/-- A data URL that is met next. -/
theorem met_data {base u : Url} (hbase : p.LooksFrom supplied start n t base)
    (hsize : size specifier.toList ≤ p.longest supplied start n) (h : base.join specifier = .ok u)
    (hdata : u.scheme = "data")
    (hwithin : t.url.continues specifier = true → t.url.join specifier = .ok u → u.bulk ≤ n) :
    p.Met supplied start n u := by
  obtain ⟨hquery, hfragment⟩ := tail_of_join hbase.query hsize h
  obtain ⟨hauthority, hbulk⟩ := Url.join_data h hdata
  have hfile : u.scheme ≠ "file" := by
    rw [hdata]
    decide
  refine ⟨.joined hbase.made h, hquery, hfragment, fun _ => ⟨?_, ?_⟩, fun h => absurd h hfile⟩
  · rcases hbulk with hcontinues | hshort | ⟨hbasedata, hsame⟩
    · have hbasedata : base.scheme = "data" := by
        simp only [Url.continues, Bool.and_eq_true, decide_eq_true_eq] at hcontinues
        exact hcontinues.1.1.1
      obtain ⟨rfl, -⟩ := hbase.data hbasedata
      have hbulk := hwithin hcontinues h
      unfold longest
      omega
    · exact Nat.le_trans hshort hsize
    · rw [hsame]
      exact ((hbase.data hbasedata).2.data hbasedata).1
  · rcases hauthority with hparse | hjoin | ⟨hbasedata, hsame⟩
    · exact .inl ⟨specifier, u, hsize, .inl hparse, rfl⟩
    · exact .inl ⟨specifier, u, hsize, .inr hjoin, rfl⟩
    · rw [hsame]
      exact ((hbase.data hbasedata).2.data hbasedata).2

theorem path_of_hasFile {path : FilePath} (h : p.files.hasFile path = true) :
    path.bytes.length ≤ p.allPaths := by
  obtain ⟨entry, hentry, -⟩ := Option.map_eq_some_iff.mp (Settings.hasFile_iff.mp h)
  obtain ⟨front, back, hfiles, -⟩ := List.lookup_eq_some_iff.mp hentry
  unfold allPaths
  rw [hfiles, List.map_append, List.sum_append, List.map_cons, List.sum_cons]
  dsimp only
  omega

/-- A local URL holds at most the bytes of its path. -/
theorem size_of_toFilePath? {u : Url} {path : FilePath} (h : Url.Local u)
    (hpath : u.toFilePath? = some path) : size u.path.text.toList ≤ 3 * path.bytes.length := by
  obtain ⟨-, rfl⟩ := h.of_toFilePath? hpath
  obtain ⟨hparts, hclean⟩ := h.parts
  have hheld := Url.size_le_held u.path.text
  rw [hparts, Url.held_segments] at hheld
  rw [hparts]
  rcases Url.closeDrive_eq _ (Url.head?_pathBytes hclean.ne_nil) with ⟨-, hclosed⟩ | ⟨-, hclosed⟩
  · rw [hclosed, List.length_append]
    omega
  · rw [hclosed]
    exact hheld

/-- A local URL that is met next. -/
theorem met_file (hbase : p.LooksFrom supplied start n t (p.settings.start (some t.url)))
    (hsize : size specifier.toList ≤ p.longest supplied start n) (h : p.leads t specifier = .ok t')
    (hfile : t'.url.scheme = "file") : p.Met supplied start n t'.url := by
  obtain ⟨c, hc, hconclude⟩ := Settings.candidates_of_file h hfile
  obtain ⟨-, hjoin, hcfile⟩ := Settings.joined_of_candidates hc
  obtain ⟨-, hextended, hextension, hpath⟩ := Settings.candidates_eq hc
  have hmade : Url.Made c.url := .joined hbase.made hjoin
  have hlocal := hmade.local hcfile
  obtain ⟨hquery, hfragment⟩ := tail_of_join hbase.query hsize hjoin
  have hdata : t'.url.scheme ≠ "data" := by
    rw [hfile]
    decide
  -- one of the two paths has an entry, and both begin with the path of the URL
  have hmember : c.literal.bytes.length ≤ p.allPaths → c.url ∈ p.localUrls supplied start n := by
    intro hlength
    have hpathsize := size_of_toFilePath? hlocal hpath
    exact ⟨hcfile, (hlocal.of_toFilePath? hpath).1, by omega, hquery, hfragment⟩
  unfold Candidates.conclude at hconclude
  split at hconclude
  next hfound =>
    cases hconclude
    exact ⟨hmade, hquery, hfragment, fun hscheme => absurd hscheme hdata,
      fun _ => .inr (.inl (hmember (path_of_hasFile hfound)))⟩
  next =>
    split at hconclude
    next hfound =>
      cases hconclude
      have hlength := path_of_hasFile hfound
      rw [hextended, FilePath.withExtension, List.length_append] at hlength
      refine ⟨.withPath _ hmade, hquery, hfragment, fun hscheme => absurd hscheme hdata,
        fun _ => .inr (.inr ⟨c.url, hmember (by omega), ?_⟩)⟩
      rw [extend, ← hextension]
      rfl
    next => cases hconclude

/-- A module that is met next. -/
theorem met_leads (hbase : p.LooksFrom supplied start n t (p.settings.start (some t.url)))
    (hsize : size specifier.toList ≤ p.longest supplied start n) (h : p.leads t specifier = .ok t')
    (hwithin : ∀ u, p.settings.isFixed specifier = false → t.url.continues specifier = true →
      t.url.join specifier = .ok u → u.bulk ≤ n)
    (hscheme : t'.url.scheme = "data" ∨ t'.url.scheme = "file") : p.Met supplied start n t'.url := by
  rcases hscheme with hdata | hfile
  · obtain ⟨hfixed, hjoin⟩ := Settings.joined_of_data h hdata
    exact met_data hbase hsize hjoin hdata fun hcontinues hown => hwithin _ hfixed hcontinues hown
  · exact met_file hbase hsize h hfile

/-! ### All modules that are discovered -/

theorem size_of_mem_specifiers (hprogram : p.program? supplied t = some program)
    (hmem : specifier ∈ program.specifiers)
    (hmet : t.url.scheme = "data" → p.Met supplied start n t.url) :
    size specifier.toList ≤ p.longest supplied start n := by
  obtain ⟨source, hsource, hparse⟩ := program?_eq_some hprogram
  have hsize := size_source hsource fun hdata => ((hmet hdata).data hdata).1
  exact Nat.le_trans (Script.size_specifier hparse hmem) hsize

theorem scheme_of_program? (hprogram : p.program? supplied t = some program) :
    t.url = Url.evalModule ∨ t.url.scheme = "data" ∨ t.url.scheme = "file" := by
  obtain ⟨source, hsource, -⟩ := program?_eq_some hprogram
  rcases source_cases hsource with ⟨heval, -⟩ | hdata | ⟨hfile, -⟩
  · exact .inl heval
  · exact .inr (.inl hdata)
  · exact .inr (.inr hfile)

section

variable (hcwd : p.settings.cwdUrl.Made) (hfile : p.settings.cwdUrl.scheme = "file")
  (hstart : ∀ t ∈ start, t.url.Made) (hwithin : ∀ u ∈ p.continued supplied start, u.bulk ≤ n)

include hcwd hfile hstart hwithin

theorem met_of_discovered (h : p.Discovered supplied start t)
    (hscheme : t.url.scheme = "data" ∨ t.url.scheme = "file") : p.Met supplied start n t.url := by
  induction h with
  | start heq => exact met_start (hstart _ heq) heq
  | @linked t t' program specifier ht hprogram hmem hleads ih =>
    have hlooks := looksFrom_of_met hcwd hfile
      ((scheme_of_program? hprogram).imp_right fun hscheme => ⟨hscheme, ih hscheme⟩)
    have hsize := size_of_mem_specifiers hprogram hmem fun hdata => ih (.inl hdata)
    exact met_leads hlooks hsize hleads
      (fun u hfixed hcontinues hjoin =>
        hwithin u ⟨t, program, specifier, ht, hprogram, hmem, hfixed, hcontinues, hjoin⟩) hscheme

/-- Finitely many modules are discovered if those bounds are kept. -/
theorem finite_of_within : {t | p.Discovered supplied start t}.Finite := by
  let results : Set (Option Resolved) :=
    (fun (specifier, url) => (p.settings.resolve p.files specifier (some url)).toOption) ''
      ({specifier : String | size specifier.toList ≤ p.longest supplied start n} ×ˢ
        p.sourceUrls supplied start n)
  have hresults : results.Finite := ((Text.finite_size_le _).prod finite_sourceUrls).image _
  refine (((Set.finite_singleton start).union hresults).preimage
    (Option.some_injective Resolved).injOn).subset fun t ht => ?_
  cases ht with
  | start heq => exact .inl heq.symm
  | @linked t _ program specifier ht hprogram hmem hleads =>
    have hmet := met_of_discovered hcwd hfile hstart hwithin ht
    have hsize := size_of_mem_specifiers hprogram hmem fun hdata => hmet (.inl hdata)
    have hurl : t.url ∈ p.sourceUrls supplied start n := by
      rcases scheme_of_program? hprogram with heval | hscheme
      · exact .inl (.inl (.inl heval))
      · exact (hmet hscheme).mem_sourceUrls hscheme
    exact .inr ⟨(specifier, t.url), ⟨hsize, hurl⟩, congrArg Except.toOption hleads⟩

end

/-- What goes on from the path of a data URL is a data URL, and a module that is discovered. -/
theorem discovered_of_continued {u : Url} (h : u ∈ p.continued supplied start) :
    p.Discovered supplied start ⟨u, .js⟩ := by
  obtain ⟨t, program, specifier, ht, hprogram, hmem, hfixed, hcontinues, hjoin⟩ := h
  refine .linked ht hprogram hmem ?_
  have hdata := Url.scheme_of_continues hcontinues
  have hvirtual : t.url.isVirtual = false := Url.isVirtual_of_scheme (by rw [hdata]; decide)
  have hbase : p.settings.start (some t.url) = t.url := if_neg (by rw [hvirtual]; decide)
  rw [← hbase] at hjoin
  exact Settings.resolve_of_data hfixed hjoin (Url.scheme_of_continued hcontinues (hbase ▸ hjoin))

/-- Finitely many modules are discovered exactly if there is a bound on what goes on from the path of a
data URL. -/
theorem finite_discovered_iff (hcwd : p.settings.cwdUrl.Made) (hfile : p.settings.cwdUrl.scheme = "file")
    (hstart : ∀ t ∈ start, t.url.Made) :
    {t | p.Discovered supplied start t}.Finite ↔
      ∃ n, ∀ u ∈ p.continued supplied start, u.bulk ≤ n := by
  constructor
  · intro hfinite
    obtain ⟨n, hn⟩ := (hfinite.image fun t => t.url.bulk).bddAbove
    exact ⟨n, fun u hu => hn ⟨⟨u, .js⟩, discovered_of_continued hu, rfl⟩⟩
  · rintro ⟨n, hwithin⟩
    exact finite_of_within hcwd hfile hstart hwithin

end Project

end ModuleLoader
