import ModuleLoader.Proofs.Extensions
import ModuleLoader.Proofs.Probing

/-!
# The file that is found and the file that is read

A resolver asks for the path of a URL, and for that path with the source extension behind it. The
source is read from the path of the URL that comes of it, and in the second case the extension was
put behind the path of the URL.

Results:
1. `found_is_read`: when the path that is read is the one that was found, and when it is found again.
2. `found_not_read`: behind a drive letter it is another one.
-/

namespace ModuleLoader

namespace Settings

variable {config : Config} {settings : Settings} {files : Files} {specifier : String}
  {referrer : Option Url} {target : Resolved} {c : Candidates}

/-- Where a specifier starts is a URL like any other. -/
theorem made_start (hconfig : ofConfig config = .ok settings) (hbase : ∀ b ∈ config.baseUrl, Url.Made b)
    (hreferrer : ∀ r ∈ referrer, Url.Made r) : Url.Made (settings.start referrer) := by
  obtain ⟨-, hbaseUrl, hcwdUrl, -⟩ := ofConfig_eq_ok hconfig
  have hcwd : Url.Made settings.cwdUrl := by
    unfold Config.cwdUrl at hcwdUrl
    dsimp only at hcwdUrl
    split at hcwdUrl
    next url hdirectory =>
      cases hcwdUrl
      exact .directory hdirectory
    next => cases hcwdUrl
  cases referrer with
  | some r =>
    change Url.Made (if r.isVirtual then settings.cwdUrl else r)
    split
    next => exact hcwd
    next => exact hreferrer r rfl
  | none =>
    change Url.Made settings.baseUrl
    unfold Config.baseOrCwdUrl at hbaseUrl
    cases hset : config.baseUrl with
    | some url =>
      rw [hset] at hbaseUrl
      rw [← Except.ok.inj hbaseUrl]
      exact hbase url hset
    | none =>
      rw [hset] at hbaseUrl
      rw [← Except.ok.inj (hcwdUrl.symm.trans hbaseUrl)]
      exact hcwd

theorem candidates_of_file (h : settings.resolve files specifier referrer = .ok target)
    (hfile : target.url.scheme = "file") : ∃ c, settings.target specifier referrer = .candidates c ∧
      c.conclude (files.hasFile c.literal) (files.hasFile c.extended) = .ok target := by
  cases resolve_eq_ok.mp h with
  | eval => exact absurd hfile (by decide)
  | builtin _ _ hparse =>
    exact absurd ((Url.scheme_of_parse_builtin hparse).symm.trans hfile) (by decide)
  | data _ _ hdata => exact absurd (hdata.symm.trans hfile) (by decide)
  | remote _ _ hother => exact absurd hfile hother
  | literal hcandidates hliteral =>
    exact ⟨_, hcandidates, by rw [hliteral]; rfl⟩
  | extended hcandidates hliteral hextended =>
    exact ⟨_, hcandidates, by rw [hliteral, hextended]; rfl⟩

/-- Only what is joined to a base can be a data URL. -/
theorem joined_of_data (h : settings.resolve files specifier referrer = .ok target)
    (hdata : target.url.scheme = "data") :
    settings.isFixed specifier = false ∧ (settings.start referrer).join specifier = .ok target.url := by
  cases resolve_eq_ok.mp h with
  | eval => exact absurd hdata (by decide)
  | builtin _ _ hparse =>
    exact absurd ((Url.scheme_of_parse_builtin hparse).symm.trans hdata) (by decide)
  | data hfixed hjoin => exact ⟨hfixed, hjoin⟩
  | remote _ _ _ hother => exact absurd hdata hother
  | literal hcandidates | extended hcandidates =>
    exact absurd ((joined_of_candidates hcandidates).2.2.symm.trans hdata) (by decide)

/-- What is joined to a base and is a data URL needs no file. -/
theorem resolve_of_data {url : Url} (hfixed : settings.isFixed specifier = false)
    (hjoin : (settings.start referrer).join specifier = .ok url) (hdata : url.scheme = "data") :
    settings.resolve files specifier referrer = .ok ⟨url, .js⟩ :=
  resolve_eq_ok.mpr (.data hfixed hjoin hdata)

/-- The text of a URL with a local path, asked for from anywhere. -/
theorem target_reread {u : Url} {cs tail : List Char} (hfixed : settings.isFixed u.text = false)
    (hs : Url.significant u.text = "file://".toList ++ '/' :: cs ++ tail)
    (hcs : ∀ c ∈ cs, Url.endsPath c = false) (htail : ∀ c ∈ tail.head?, Url.endsPath c = true)
    (again : Option Url) : ∃ c, settings.target u.text again = .candidates c ∧
      c.literal = ⟨Url.closeDrive (Url.pathBytes (Url.pathFrom .file [] cs))⟩ := by
  have hne : Url.pathFrom .file [] cs ≠ [] :=
    (Url.clean_pathFrom (fun _ hpart => absurd hpart List.not_mem_nil) _).ne_nil
  obtain ⟨hscheme, hpath⟩ := Url.toFilePath?_filePath hne tail
  have hjoin : (settings.start again).join u.text =
      .ok (Url.filePath .empty (Url.pathFrom .file [] cs) tail) := Url.parseWith_file _ hs hcs htail
  rw [target_of_joined hfixed hjoin]
  unfold targetOf
  rw [if_pos hscheme, hpath]
  exact ⟨_, rfl, rfl⟩

/-- The two paths of a local URL, and the path of the URL with the extension behind it. -/
theorem extended_eq_iff (h : settings.target specifier referrer = .candidates c)
    (hlocal : Url.Local c.url) (hfile : c.url.scheme = "file") :
    c.literal = ⟨Url.closeDrive (Url.pathBytes c.url.parts)⟩ ∧ ∃ read,
      c.extendedUrl.toFilePath? = some read ∧
      (read = c.extended ↔ Url.KeepsExtension c.url.parts settings.sourceExtension.toList) := by
  obtain ⟨-, hextended, hext, hpath⟩ := candidates_eq h
  obtain ⟨hhost, hliteral⟩ := hlocal.of_toFilePath? hpath
  obtain ⟨part, rest, hparts, hset⟩ := Url.parts_setPath hlocal hfile c.sourceExtension
  have hclean := hlocal.parts.2
  have hne : Url.pathFrom .file [] (part.toList ++ Url.pathChars rest ++
      '.' :: Url.readable c.sourceExtension.toList) ≠ [] :=
    (Url.clean_pathFrom (fun _ hpart => absurd hpart List.not_mem_nil) _).ne_nil
  refine ⟨hliteral, _, Url.toFilePath?_eq hne hset hhost, ?_⟩
  rw [hparts] at hclean hliteral
  rw [hparts, ← Url.closeDrive_extended hclean, ← hext, hextended, hliteral, ← hext,
    FilePath.withExtension, FilePath.mk.injEq]
  rfl

/-- Who asks again for a URL with a local path finds the path that was read, if reading keeps the
segments of that path. -/
theorem reread_iff {u : Url} (h : Url.Local u) (hfile : u.scheme = "file") (hhost : u.authority = some {})
    (again : Option Url) :
    (∃ c, settings.target u.text again = .candidates c ∧
      c.literal = ⟨Url.closeDrive (Url.pathBytes u.parts)⟩) ↔
    settings.isFixed u.text = false ∧ Url.Steady u.parts := by
  obtain ⟨cs, tail, -, hcs, hs, hpath, htail⟩ := Url.significant_text h hfile hhost
  have hclean := h.parts.2
  rw [← hcs] at hclean ⊢
  rw [← Url.closeDrive_reread hclean]
  constructor
  · rintro ⟨c, hc, hliteral⟩
    have hfixed := (joined_of_candidates hc).1
    obtain ⟨c', hc', hliteral'⟩ := target_reread hfixed hs hpath htail again
    cases hc.symm.trans hc'
    exact ⟨hfixed, FilePath.mk.inj (hliteral'.symm.trans hliteral)⟩
  · rintro ⟨hfixed, hread⟩
    obtain ⟨c, hc, hliteral⟩ := target_reread hfixed hs hpath htail again
    exact ⟨c, hc, by rw [hliteral, hread]⟩

theorem readPaths_eq {u : Url} {path : FilePath} (hfile : u.scheme = "file")
    (hpath : u.toFilePath? = some path) (supplied : Option String) : u.readPaths supplied = [path] := by
  have hplace : u ≠ Url.evalModule := by
    rintro rfl
    exact absurd hfile (by decide)
  have hdata : u.scheme ≠ "data" := by
    rw [hfile]
    decide
  unfold Url.readPaths Url.sourcePlace
  rw [if_neg hplace, if_neg hdata, if_pos hfile, hpath]

/--
The file that is found and the file that is read. If a specifier leads to a local URL, then that URL
stands for one path, from which its source is read.

* If there is a file at the literal path, it is this path.
* Otherwise there is one at the path with the extension, and it is this path exactly if the
  extension is kept: if reading it behind the path of the URL alters nothing, and neither of the two
  ends like a drive.
* The text of the URL, asked for from anywhere, has this path as its literal path exactly if it is
  not spoken for by the settings and reading keeps its segments.
-/
theorem found_is_read (hconfig : ofConfig config = .ok settings)
    (hbase : ∀ b ∈ config.baseUrl, Url.Made b) (hreferrer : ∀ r ∈ referrer, Url.Made r)
    (hresolve : settings.resolve files specifier referrer = .ok target)
    (hfile : target.url.scheme = "file") :
    ∃ c read, settings.target specifier referrer = .candidates c ∧
      target.url.toFilePath? = some read ∧
      (∀ supplied, target.url.readPaths supplied = [read]) ∧
      (files.hasFile c.literal = true → target.url = c.url ∧ read = c.literal) ∧
      (files.hasFile c.literal = false → target.url = c.extendedUrl ∧
        files.hasFile c.extended = true ∧
        (read = c.extended ↔ Url.KeepsExtension c.url.parts config.sourceExtension.toList)) ∧
      ∀ again, (∃ c', settings.target target.url.text again = .candidates c' ∧ c'.literal = read) ↔
        settings.isFixed target.url.text = false ∧ Url.Steady target.url.parts := by
  obtain ⟨c, hc, hconclude⟩ := candidates_of_file hresolve hfile
  obtain ⟨-, hjoin, hcfile⟩ := joined_of_candidates hc
  have hmade : Url.Made c.url := .joined (made_start hconfig hbase hreferrer) hjoin
  have hlocal := hmade.local hcfile
  obtain ⟨-, -, -, hextension, -⟩ := ofConfig_eq_ok hconfig
  obtain ⟨-, -, -, hpath⟩ := candidates_eq hc
  obtain ⟨hliteral, read', hread', hiff⟩ := extended_eq_iff hc hlocal hcfile
  have hmake : Url.Made target.url ∧ ∃ read, target.url.toFilePath? = some read ∧
      (files.hasFile c.literal = true → target.url = c.url ∧ read = c.literal) ∧
      (files.hasFile c.literal = false → target.url = c.extendedUrl ∧
        files.hasFile c.extended = true ∧
        (read = c.extended ↔ Url.KeepsExtension c.url.parts config.sourceExtension.toList)) := by
    unfold Candidates.conclude at hconclude
    split at hconclude
    next hfound =>
      cases hconclude
      refine ⟨hmade, c.literal, hpath, fun _ => ⟨rfl, rfl⟩, fun hnot => ?_⟩
      rw [hfound] at hnot
      cases hnot
    next hmissing =>
      split at hconclude
      next hfound =>
        cases hconclude
        refine ⟨.withPath _ hmade, read', hread', fun hnot => absurd hnot hmissing, fun _ => ?_⟩
        exact ⟨rfl, hfound, hextension ▸ hiff⟩
      next => cases hconclude
  obtain ⟨hmade', read, hread, hfirst, hsecond⟩ := hmake
  have hlocal' := hmade'.local hfile
  obtain ⟨hhost, rfl⟩ := hlocal'.of_toFilePath? hread
  exact ⟨c, _, hc, hread, readPaths_eq hfile hread, hfirst, hsecond, reread_iff hlocal' hfile hhost⟩

/-- A loader at work in a directory, with modules beside and below it. -/
def atProject : Settings :=
  let directory : Url := { scheme := "file", authority := some {}, path := .segments ["project", ""] }
  { baseUrl := directory, cwdUrl := directory, sourceExtension := "js", builtinPrefix := "@rt/",
    evalSpecifier := "[eval]", maxProbes := 10 }

theorem resolve_of_toOption (h : (settings.resolve files specifier referrer).toOption = some target) :
    settings.resolve files specifier referrer = .ok target := by
  cases hresolve : settings.resolve files specifier referrer with
  | error fault => rw [hresolve] at h; cases h
  | ok found => rw [hresolve] at h; cases h; rfl

/-- A module beside others, found with its extension. -/
theorem found_is_read_beside :
    let files : Files := [("/project/a.js", .contents [])]
    let found : Url := { scheme := "file", authority := some {}, path := .segments ["project", "a.js"] }
    ofConfig { cwd := some "/project" } = .ok atProject ∧
      atProject.resolve files "./a" none = .ok ⟨found, .js⟩ ∧ found.scheme = "file" ∧
      ∃ c, atProject.target "./a" none = .candidates c ∧
        (∀ supplied, found.readPaths supplied = [c.extended]) ∧
        Url.KeepsExtension c.url.parts "js".toList := by
  intro files found
  have hconfig : ofConfig { cwd := some "/project" } = .ok atProject := rfl
  have hresolve : atProject.resolve files "./a" none = .ok ⟨found, .js⟩ :=
    resolve_of_toOption (by decide +kernel)
  have hprobes : atProject.probes "./a" none =
      [⟨Text.utf8Bytes "/project/a"⟩, ⟨Text.utf8Bytes "/project/a.js"⟩] := by decide +kernel
  have hpath : found.toFilePath? = some ⟨Text.utf8Bytes "/project/a.js"⟩ := by decide +kernel
  have hmissing : files.hasFile ⟨Text.utf8Bytes "/project/a"⟩ = false := by decide +kernel
  obtain ⟨c, read, hc, hread, hreads, -, hextended, -⟩ :=
    found_is_read hconfig (by simp) (by simp) hresolve rfl
  unfold probes at hprobes
  rw [hc] at hprobes
  obtain ⟨hliteral, hrest⟩ := List.cons.inj hprobes
  obtain rfl := Option.some.inj (hread.symm.trans hpath)
  rw [← hliteral] at hmissing
  have hsame := (List.cons.inj hrest).1.symm
  refine ⟨hconfig, hresolve, rfl, c, hc, fun supplied => ?_, (hextended hmissing).2.2.1 hsame⟩
  rw [hreads supplied, hsame]

/--
A drive letter has a slash put behind it before the extension, and the extension put behind it
before the slash. The file that is found for it is not the one that is read, and that one does not
even have to exist.
-/
theorem found_not_read :
    let files : Files := [("/project/C:/.js", .contents [])]
    let found : Url := { scheme := "file", authority := some {}, path := .segments ["project", "C:.js"] }
    atProject.resolve files "./C:" none = .ok ⟨found, .js⟩ ∧ found.scheme = "file" ∧
      (atProject.probes "./C:" none).map FilePath.text = ["/project/C:/", "/project/C:/.js"] ∧
      found.toFilePath?.map FilePath.text = some "/project/C:.js" ∧
      (∀ path ∈ atProject.probes "./C:" none, found.toFilePath? ≠ some path) ∧
      (found.source files none).isOk = false := by
  intro files found
  refine ⟨resolve_of_toOption ?_, rfl, ?_⟩ <;> decide +kernel

end Settings

end ModuleLoader
