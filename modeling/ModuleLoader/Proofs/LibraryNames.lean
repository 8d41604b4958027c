import ModuleLoader.Proofs.Assembly
import ModuleLoader.Proofs.DataUrls
import ModuleLoader.Proofs.FoundFiles

/-!
# The names of libraries

A specifier with the builtin prefix is put behind a scheme and read as a URL, and the name of the
library is what stands behind the prefix in the path of that URL. So a library goes by its own name
only if reading leaves the specifier as it is: the URL of any other is written differently.

Results:
1. `path_parse_builtin_iff`: which texts are the path of the URL that they make.
2. `named_iff`: the identifier in a specifier is recovered from its URL exactly if the specifier is
   such a text.
3. `library_by_name`: then the library is found under its identifier, and under no other.
4. `library_not_by_name`: other identifiers are lost, though a library is registered under them.
-/

namespace ModuleLoader

namespace Url

open Text (utf8)

variable {cs : List Char} {scheme : String} {u : Url}

/-! ## Texts that are paths -/

/--
A text that reading takes for the path of a URL and leaves as it is. Without a slash in front it
only has to be printable, without a mark that ends a path and without a blank at its end. Behind a
slash, which must not be the first of two, all characters must be those of segments, and no segment
may be dots.
-/
inductive ReadsAsPath : List Char → Prop
  | rootless {cs : List Char} : cs.head? ≠ some '/' →
      (∀ c ∈ cs, controlSet c = false ∧ endsPath c = false) → cs.getLast? ≠ some ' ' →
      ReadsAsPath cs
  | rooted {cs : List Char} : cs.head? ≠ some '/' → (∀ c ∈ cs, pathSet c = false) →
      (∀ part ∈ splitWhere (isSlash .plain) cs, isDots (String.ofList part) = false) →
      ReadsAsPath ('/' :: cs)

theorem plain_rooted (h : cs.head? ≠ some '/') : plain scheme ('/' :: cs) =
    .ok (withTail .plain { scheme, path := .segments (pathFrom .plain [] (splitPath cs).1) }
      (splitPath cs).2) := by
  unfold plain
  split
  next heq => cases heq; exact absurd rfl h
  next heq => cases heq; rfl
  next _ hnot => exact absurd rfl (hnot cs)

theorem plain_rootless (h : cs.head? ≠ some '/') : plain scheme cs =
    .ok (withTail .plain
      { scheme, path := .rootless (String.ofList (encode controlSet (splitPath cs).1)) }
      (splitPath cs).2) := by
  unfold plain
  split
  next => exact absurd rfl h
  next => exact absurd rfl h
  next => rfl

theorem path_withTail (k : Kind) (u : Url) (cs : List Char) : (withTail k u cs).path = u.path := by
  unfold withTail
  split <;> rfl

/-! ## What counts of a text -/

/-- The last character that counts is no blank. -/
theorem getLast?_significant {s : String} {c : Char} (h : (significant s).getLast? = some c) :
    isControlOrSpace c = false := by
  unfold significant at h
  dsimp only at h
  have hhead := List.head?_dropWhile_not isControlOrSpace
    (s.toList.dropWhile isControlOrSpace).reverse
  rw [List.filter_reverse, List.getLast?_reverse] at h
  cases hinner : (s.toList.dropWhile isControlOrSpace).reverse.dropWhile isControlOrSpace with
  | nil => rw [hinner] at h; cases h
  | cons d ds =>
    rw [hinner] at h hhead
    have hd : isControlOrSpace d = false := hhead
    rw [List.filter_cons_of_pos (by simp [isTabOrNewline_of_visible hd])] at h
    cases h
    exact hd

/-- Nothing is cut off from a text without blanks at its ends, or dropped if it has no newlines. -/
theorem significant_eq_toList {s : String}
    (hfirst : ∀ c ∈ s.toList.head?, isControlOrSpace c = false)
    (hlast : ∀ c ∈ s.toList.getLast?, isControlOrSpace c = false)
    (hinner : ∀ c ∈ s.toList, isTabOrNewline c = false) : significant s = s.toList := by
  unfold significant
  dsimp only
  rw [dropWhile_of_head hfirst, dropWhile_of_head (by rwa [List.head?_reverse]),
    List.reverse_reverse]
  exact List.filter_eq_self.2 fun c hc => by simp [hinner c hc]

theorem of_controlSet {c : Char} (h : controlSet c = false) :
    isTabOrNewline c = false ∧ (c ≠ ' ' → isControlOrSpace c = false) := by
  simp only [controlSet, Bool.or_eq_false_iff, decide_eq_false_iff_not] at h
  constructor
  · simp only [isTabOrNewline, Bool.or_eq_false_iff, decide_eq_false_iff_not]
    and_intros <;> rintro rfl <;> exact absurd h (by decide)
  · intro hblank
    rw [isControlOrSpace, decide_eq_false_iff_not]
    intro hle
    have hnat : c.toNat = 32 := by omega
    exact hblank (by rw [← Char.ofNat_toNat c, hnat])

/-- All of a printable text counts that does not end in a blank. -/
theorem significant_of_printable {s : String} (hprint : ∀ c ∈ s.toList, controlSet c = false)
    (hlast : s.toList.getLast? ≠ some ' ') :
    significant ("builtin:" ++ s) = "builtin:".toList ++ s.toList := by
  have hscheme : ∀ c ∈ "builtin:".toList, isTabOrNewline c = false := forall_eq_false (by decide)
  rw [← String.toList_append]
  refine significant_eq_toList (fun c hc => ?_) (fun c hc => ?_) fun c hc => ?_
  · rw [String.toList_append] at hc
    cases hc
    rfl
  · rw [String.toList_append, List.getLast?_append] at hc
    cases hend : s.toList.getLast? with
    | none =>
      rw [hend] at hc
      cases hc
      rfl
    | some last =>
      rw [hend] at hc
      cases hc
      refine (of_controlSet (hprint c (List.mem_of_getLast? hend))).2 ?_
      rintro rfl
      exact hlast hend
  · rw [String.toList_append] at hc
    rcases List.mem_append.1 hc with hc | hc
    · exact hscheme c hc
    · exact (of_controlSet (hprint c hc)).1

theorem controlSet_of_pathSet {c : Char} (h : pathSet c = false) : controlSet c = false := by
  simp only [pathSet, fragmentSet, EncodeSet.with, Bool.or_eq_false_iff] at h
  exact h.1.1

theorem significant_of_kept {s : String} (h : ∀ c ∈ s.toList, pathSet c = false) :
    significant ("builtin:" ++ s) = "builtin:".toList ++ s.toList := by
  refine significant_of_printable (fun c hc => controlSet_of_pathSet (h c hc)) fun hlast => ?_
  exact absurd (h ' ' (List.mem_of_getLast? hlast)) (by decide)

/-! ## Segments behind a plain scheme -/

theorem of_mem_pathFrom_plain {part : String} {c : Char} (hpart : part ∈ pathFrom .plain [] cs)
    (hc : c ∈ part.toList) : pathSet c = false ∧ c ≠ '/' := by
  refine of_mem_appendSegments (P := fun c => pathSet c = false ∧ c ≠ '/') (by decide)
    (fun _ h => absurd h List.not_mem_nil) (fun other hother d hd => ?_) part hpart c hc
  obtain ⟨chars, hchars, rfl⟩ := List.mem_map.1 hother
  rw [String.toList_ofList] at hd
  rcases mem_encode hd with hescape | ⟨hmem, hset⟩
  · refine ⟨plain_pathSet d hescape, ?_⟩
    rintro rfl
    exact absurd hescape (by decide)
  · refine ⟨hset, ?_⟩
    rintro rfl
    exact absurd (not_slash_of_mem_splitWhere hchars hmem).2 (by decide)

theorem of_mem_rootPath_plain {part : String} {c : Char} (hpart : part ∈ rootPath .plain cs)
    (hc : c ∈ part.toList) : pathSet c = false ∧ c ≠ '/' := by
  unfold rootPath at hpart
  split at hpart
  next => cases hpart
  next =>
    split at hpart
    next => exact of_mem_pathFrom_plain hpart hc
    next => exact of_mem_pathFrom_plain hpart hc

/-- Each segment stands behind a slash, and none holds one. -/
theorem count_pathChars {parts : List String} (h : ∀ part ∈ parts, ∀ c ∈ part.toList, c ≠ '/') :
    (pathChars parts).count '/' = parts.length := by
  induction parts with
  | nil => rfl
  | cons part parts ih =>
    have hpart : part.toList.count '/' = 0 :=
      List.count_eq_zero.2 fun hmem => h part List.mem_cons_self '/' hmem rfl
    have hrest := ih fun other hother => h other (List.mem_cons_of_mem part hother)
    rw [pathChars, List.flatMap_cons, ← pathChars, List.count_append, List.count_cons_self, hpart,
      hrest, List.length_cons]
    omega

theorem length_appendSegment_le (k : Kind) (done : List String) (part : String) (isLast : Bool) :
    (appendSegment k done part isLast).length ≤ done.length + 1 := by
  have hparent : (parent done).length ≤ done.length := by
    unfold parent
    split
    next => exact Nat.zero_le _
    next =>
      split
      next => exact Nat.le_refl _
      next => rw [List.length_dropLast]; exact Nat.sub_le _ _
  have hbehind : (if isLast then [""] else []).length ≤ 1 := by cases isLast <;> decide
  unfold appendSegment
  dsimp only
  split
  next => rw [List.length_append]; omega
  split
  next => rw [List.length_append]; omega
  split
  next => exact Nat.le_add_left _ _
  next => rw [List.length_append]; exact Nat.le_refl _

theorem length_appendSegments_le (k : Kind) (done parts : List String) :
    (appendSegments k done parts).length ≤ done.length + parts.length := by
  induction parts generalizing done with
  | nil => exact Nat.le_refl _
  | cons part rest ih =>
    cases rest with
    | nil => exact length_appendSegment_le k done part true
    | cons next rest =>
      have hstep := length_appendSegment_le k done part false
      have hrest := ih (appendSegment k done part false)
      simp only [List.length_cons] at hrest ⊢
      exact Nat.le_trans hrest (by omega)

theorem length_splitWhere_plain (cs : List Char) :
    (splitWhere (isSlash .plain) cs).length = cs.count '/' + 1 := by
  induction cs with
  | nil => rfl
  | cons c cs ih =>
    rw [splitWhere, List.count_cons]
    split
    next hslash =>
      have hc : c = '/' := by simpa [isSlash, Kind.isSpecial] using hslash
      simp [ih, hc]
    next hslash =>
      have hc : c ≠ '/' := by simpa [isSlash, Kind.isSpecial] using hslash
      obtain ⟨first, rest, hsplit⟩ := exists_splitWhere (isSlash .plain) cs
      rw [hsplit] at ih ⊢
      simpa [hc] using ih

/-- A path behind an authority has at most one slash that the text does not have. -/
theorem count_rootPath_plain (cs : List Char) :
    (pathChars (rootPath .plain cs)).count '/' ≤ cs.count '/' + 1 := by
  have hfrom : ∀ cs, (pathFrom .plain [] cs).length ≤ cs.count '/' + 1 := by
    intro cs
    have hle := length_appendSegments_le .plain []
      ((splitWhere (isSlash .plain) cs).map fun part => String.ofList (encode pathSet part))
    rw [List.length_map, length_splitWhere_plain, List.length_nil, Nat.zero_add] at hle
    exact hle
  rw [count_pathChars fun part hpart c hc => (of_mem_rootPath_plain hpart hc).2]
  unfold rootPath
  split
  next => exact Nat.zero_le _
  next c rest =>
    split
    next =>
      have hle := hfrom rest
      rw [List.count_cons]
      omega
    next => exact hfrom _

theorem pathChars_splitWhere_plain (cs : List Char) :
    pathChars ((splitWhere (isSlash .plain) cs).map String.ofList) = '/' :: cs := by
  rw [pathChars, List.flatMap_map, ← joined_splitWhere_plain]
  simp only [String.toList_ofList]

/-- Segments of which no character is encoded. -/
theorem map_encode_kept (h : ∀ c ∈ cs, pathSet c = false) :
    (splitWhere (isSlash .plain) cs).map (fun part => String.ofList (encode pathSet part)) =
      (splitWhere (isSlash .plain) cs).map String.ofList := by
  refine List.map_congr_left fun part hpart => ?_
  rw [encode_of_forall fun c hc => h c (not_slash_of_mem_splitWhere hpart hc).1]

theorem pathFrom_kept (h : ∀ c ∈ cs, pathSet c = false)
    (hdots : ∀ part ∈ splitWhere (isSlash .plain) cs, isDots (String.ofList part) = false) :
    pathFrom .plain [] cs = (splitWhere (isSlash .plain) cs).map String.ofList := by
  change appendSegments .plain [] ((splitWhere (isSlash .plain) cs).map _) = _
  rw [map_encode_kept h, appendSegments_plain (k := .plain) nofun, List.nil_append]
  intro part hpart
  obtain ⟨chars, hchars, rfl⟩ := List.mem_map.1 hpart
  exact hdots chars hchars

theorem splitPath_kept (h : ∀ c ∈ cs, endsPath c = false) : splitPath cs = (cs, []) := by
  have hsplit : splitPath (cs ++ []) = (cs, []) := splitPath_append h nofun
  rwa [List.append_nil] at hsplit

/-! ## Builtin URLs -/

variable {s : String}

theorem parse_builtin (h : significant ("builtin:" ++ s) = "builtin:".toList ++ cs) :
    parse ("builtin:" ++ s) = plain "builtin" cs := by
  unfold parse parseWith
  simp only [h, scheme?_builtin]
  rfl

/-- Without a double slash in front, no slash and no dot have to be put before the path. -/
theorem authorityText_rooted (h : cs.head? ≠ some '/') : authorityText
    { scheme, path := .segments ((splitWhere (isSlash .plain) cs).map String.ofList) } = "" := by
  cases cs with
  | nil => rfl
  | cons c cs =>
    have hc : isSlash .plain c = false := by simpa [isSlash, Kind.isSpecial] using h
    obtain ⟨first, rest, hsplit⟩ := exists_splitWhere (isSlash .plain) cs
    rw [splitWhere, hc, hsplit]
    unfold authorityText
    dsimp only
    split
    next heq =>
      injection heq with heq
      have hfirst := congrArg String.toList (List.cons.inj heq).1
      rw [String.toList_ofList] at hfirst
      cases hfirst
    next => rfl

theorem text_of_builtin {path : Path} (hpath : path.text = s)
    (hauthority : authorityText { scheme := "builtin", path } = "") :
    text { scheme := "builtin", path } = "builtin:" ++ s := by
  have hscheme : "builtin" ++ ":" = "builtin:" := by decide
  rw [text, hauthority, hpath, hscheme]
  simp [queryText, fragmentText]

/-- What reads as a path is the path of the URL, and the URL is written as the text is. -/
theorem ReadsAsPath.parse (h : ReadsAsPath s.toList) :
    ∃ url, Url.parse ("builtin:" ++ s) = .ok url ∧ url.path.text = s ∧
      url.text = "builtin:" ++ s := by
  generalize hcs : s.toList = cs at h
  cases h with
  | rootless hhead hchars hlast =>
    subst hcs
    have hcounts := significant_of_printable (fun c hc => (hchars c hc).1) hlast
    refine ⟨{ scheme := "builtin", path := .rootless s }, ?_, rfl, text_of_builtin rfl rfl⟩
    rw [parse_builtin hcounts, plain_rootless hhead, splitPath_kept fun c hc => (hchars c hc).2]
    dsimp only
    rw [encode_of_forall fun c hc => (hchars c hc).1, String.ofList_toList]
    rfl
  | @rooted rest hhead hchars hdots =>
    have hkept : ∀ c ∈ s.toList, pathSet c = false := by
      intro c hc
      rw [hcs] at hc
      rcases List.mem_cons.1 hc with rfl | hc
      · decide
      · exact hchars c hc
    have hcounts := significant_of_kept hkept
    have hpath :
        (Path.segments ((splitWhere (isSlash .plain) rest).map String.ofList)).text = s := by
      rw [← String.toList_inj, toList_text, pathChars_splitWhere_plain, hcs]
    refine ⟨{ scheme := "builtin", path := _ }, ?_, hpath,
      text_of_builtin hpath (authorityText_rooted hhead)⟩
    rw [parse_builtin hcounts, hcs, plain_rooted hhead,
      splitPath_kept fun c hc => (of_pathSet (hchars c hc)).2.2]
    dsimp only
    rw [pathFrom_kept hchars hdots]
    rfl

/-! ## Which texts are paths -/

/-- Behind an authority the path has fewer slashes than the text. -/
theorem count_path_of_authority (hkind : Kind.ofScheme scheme = .plain)
    (h : plain scheme ('/' :: '/' :: cs) = .ok u) :
    u.path.text.toList.count '/' < ('/' :: '/' :: cs).count '/' := by
  have hhierarchical : hierarchical scheme cs = .ok u := h
  unfold hierarchical at hhierarchical
  cases hread : readAuthority scheme cs with
  | error fault => rw [hread] at hhierarchical; cases hhierarchical
  | ok result =>
    obtain ⟨a, rest⟩ := result
    rw [hread] at hhierarchical
    cases hhierarchical
    have hsub : (splitPath rest).1.Sublist cs :=
      (List.takeWhile_sublist _).trans (sublist_readAuthority hread)
    have hle := hsub.count_le '/'
    have hpath := count_rootPath_plain (splitPath rest).1
    rw [path_withTail, hkind, toList_text, List.count_cons_self, List.count_cons_self]
    change (pathChars (rootPath .plain (splitPath rest).1)).count '/' < _
    omega

/-- A path of segments that is the whole text is read from the whole text. -/
theorem rooted_of_path {rest : List Char}
    (hcounts : significant ("builtin:" ++ s) = "builtin:".toList ++ '/' :: rest)
    (hhead : rest.head? ≠ some '/')
    (hpath : (Path.segments (pathFrom .plain [] (splitPath rest).1)).text = s) :
    ReadsAsPath s.toList := by
  have hchars : s.toList = pathChars (pathFrom .plain [] (splitPath rest).1) := by
    rw [← hpath, toList_text]
  have hkept : ∀ c ∈ s.toList, pathSet c = false := by
    intro c hc
    rw [hchars] at hc
    obtain ⟨part, hpart, hc⟩ := List.mem_flatMap.1 hc
    rcases List.mem_cons.1 hc with rfl | hc
    · decide
    · exact (of_mem_pathFrom_plain hpart hc).1
  -- a path shows no character that would not count, so all of the text counts
  have hs : s.toList = '/' :: rest :=
    List.append_cancel_left ((significant_of_kept hkept).symm.trans hcounts)
  have hrest : ∀ c ∈ rest, pathSet c = false :=
    fun c hc => hkept c (hs ▸ List.mem_cons_of_mem '/' hc)
  rw [splitPath_kept fun c hc => (of_pathSet (hrest c hc)).2.2] at hchars
  -- dots would make the path shorter than the text
  have hlength :
      (pathBytes (pathFrom .plain [] rest)).length = 1 + (decode (utf8 rest)).length := by
    have hslash : utf8 ['/'] = [47] := rfl
    rw [← decode_pathChars, ← hchars, hs, utf8_cons, hslash, List.singleton_append,
      decode_of_ne (by decide), List.length_cons, Nat.add_comm]
  have hle := length_appendSegments .plain []
    ((splitWhere (isSlash .plain) rest).map fun part => String.ofList (encode pathSet part))
  rw [pathBytes_splitWhere_plain, List.length_cons, map_encode_kept hrest] at hle
  have hread : pathFrom .plain [] rest =
      appendSegments .plain [] ((splitWhere (isSlash .plain) rest).map String.ofList) := by
    rw [← map_encode_kept hrest]
    rfl
  have hnil : (pathBytes []).length = 0 := rfl
  rw [← hread, hlength, hnil] at hle
  have hdots : ((splitWhere (isSlash .plain) rest).map String.ofList).any isDots = false := by
    cases hany : ((splitWhere (isSlash .plain) rest).map String.ofList).any isDots with
    | false => rfl
    | true => rw [hany, Bool.toNat_true] at hle; omega
  rw [hs]
  refine .rooted hhead hrest fun part hpart => ?_
  exact Bool.eq_false_iff.2 (List.any_eq_false.1 hdots _ (List.mem_map_of_mem hpart))

/-- A path without segments that is the whole text is read from the whole text. -/
theorem rootless_of_path (hcounts : significant ("builtin:" ++ s) = "builtin:".toList ++ cs)
    (hsub : cs.Sublist s.toList) (hhead : cs.head? ≠ some '/')
    (hpath : String.ofList (encode controlSet (splitPath cs).1) = s) : ReadsAsPath s.toList := by
  have hencoded : s.toList = encode controlSet (splitPath cs).1 := by
    rw [← hpath, String.toList_ofList]
  have hkept : ∀ c ∈ s.toList, controlSet c = false := by
    intro c hc
    rw [hencoded] at hc
    rcases mem_encode hc with hescape | ⟨-, hset⟩
    · exact plain_controlSet c hescape
    · exact hset
  have hfront : (splitPath cs).1.Sublist cs := List.takeWhile_sublist _
  have hsplit : s.toList = (splitPath cs).1 := by
    rw [hencoded, encode_of_forall fun c hc => hkept c ((hfront.trans hsub).mem hc)]
  -- the path is part of what counts, and that is part of the text
  have hs : cs = s.toList := hsub.antisymm (hsplit ▸ hfront)
  refine .rootless (hs ▸ hhead) (fun c hc => ⟨hkept c hc, ?_⟩) fun hblank => ?_
  · rw [hsplit] at hc
    simpa using List.all_eq_true.1 List.all_takeWhile c hc
  · have hlast : (significant ("builtin:" ++ s)).getLast? = some ' ' := by
      rw [hcounts, hs, List.getLast?_append, hblank]
      rfl
    exact absurd (getLast?_significant hlast) (by decide)

/-- The texts that are the paths of the URLs that they make. -/
theorem path_parse_builtin_iff : (∃ url, parse ("builtin:" ++ s) = .ok url ∧ url.path.text = s) ↔
    ReadsAsPath s.toList := by
  constructor
  · rintro ⟨url, hparse, hpath⟩
    obtain ⟨rest, hcounts⟩ := significant_builtin s
    have hsub : rest.Sublist s.toList := by
      have hwhole := sublist_significant ("builtin:" ++ s)
      rw [hcounts, String.toList_append] at hwhole
      exact (List.append_sublist_append_left _).1 hwhole
    rw [parse_builtin hcounts] at hparse
    -- what counts may start an authority, segments behind one slash, or a path without segments
    by_cases hslash : rest.head? = some '/'
    · obtain ⟨rest, rfl⟩ := List.head?_eq_some_iff.1 hslash
      by_cases hdouble : rest.head? = some '/'
      · obtain ⟨rest, rfl⟩ := List.head?_eq_some_iff.1 hdouble
        have hlt := count_path_of_authority rfl hparse
        rw [hpath] at hlt
        exact absurd (hsub.count_le '/') (Nat.not_le.2 hlt)
      · rw [plain_rooted hdouble] at hparse
        cases hparse
        rw [path_withTail] at hpath
        exact rooted_of_path hcounts hdouble hpath
    · rw [plain_rootless hslash] at hparse
      cases hparse
      rw [path_withTail] at hpath
      exact rootless_of_path hcounts hsub hslash hpath
  · intro h
    obtain ⟨url, hparse, hpath, -⟩ := h.parse
    exact ⟨url, hparse, hpath⟩

end Url

/-! ## Identifiers in URLs -/

namespace Host

variable {host : Host} {front path id : String} {url : Url} {table : TableId}

theorem builtinId?_eq_some : builtinId? front path = some id ↔ id ≠ "" ∧ path = front ++ id := by
  unfold builtinId?
  constructor
  · intro h
    split at h
    next hprefix =>
      obtain ⟨rest, hrest⟩ := List.isPrefixOf_iff_prefix.1 hprefix
      rw [← hrest, List.drop_left] at h
      split at h
      next => cases h
      next hne =>
        cases h
        refine ⟨fun hempty => hne (String.ofList_eq_empty_iff.1 hempty), ?_⟩
        rw [← String.toList_inj, String.toList_append, String.toList_ofList, hrest]
    next => cases h
  · rintro ⟨hid, rfl⟩
    rw [String.toList_append, if_pos (List.isPrefixOf_iff_prefix.2 ⟨_, rfl⟩), List.drop_left]
    split
    next hempty => exact absurd (String.toList_eq_nil_iff.1 hempty) hid
    next => rw [String.ofList_toList]

/-- What is registered under the identifier is what the bridge is filled from. -/
theorem bridge_of_registered (hid : builtinId? front url.path.text = some id)
    (htable : host.registry.get? id = some table) :
    ∃ host', host.bridge front url = (host', .ok ⟨host.store.units.size⟩) ∧
      host'.store = host.store.enact
        (.bridge url (host.store.tables.read table).names (some [.fill table])) := by
  unfold bridge Registry.load?
  rw [hid]
  dsimp only
  rw [htable]
  exact ⟨_, rfl, rfl⟩

theorem bridge_of_unregistered (hid : builtinId? front url.path.text = some id)
    (hnone : host.registry.get? id = none) :
    host.bridge front url = (host, .error (.unknownBuiltin id)) := by
  unfold bridge Registry.load?
  rw [hid]
  dsimp only
  rw [hnone]
  rfl

end Host

/-! ## Identifiers in specifiers -/

namespace Settings

variable {config : Config} {settings : Settings} {files : Files} {referrer : Option Url}
  {id : String} {target : Resolved} {url : Url}

/-- Behind the prefix, neither the referrer nor any file has a say. -/
theorem resolve_prefixed_iff (heval : settings.builtinPrefix ++ id ≠ settings.evalSpecifier) :
    settings.resolve files (settings.builtinPrefix ++ id) referrer = .ok target ↔
      ∃ url, Url.parse ("builtin:" ++ (settings.builtinPrefix ++ id)) = .ok url ∧
        target = ⟨url, .builtin⟩ := by
  have hprefix : isPrefix settings.builtinPrefix (settings.builtinPrefix ++ id) = true := by
    rw [isPrefix, String.toList_append]
    exact List.isPrefixOf_iff_prefix.2 ⟨_, rfl⟩
  have hfixed : settings.isFixed (settings.builtinPrefix ++ id) = true := by simp [isFixed, hprefix]
  rw [resolve_eq_ok]
  constructor
  · intro h
    cases h with
    | eval heval' => exact absurd heval' heval
    | builtin _ _ hparse => exact ⟨_, hparse, rfl⟩
    | data hjoined | remote hjoined => cases hfixed.symm.trans hjoined
    | literal hcandidates | extended hcandidates =>
      cases hfixed.symm.trans (joined_of_candidates hcandidates).1
  · rintro ⟨url, hparse, rfl⟩
    exact .builtin heval hprefix hparse

/-- The identifier in a specifier is recovered from the URL exactly if the specifier reads as a
path. -/
theorem named_iff (hid : id ≠ "") (heval : settings.builtinPrefix ++ id ≠ settings.evalSpecifier) :
    (∃ url, settings.resolve files (settings.builtinPrefix ++ id) referrer = .ok ⟨url, .builtin⟩ ∧
      Host.builtinId? settings.builtinPrefix url.path.text = some id) ↔
    Url.ReadsAsPath (settings.builtinPrefix ++ id).toList := by
  rw [← Url.path_parse_builtin_iff]
  refine exists_congr fun url => and_congr ?_ ?_
  · rw [resolve_prefixed_iff heval]
    constructor
    · rintro ⟨_, hparse, heq⟩
      cases heq
      exact hparse
    · exact fun hparse => ⟨url, hparse, rfl⟩
  · rw [Host.builtinId?_eq_some, and_iff_right hid]

/-- The URL of a library under its identifier, and what any host makes of it. -/
structure Offers (settings : Settings) (id : String) (url : Url) : Prop where
  resolved : ∀ files referrer,
    settings.resolve files (settings.builtinPrefix ++ id) referrer = .ok ⟨url, .builtin⟩
  written : url.text = "builtin:" ++ (settings.builtinPrefix ++ id)
  named : Host.builtinId? settings.builtinPrefix url.path.text = some id
  registered : ∀ (host : Host) table, host.registry.get? id = some table →
    ∃ host', host.bridge settings.builtinPrefix url = (host', .ok ⟨host.store.units.size⟩) ∧
      host'.store = host.store.enact
        (.bridge url (host.store.tables.read table).names (some [.fill table]))
  unregistered : ∀ host : Host, host.registry.get? id = none →
    host.bridge settings.builtinPrefix url = (host, .error (.unknownBuiltin id))

theorem Offers.unique {other : String} {otherUrl : Url} (h : settings.Offers id url)
    (hother : settings.Offers other otherUrl) (hurl : otherUrl = url) : other = id := by
  have hnamed := hother.named
  rw [hurl, h.named] at hnamed
  exact (Option.some.inj hnamed).symm

theorem exists_offers (hid : id ≠ "")
    (heval : settings.builtinPrefix ++ id ≠ settings.evalSpecifier)
    (hreads : Url.ReadsAsPath (settings.builtinPrefix ++ id).toList) :
    ∃ url, settings.Offers id url := by
  obtain ⟨url, hparse, hpath, htext⟩ := hreads.parse
  have hnamed : Host.builtinId? settings.builtinPrefix url.path.text = some id :=
    Host.builtinId?_eq_some.2 ⟨hid, hpath⟩
  exact ⟨url, fun _ _ => (resolve_prefixed_iff heval).2 ⟨url, hparse, rfl⟩, htext, hnamed,
    fun _ _ => Host.bridge_of_registered hnamed, fun _ => Host.bridge_of_unregistered hnamed⟩

/--
Of a specifier that is the prefix with an identifier behind it:
* the URL to which it leads, from wherever, has the identifier behind the prefix of its path exactly
  if the specifier reads as a path;
* then the URL is the specifier behind the scheme, every host bridges from it what is registered
  under the identifier or knows no library of that identifier, and no other identifier that is
  offered so has the same URL.
-/
theorem library_by_name (hconfig : ofConfig config = .ok settings) (hid : id ≠ "")
    (heval : config.builtinPrefix ++ id ≠ config.evalSpecifier) :
    (∀ files referrer,
      (∃ url, settings.resolve files (config.builtinPrefix ++ id) referrer = .ok ⟨url, .builtin⟩ ∧
        Host.builtinId? config.builtinPrefix url.path.text = some id) ↔
      Url.ReadsAsPath (config.builtinPrefix ++ id).toList) ∧
    (Url.ReadsAsPath (config.builtinPrefix ++ id).toList → ∃ url, settings.Offers id url ∧
      ∀ other otherUrl, settings.Offers other otherUrl → other ≠ id → otherUrl ≠ url) := by
  obtain ⟨-, -, -, -, hprefix, hevalSpecifier, -⟩ := ofConfig_eq_ok hconfig
  rw [← hprefix, ← hevalSpecifier] at heval
  rw [← hprefix]
  refine ⟨fun files referrer => named_iff hid heval, fun hreads => ?_⟩
  obtain ⟨url, hoffers⟩ := exists_offers hid heval hreads
  exact ⟨url, hoffers, fun other otherUrl hother hne hurl => hne (hoffers.unique hother hurl)⟩

/-- Dots and blanks inside an identifier are kept. -/
theorem library_by_name_dotted :
    let text : Url := { scheme := "builtin", path := .rootless "@rt/text/../a b" }
    let twoLibraries : Host := {
      store := { tables := ⟨#[[("upper", .undefined)], [("lower", .undefined)]]⟩ }
      registry := [("a b", ⟨0⟩), ("text/../a b", ⟨1⟩)] }
    ofConfig { cwd := some "/project" } = .ok atProject ∧ "text/../a b" ≠ "" ∧
      "@rt/" ++ "text/../a b" ≠ "[eval]" ∧ Url.ReadsAsPath ("@rt/" ++ "text/../a b").toList ∧
      atProject.resolve [] "@rt/text/../a b" none = .ok ⟨text, .builtin⟩ ∧
      Host.builtinId? "@rt/" text.path.text = some "text/../a b" ∧
      (twoLibraries.bridge "@rt/" text).1.store =
        twoLibraries.store.enact (.bridge text ["lower"] (some [.fill ⟨1⟩])) := by
  intro text twoLibraries
  have hconfig : ofConfig { cwd := some "/project" } = .ok atProject := rfl
  have hreads : Url.ReadsAsPath ("@rt/" ++ "text/../a b").toList :=
    .rootless (by decide) (fun c hc => ⟨Url.forall_eq_false (by decide) c hc,
      Url.forall_eq_false (by decide) c hc⟩) (by decide)
  have hresolve : atProject.resolve [] "@rt/text/../a b" none = .ok ⟨text, .builtin⟩ :=
    resolve_of_toOption (by decide +kernel)
  have hid : "text/../a b" ≠ "" := by decide
  obtain ⟨url, hoffers, -⟩ := (library_by_name hconfig hid (by decide)).2 hreads
  have hsame := (hoffers.resolved [] none).symm.trans hresolve
  cases hsame
  obtain ⟨host, hbridge, hstore⟩ := hoffers.registered twoLibraries ⟨1⟩ rfl
  have hnames : (twoLibraries.store.tables.read ⟨1⟩).names = ["lower"] := by decide +kernel
  refine ⟨hconfig, hid, by decide, hreads, hresolve, hoffers.named, ?_⟩
  change twoLibraries.bridge "@rt/" text = _ at hbridge
  rw [hbridge, ← hnames]
  exact hstore

/--
Other identifiers are written differently in the URL, and the library that is looked up is the one
that is called what is written there. So the library that is registered is not found, and two
identifiers have one URL.
-/
theorem library_not_by_name :
    let url : Url := { scheme := "builtin", path := .rootless "@rt/%C3%A9" }
    let host : Host := { registry := [("é", ⟨0⟩)] }
    ofConfig { cwd := some "/project" } = .ok atProject ∧ "@rt/" ++ "é" ≠ "[eval]" ∧
      (∀ files referrer, atProject.resolve files ("@rt/" ++ "é") referrer = .ok ⟨url, .builtin⟩) ∧
      (∀ files referrer,
        atProject.resolve files ("@rt/" ++ "%C3%A9") referrer = .ok ⟨url, .builtin⟩) ∧
      Host.builtinId? "@rt/" url.path.text = some "%C3%A9" ∧
      host.registry.get? "é" = some ⟨0⟩ ∧
      host.bridge "@rt/" url = (host, .error (.unknownBuiltin "%C3%A9")) := by
  intro url host
  have hnamed : Host.builtinId? "@rt/" url.path.text = some "%C3%A9" := by decide +kernel
  have hresolve : ∀ id, (Url.parse ("builtin:" ++ ("@rt/" ++ id))).toOption = some url →
      "@rt/" ++ id ≠ "[eval]" → ∀ files referrer,
        atProject.resolve files ("@rt/" ++ id) referrer = .ok ⟨url, .builtin⟩ := by
    intro id hparse heval files referrer
    rw [show ("@rt/" : String) = atProject.builtinPrefix from rfl] at heval ⊢
    refine (resolve_prefixed_iff heval).2 ⟨url, ?_, rfl⟩
    cases h : Url.parse ("builtin:" ++ ("@rt/" ++ id)) with
    | error fault => rw [h] at hparse; cases hparse
    | ok found => rw [h] at hparse; cases hparse; exact h
  exact ⟨rfl, by decide, hresolve "é" (by decide +kernel) (by decide),
    hresolve "%C3%A9" (by decide +kernel) (by decide), hnamed, rfl,
    Host.bridge_of_unregistered hnamed rfl⟩

end Settings

end ModuleLoader
