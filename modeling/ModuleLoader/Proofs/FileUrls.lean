import ModuleLoader.Proofs.Encoding
import ModuleLoader.Proofs.Format

/-!
# The form of file URLs

A file URL that comes from reading a text, from joining, from a directory or from setting a path
names no user and no port, its host is not the local one (which is written empty), and its
segments are encoded and hold no slash; the first of them is empty only if it is the only one.

Results:
1. `clean_pathFrom`: reading a path gives clean segments whatever is read.
2. `Made.local`: all of the above.
-/

namespace ModuleLoader.Url

/-! ## How URLs come about -/

/-- The URLs that programs have: there is no other way to make one. -/
inductive Made : Url → Prop
  | parsed {s : String} {u : Url} : parse s = .ok u → Made u
  | joined {base u : Url} {reference : String} : Made base → base.join reference = .ok u → Made u
  | directory {path : String} {u : Url} : ofDirectory? path = some u → Made u
  | withPath {u : Url} (path : String) : Made u → Made (u.setPath path)

/-- A segment as reading makes it: encoded, and without slashes of either kind. -/
def Clean (part : String) : Prop :=
  ∀ c ∈ part.toList, pathSet c = false ∧ c ≠ '/' ∧ c ≠ '\\'

/-- The segments of a file URL. -/
structure CleanPath (parts : List String) : Prop where
  ne_nil : parts ≠ []
  clean : ∀ part ∈ parts, Clean part
  alone : parts.head? = some "" → parts = [""]

structure Local (u : Url) : Prop where
  authority : ∃ host, u.authority = some { host } ∧ host ≠ .domain "localhost"
  path : ∃ parts, u.path = .segments parts ∧ CleanPath parts

/-! ## Segments -/

theorem clean_empty : Clean "" := by
  intro c hc
  cases hc

theorem cleanPath_empty : CleanPath [""] where
  ne_nil := List.cons_ne_nil _ _
  clean _ hpart := List.mem_singleton.1 hpart ▸ clean_empty
  alone _ := rfl

theorem not_slash_of_mem_splitWhere {p : Char → Bool} {cs part : List Char} {c : Char}
    (hpart : part ∈ splitWhere p cs) (hc : c ∈ part) : c ∈ cs ∧ p c = false := by
  induction cs generalizing part with
  | nil =>
    obtain rfl := List.mem_singleton.1 hpart
    cases hc
  | cons d cs ih =>
    rw [splitWhere] at hpart
    split at hpart
    next =>
      rcases List.mem_cons.1 hpart with rfl | hpart
      · cases hc
      · exact (ih hpart hc).imp_left (List.mem_cons_of_mem d)
    next hd =>
      cases hsplit : splitWhere p cs with
      | nil =>
        rw [hsplit] at hpart
        obtain rfl := List.mem_singleton.1 hpart
        obtain rfl := List.mem_singleton.1 hc
        exact ⟨List.mem_cons_self, by simpa using hd⟩
      | cons first rest =>
        rw [hsplit] at hpart ih
        rcases List.mem_cons.1 hpart with rfl | hpart
        · rcases List.mem_cons.1 hc with rfl | hc
          · exact ⟨List.mem_cons_self, by simpa using hd⟩
          · exact (ih List.mem_cons_self hc).imp_left (List.mem_cons_of_mem d)
        · exact (ih (List.mem_cons_of_mem _ hpart) hc).imp_left (List.mem_cons_of_mem d)

/-- The segments into which a path text splits that stands behind a slash of a file URL. -/
def segmentsOf (cs : List Char) : List String :=
  (splitWhere (isSlash .file) cs).map fun part => String.ofList (encode pathSet part)

theorem clean_segmentsOf {cs : List Char} {part : String} (h : part ∈ segmentsOf cs) :
    Clean part := by
  obtain ⟨chars, hchars, rfl⟩ := List.mem_map.1 h
  intro c hc
  rw [String.toList_ofList] at hc
  rcases mem_encode hc with hescape | ⟨hmem, hset⟩
  · refine ⟨plain_pathSet c hescape, ?_, ?_⟩ <;> rintro rfl <;> revert hescape <;> decide
  · have hslash := (not_slash_of_mem_splitWhere hchars hmem).2
    simp only [isSlash, Kind.isSpecial, Bool.or_eq_false_iff, Bool.and_eq_false_iff,
      decide_eq_false_iff_not] at hslash
    exact ⟨hset, hslash.1, hslash.2.resolve_left (by decide)⟩

theorem of_mem_firstFileSegment {part : String} {c : Char}
    (h : c ∈ (firstFileSegment part).toList) : c ∈ part.toList ∨ c = ':' := by
  unfold firstFileSegment at h
  split at h
  next d hpart =>
    split at h
    next =>
      rw [String.toList_ofList] at h
      rw [hpart]
      simp only [List.mem_cons, List.not_mem_nil, or_false] at h ⊢
      exact h.imp_left .inl
    next => exact .inl h
  next => exact .inl h

theorem mem_of_mem_parent {done : List String} {part : String} (h : part ∈ parent done) :
    part ∈ done := by
  unfold parent at h
  split at h
  next => cases h
  next =>
    split at h
    next => exact h
    next => exact List.dropLast_subset _ h

theorem mem_appendSegment {k : Kind} {done : List String} {part other : String} {isLast : Bool}
    (h : other ∈ appendSegment k done part isLast) :
    other ∈ done ∨ other = "" ∨ other = part ∨ other = firstFileSegment part := by
  have hbehind : other ∈ (if isLast then [""] else []) → other = "" := by
    intro hmem
    split at hmem
    next => exact List.mem_singleton.1 hmem
    next => cases hmem
  unfold appendSegment at h
  dsimp only at h
  split at h
  next => exact (List.mem_append.1 h).imp mem_of_mem_parent fun hmem => .inl (hbehind hmem)
  split at h
  next => exact (List.mem_append.1 h).imp_right fun hmem => .inl (hbehind hmem)
  split at h
  next => exact .inr (.inr (.inr (List.mem_singleton.1 h)))
  next => exact (List.mem_append.1 h).imp_right fun hmem => .inr (.inl (List.mem_singleton.1 hmem))

/-- Segments hold no characters but those from which they are read, and a colon. -/
theorem of_mem_appendSegments {k : Kind} {done parts : List String} {P : Char → Prop}
    (hcolon : P ':') (hdone : ∀ part ∈ done, ∀ c ∈ part.toList, P c)
    (hparts : ∀ part ∈ parts, ∀ c ∈ part.toList, P c) :
    ∀ part ∈ appendSegments k done parts, ∀ c ∈ part.toList, P c := by
  induction parts generalizing done with
  | nil => exact hdone
  | cons part rest ih =>
    have hpart := hparts part List.mem_cons_self
    have hstep : ∀ isLast, ∀ other ∈ appendSegment k done part isLast, ∀ c ∈ other.toList, P c := by
      intro isLast other hother c hc
      rcases mem_appendSegment hother with h | rfl | rfl | rfl
      · exact hdone other h c hc
      · cases hc
      · exact hpart c hc
      · rcases of_mem_firstFileSegment hc with hc | rfl
        · exact hpart c hc
        · exact hcolon
    cases rest with
    | nil => exact hstep true
    | cons next rest =>
      exact ih (hstep false) fun other hother => hparts other (List.mem_cons_of_mem part hother)

theorem clean_appendSegments {k : Kind} {done parts : List String}
    (hdone : ∀ part ∈ done, Clean part) (hparts : ∀ part ∈ parts, Clean part) :
    ∀ part ∈ appendSegments k done parts, Clean part :=
  of_mem_appendSegments (by decide) hdone hparts

theorem cleanPath_withoutLeadingEmpty {parts : List String} (h : ∀ part ∈ parts, Clean part) :
    CleanPath (withoutLeadingEmpty parts) := by
  unfold withoutLeadingEmpty
  split
  next => exact cleanPath_empty
  next rest hrest =>
    refine ⟨hrest, fun part hpart => h part ?_, fun hhead => ?_⟩
    · exact (List.dropWhile_sublist _).mem hpart
    · have hnot := List.head?_dropWhile_not (fun part : String => decide (part = "")) parts
      rw [hhead] at hnot
      simp at hnot

/-- Whatever is read, the segments of a file URL are clean. -/
theorem clean_pathFrom {done : List String} (hdone : ∀ part ∈ done, Clean part) (cs : List Char) :
    CleanPath (pathFrom .file done cs) :=
  cleanPath_withoutLeadingEmpty
    (clean_appendSegments hdone fun _ hpart => clean_segmentsOf hpart)

theorem clean_rootPath (cs : List Char) : CleanPath (rootPath .file cs) := by
  unfold rootPath
  split
  next => exact cleanPath_empty
  next =>
    split
    next => exact clean_pathFrom (by simp) _
    next => exact clean_pathFrom (by simp) _

/-! ## Whole URLs -/

theorem kind_eq_file {u : Url} : u.kind = .file ↔ u.scheme = "file" := by
  unfold kind Kind.ofScheme
  split
  next h => exact iff_of_true rfl h
  next h =>
    refine iff_of_false ?_ h
    split <;> exact Kind.noConfusion

theorem Local.of_parts {u v : Url} (h : Local u) (hauthority : v.authority = u.authority)
    (hpath : v.path = u.path) : Local v :=
  ⟨by rw [hauthority]; exact h.authority, by rw [hpath]; exact h.path⟩

theorem Local.withTail {u : Url} (h : Local u) (k : Kind) (cs : List Char) :
    Local (withTail k u cs) := by
  unfold Url.withTail
  split <;> exact h.of_parts rfl rfl

theorem Local.withPath {u : Url} {parts : List String} (h : Local u) (hparts : CleanPath parts)
    (cs : List Char) : Local (u.withPath parts cs) := by
  refine Local.withTail ?_ _ _
  exact ⟨h.authority, parts, rfl, hparts⟩

theorem local_filePath {host : Host} {parts : List String} (hhost : host ≠ .domain "localhost")
    (hparts : CleanPath parts) (cs : List Char) : Local (filePath host parts cs) := by
  refine Local.withTail ⟨⟨_, rfl, ?_⟩, parts, rfl, hparts⟩ _ _
  split
  next => exact Host.noConfusion
  next => exact hhost

theorem Local.parts {u : Url} (h : Local u) : u.path = .segments u.parts ∧ CleanPath u.parts := by
  obtain ⟨parts, hpath, hclean⟩ := h.path
  unfold Url.parts
  rw [hpath]
  exact ⟨rfl, hclean⟩

theorem Local.host {u : Url} (h : Local u) :
    (u.authority.map Authority.host).getD .empty ≠ .domain "localhost" := by
  obtain ⟨host, hauthority, hhost⟩ := h.authority
  rw [hauthority]
  exact hhost

theorem host_of_fileHost {cs rest : List Char} {host : Host} (h : fileHost cs = .ok (host, rest)) :
    host ≠ .domain "localhost" := by
  unfold fileHost at h
  dsimp only at h
  split at h
  next => cases h; exact Host.noConfusion
  split at h
  next => cases h; exact Host.noConfusion
  next =>
    cases hspecial : specialHost (cs.takeWhile fun c => !(isAnySlash c || endsPath c)) with
    | error fault => rw [hspecial] at h; cases h
    | ok found =>
      rw [hspecial] at h
      cases h
      split
      next => exact Host.noConfusion
      next hfound => exact hfound

theorem mem_directory {parts : List String} {part : String} (h : part ∈ (directory parts).1) :
    part ∈ parts := by
  unfold directory at h
  split at h
  next => cases h
  next last hlast =>
    split at h
    next =>
      split at h
      next => exact List.mem_singleton.1 h ▸ List.mem_of_getLast? hlast
      next => exact List.dropLast_subset _ h
    next => exact List.dropLast_subset _ h

theorem local_bare {base : Option Url} {cs : List Char} {u : Url}
    (hbase : ∀ b ∈ base, Local b) (h : file.bare base cs = .ok u) : Local u := by
  unfold file.bare at h
  split at h
  next b => cases h; exact (hbase b rfl).of_parts rfl rfl
  next b rest => cases h; exact (hbase b rfl).withTail _ _
  next b rest => cases h; exact (hbase b rfl).of_parts rfl rfl
  next cs b _ _ _ =>
    dsimp only at h
    split at h
    next => cases h; exact local_filePath Host.noConfusion (clean_pathFrom (by simp) _) _
    next =>
      cases h
      refine (hbase b rfl).withPath (clean_pathFrom (fun part hpart => ?_) _) _
      exact (hbase b rfl).parts.2.clean part (mem_directory hpart)
  next => cases h; exact local_filePath Host.noConfusion (clean_pathFrom (by simp) _) _

theorem local_oneSlash {base : Option Url} {cs : List Char} {u : Url}
    (hbase : ∀ b ∈ base, Local b) (h : file.oneSlash base cs = .ok u) : Local u := by
  unfold file.oneSlash at h
  split at h
  next c rest =>
    split at h
    next =>
      dsimp only at h
      split at h
      next => cases h; exact local_filePath Host.noConfusion (clean_pathFrom (by simp) _) _
      split at h
      next => cases h; exact local_filePath Host.noConfusion (clean_pathFrom (by simp) _) _
      next b =>
        split at h
        next hdrive =>
          cases h
          refine local_filePath Host.noConfusion (clean_pathFrom (fun part hpart => ?_) _) _
          obtain rfl := List.mem_singleton.1 hpart
          cases hhead : b.parts.head? with
          | none =>
            rw [hhead] at hdrive
            cases hdrive
          | some first => exact (hbase b rfl).parts.2.clean first (List.mem_of_head? hhead)
        next => cases h; exact local_filePath (hbase b rfl).host (clean_pathFrom (by simp) _) _
    next => exact local_bare hbase h
  next => exact local_bare hbase h

theorem local_file {base : Option Url} {cs : List Char} {u : Url}
    (hbase : ∀ b ∈ base, Local b) (h : file base cs = .ok u) : Local u := by
  unfold file at h
  split at h
  next c d rest =>
    split at h
    next =>
      cases hhost : fileHost rest with
      | error fault => rw [hhost] at h; cases h
      | ok result =>
        rw [hhost] at h
        cases h
        exact local_filePath (host_of_fileHost hhost) (clean_rootPath _) _
    next => exact local_oneSlash hbase h
  next => exact local_oneSlash hbase h

theorem scheme_relative {base u : Url} {cs : List Char} (h : relative base cs = .ok u) :
    u.scheme = base.scheme := by
  unfold relative at h
  split at h
  next => cases h; rfl
  next => cases h; exact scheme_withTail _ _ _
  next => cases h; rfl
  next =>
    split at h
    next =>
      split at h
      next => exact scheme_hierarchical h
      next => cases h; exact scheme_withTail _ _ _
    next => cases h; exact scheme_withTail _ _ _

theorem scheme_special {base : Option Url} {scheme : String} {cs : List Char} {u : Url}
    (h : special base scheme cs = .ok u) : u.scheme = scheme := by
  unfold special at h
  dsimp only at h
  split at h
  next b =>
    split at h
    next hsame => exact (scheme_relative h).trans hsame.2
    next => exact scheme_hierarchical h
  next => exact scheme_hierarchical h

theorem local_parseWith {base : Option Url} {s : String} {u : Url}
    (hbase : ∀ b ∈ base, b.scheme = "file" → Local b) (h : parseWith base s = .ok u)
    (hfile : u.scheme = "file") : Local u := by
  unfold parseWith at h
  dsimp only at h
  split at h
  next scheme rest hscheme =>
    split at h
    next =>
      refine local_file (fun b hb => ?_) h
      obtain ⟨hb, hbfile⟩ := Option.mem_filter_iff.1 hb
      exact hbase b hb (by simpa using hbfile)
    next hkind =>
      rw [← scheme_special h, hfile] at hkind
      cases hkind
    next hkind =>
      rw [← scheme_plain h, hfile] at hkind
      cases hkind
  next =>
    split at h
    next => cases h
    next b =>
      have hb := hbase b rfl
      split at h
      next => cases h; exact (hb hfile).of_parts rfl rfl
      next =>
        split at h
        next => cases h
        split at h
        next hkind =>
          refine local_file (fun b' hb' => ?_) h
          obtain rfl := Option.mem_some_iff.1 hb'
          exact hb (kind_eq_file.1 hkind)
        next hkind => exact absurd (kind_eq_file.2 ((scheme_relative h).symm.trans hfile)) hkind

theorem clean_fileName (part : List Char) : Clean (String.ofList (encode fileNameSet part)) := by
  intro c hc
  rw [String.toList_ofList] at hc
  rcases mem_encode hc with hescape | ⟨-, hset⟩
  · refine ⟨plain_pathSet c hescape, ?_, ?_⟩ <;> rintro rfl <;> revert hescape <;> decide
  · obtain ⟨hpath, hmore⟩ := Bool.or_eq_false_iff.1 hset
    refine ⟨hpath, ?_, ?_⟩ <;> rintro rfl <;> revert hmore <;> decide

theorem local_directory {path : String} {u : Url} (h : ofDirectory? path = some u) : Local u := by
  unfold ofDirectory? at h
  split at h
  next =>
    cases h
    refine ⟨⟨.empty, rfl, Host.noConfusion⟩, _, rfl, by simp, fun part hpart => ?_, fun hhead => ?_⟩
    · rcases List.mem_append.1 hpart with hpart | hpart
      · obtain ⟨name, -, rfl⟩ := List.mem_map.1 hpart
        exact clean_fileName name
      · exact List.mem_singleton.1 hpart ▸ clean_empty
    · cases hparts : pathComponents path with
      | nil => rfl
      | cons name names =>
        have hname : name ∈ pathComponents path := by simp [hparts]
        simp only [pathComponents, List.mem_filter, decide_eq_true_eq] at hname
        rw [hparts, List.map_cons, List.cons_append, List.head?_cons, Option.some.injEq] at hhead
        exact absurd (String.ofList_eq_empty_iff.1 hhead) (encode_ne_nil hname.2.1)
  next => cases h

theorem Made.local {u : Url} (h : Made u) (hfile : u.scheme = "file") : Local u := by
  induction h with
  | parsed hparse => exact local_parseWith (by simp) hparse hfile
  | joined hbase hjoin ih =>
    refine local_parseWith (fun b hb => ?_) hjoin hfile
    obtain rfl := Option.mem_some_iff.1 hb
    exact ih
  | directory hdirectory => exact local_directory hdirectory
  | @withPath u path hu ih =>
    have hkind : u.kind = .file := kind_eq_file.2 hfile
    refine ⟨(ih hfile).authority, _, rfl, ?_⟩
    rw [hkind]
    exact clean_rootPath _

end ModuleLoader.Url
