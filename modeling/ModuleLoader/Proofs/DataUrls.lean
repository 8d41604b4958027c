import ModuleLoader.Proofs.Paths
import ModuleLoader.Proofs.Sizes
import ModuleLoader.Source

/-!
# How much a URL holds

The source of a data URL stands in its path and its query, so what is imported there is shorter than
the URL. A reference that is read without the path of the URL therefore leads to one that holds less.
Only a reference that goes on from that path can lead to one that holds more.

Results:
1. `size_source_data`: the source of a data URL is no longer than what the URL holds.
2. `join_data`: a data URL to which a reference leads holds no more than the reference, if it does
   not continue the base.
3. `tail_join`: query and fragment come from the reference, or the query from the base.
-/

namespace ModuleLoader.Url

open Text (Bytes utf8 utf8Bytes size size_append size_cons size_le_of_sublist)

/-! ## Bytes that are held -/

/-- The number of bytes for which an encoded text stands. -/
def held (s : String) : Nat := (decode (utf8Bytes s)).length

/-- The number of bytes for which the path and the query of a URL stand. -/
def bulk (u : Url) : Nat := held u.pathAndQuery

theorem held_le_size (cs : List Char) : (decode (utf8 cs)).length ≤ size cs := length_decode_le _

theorem size_le_held (s : String) : size s.toList ≤ 3 * held s := length_le_decode _

theorem held_encode {set : EncodeSet} (h : set.Plain) (cs : List Char) :
    held (String.ofList (encode set cs)) ≤ size cs := by
  rw [held, utf8Bytes, String.toList_ofList, decode_encode h]
  exact held_le_size cs

theorem plain_controlSet : controlSet.Plain := forall_eq_false (by decide)

theorem plain_querySet : querySet.Plain := forall_eq_false (by decide)

theorem plain_specialQuerySet : specialQuerySet.Plain := forall_eq_false (by decide)

theorem held_segments (parts : List String) :
    held (Path.segments parts).text = (pathBytes parts).length := by
  rw [held, utf8Bytes, toList_text, decode_pathChars]

/-- The query is held besides the path, with a mark in front of it. -/
theorem bulk_eq (u : Url) :
    u.bulk = held u.path.text + u.query.elim 0 fun query => held query + 1 := by
  unfold bulk pathAndQuery queryText
  cases u.query with
  | none => simp
  | some query =>
    have hmark : utf8 ['?'] = [63] := rfl
    have hbytes : utf8Bytes (u.path.text ++ ("?" ++ query)) =
        utf8Bytes u.path.text ++ 63 :: utf8Bytes query := by
      simp only [utf8Bytes, String.toList_append]
      rw [utf8_append, utf8_append]
      rfl
    simp only [Option.elim_some]
    rw [held, hbytes, decode_append_cons _ (by decide) rfl, List.length_append, List.length_cons]
    rfl

/-! ## What data URLs hold -/

theorem length_data {u : Url} {bytes : Bytes} (h : u.data = .ok bytes) : bytes.length ≤ u.bulk := by
  unfold data at h
  split at h
  next => cases h
  next =>
    dsimp only at h
    have hsplit := List.takeWhile_append_dropWhile (p := fun c : Char => decide (c ≠ ','))
      (l := u.pathAndQuery.toList)
    split at h
    next => cases h
    next c body hbody =>
      have hcomma : c = ',' := by
        have hnot := List.head?_dropWhile_not (fun c : Char => decide (c ≠ ',')) u.pathAndQuery.toList
        rw [hbody] at hnot
        simpa using hnot
      have hlength : (decode (utf8 body)).length ≤ u.bulk := by
        have hmark : utf8 [','] = [44] := rfl
        rw [bulk, held, utf8Bytes, ← hsplit, hbody, hcomma, utf8_append, utf8_cons, hmark,
          List.singleton_append, decode_append_cons _ (by decide) rfl, List.length_append,
          List.length_cons]
        omega
      split at h
      next =>
        split at h
        next decoded hdecoded =>
          cases h
          have hfilter := List.length_filter_le (fun b => !isBodyBlank b) (decode (utf8 body))
          have hbase := Base64.length_decode hdecoded
          omega
        next => cases h
      next =>
        cases h
        exact hlength

theorem source_of_data {u : Url} (hdata : u.scheme = "data") (files : Files)
    (supplied : Option String) : u.source files supplied = u.data.bind (sourceText u) := by
  have heval : u ≠ evalModule := by
    rintro rfl
    exact absurd hdata (by decide)
  unfold source sourcePlace
  rw [if_neg heval, if_pos hdata]
  rfl

theorem sourceText_eq_ok {u : Url} {bytes : Bytes} {text : String} :
    sourceText u bytes = .ok text ↔ Text.ofUtf8? bytes = some text := by
  unfold sourceText
  split
  next found hfound =>
    rw [hfound]
    exact ⟨fun h => congrArg some (Except.ok.inj h), fun h => congrArg Except.ok (Option.some.inj h)⟩
  next hnone =>
    rw [hnone]
    exact iff_of_false (fun h => by cases h) (fun h => by cases h)

/-- The source of a data URL is no longer than what the URL holds. -/
theorem size_source_data {u : Url} {files : Files} {supplied : Option String} {text : String}
    (hdata : u.scheme = "data") (h : u.source files supplied = .ok text) :
    size text.toList ≤ u.bulk := by
  rw [source_of_data hdata] at h
  cases hbytes : u.data with
  | error e => rw [hbytes] at h; cases h
  | ok bytes =>
    rw [hbytes] at h
    have htext := sourceText_eq_ok.mp h
    exact Nat.le_trans (Text.size_ofUtf8? htext).le (length_data hbytes)

/-! ## What reading makes of a text -/

theorem sublist_significant (s : String) : (significant s).Sublist s.toList := by
  unfold significant
  refine List.filter_sublist.trans ?_
  have hinner := List.dropWhile_sublist isControlOrSpace
    (l := (s.toList.dropWhile isControlOrSpace).reverse)
  exact (List.reverse_sublist.2 hinner).trans
    (by rw [List.reverse_reverse]; exact List.dropWhile_sublist _)

theorem sublist_scheme? {cs rest : List Char} {scheme : String}
    (h : scheme? cs = some (scheme, rest)) : (':' :: rest).Sublist cs := by
  unfold scheme? at h
  dsimp only at h
  split at h
  next first name rest' _ hdrop =>
    split at h
    next =>
      cases h
      exact hdrop ▸ List.drop_sublist _ _
    next => cases h
  next => cases h

theorem splitPath_fst_append (cs : List Char) : (splitPath cs).1 ++ (splitPath cs).2 = cs :=
  (List.prefix_append_drop (List.takeWhile_prefix _)).symm

theorem size_splitPath (cs : List Char) : size (splitPath cs).1 + size (splitPath cs).2 = size cs := by
  rw [← size_append, splitPath_fst_append]

theorem sublist_readPort {scheme : String} {cs rest : List Char} {port : Option Nat}
    (h : readPort scheme cs = .ok (port, rest)) : rest.Sublist cs := by
  unfold readPort at h
  dsimp only at h
  have hrest : rest = cs.drop (cs.takeWhile Char.isDigit).length := by
    repeat' split at h
    all_goals first
      | exact (congrArg Prod.snd (Except.ok.inj h)).symm
      | cases h
  exact hrest ▸ List.drop_sublist _ _

theorem sublist_splitUserinfo (k : Kind) (cs : List Char) : (splitUserinfo k cs).2.Sublist cs := by
  unfold splitUserinfo
  dsimp only
  split
  next => exact List.drop_sublist _ _
  next => exact List.Sublist.refl _

/-- What is behind a check that may fail. -/
theorem ok_of_guard {α : Type} {p : Prop} [Decidable p] {fault : Fault} {result : Except Fault α}
    {a : α} (h : (if p then .error fault else result) = .ok a) : result = .ok a := by
  split at h
  next => cases h
  next => exact h

theorem sublist_readAuthority {scheme : String} {cs rest : List Char} {a : Authority}
    (h : readAuthority scheme cs = .ok (a, rest)) : rest.Sublist cs := by
  unfold readAuthority at h
  simp only [bind, Except.bind, throw, throwThe, MonadExceptOf.throw, pure, Except.pure] at h
  have hdrop := (List.drop_sublist
    (hostLength (Kind.ofScheme scheme) false (splitUserinfo (Kind.ofScheme scheme) cs).2) _).trans
      (sublist_splitUserinfo (Kind.ofScheme scheme) cs)
  replace h := ok_of_guard (ok_of_guard h)
  generalize List.drop (hostLength (Kind.ofScheme scheme) false
    (splitUserinfo (Kind.ofScheme scheme) cs).2) _ = behind at h hdrop
  generalize specialHost _ = special at h
  generalize plainHost _ = plain at h
  split at h
  all_goals
    split at h
    next => cases h
    next host =>
      replace h := ok_of_guard h
      split at h
      next behind =>
        cases hport : readPort scheme behind with
        | error fault => rw [hport] at h; cases h
        | ok result =>
          rw [hport] at h
          cases ok_of_guard h
          exact ((sublist_readPort hport).cons ':').trans hdrop
      next => cases ok_of_guard h; exact hdrop

theorem size_readAuthority {scheme : String} {cs rest : List Char} {a : Authority}
    (h : readAuthority scheme cs = .ok (a, rest)) : size rest ≤ size cs :=
  size_le_of_sublist (sublist_readAuthority h)

/-! ## What is held by what is read -/

theorem joined_splitWhere_plain (cs : List Char) :
    (splitWhere (isSlash .plain) cs).flatMap ('/' :: ·) = '/' :: cs := by
  induction cs with
  | nil => rfl
  | cons c cs ih =>
    rw [splitWhere]
    split
    next hslash =>
      have hc : c = '/' := by simpa [isSlash, Kind.isSpecial] using hslash
      rw [List.flatMap_cons, ih, hc]
      rfl
    next =>
      obtain ⟨first, rest, hsplit⟩ := exists_splitWhere (isSlash .plain) cs
      rw [hsplit, List.flatMap_cons, List.cons_append, List.cons.injEq] at ih
      rw [hsplit]
      simp [ih.2]

theorem pathBytes_splitWhere_plain (cs : List Char) :
    pathBytes ((splitWhere (isSlash .plain) cs).map fun part => String.ofList (encode pathSet part)) =
      47 :: decode (utf8 cs) := by
  have hslash : utf8 ['/'] = [47] := rfl
  have hjoined := decode_joined (splitWhere (isSlash .plain) cs)
  rw [joined_splitWhere_plain, utf8_cons, hslash, List.singleton_append,
    decode_of_ne (by decide)] at hjoined
  rw [hjoined, pathBytes, List.flatMap_map]
  simp only [utf8Bytes, String.toList_ofList, decode_encode plain_pathSet]

/-- Reading a path adds no bytes but those of a slash in front. -/
theorem length_pathFrom_plain (cs : List Char) :
    (pathBytes (pathFrom .plain [] cs)).length ≤ size cs + 1 := by
  have hlength := length_appendSegments .plain []
    ((splitWhere (isSlash .plain) cs).map fun part => String.ofList (encode pathSet part))
  have hread : pathFrom .plain [] cs = appendSegments .plain []
      ((splitWhere (isSlash .plain) cs).map fun part => String.ofList (encode pathSet part)) := rfl
  have hheld := held_le_size cs
  have hnil : (pathBytes []).length = 0 := rfl
  rw [pathBytes_splitWhere_plain, List.length_cons, hnil, ← hread] at hlength
  omega

theorem bulk_withTail (k : Kind) (u : Url) (cs : List Char) :
    (withTail k u cs).bulk ≤ held u.path.text + size cs := by
  rw [bulk_eq]
  unfold withTail
  split
  next rest =>
    dsimp only
    have hset : (if k.isSpecial = true then specialQuerySet else querySet).Plain := by
      split
      next => exact plain_specialQuerySet
      next => exact plain_querySet
    have hheld := held_encode hset (rest.takeWhile fun c => decide (c ≠ '#'))
    have hsize := size_le_of_sublist (List.takeWhile_sublist (fun c => decide (c ≠ '#')) (l := rest))
    have hmark : size ['?'] = 1 := rfl
    rw [Option.elim_some, size_cons, hmark]
    omega
  next => exact Nat.le_add_right _ _
  next => exact Nat.le_add_right _ _

theorem length_rootPath_plain (cs : List Char) :
    (pathBytes (rootPath .plain cs)).length ≤ size cs + 1 := by
  unfold rootPath
  split
  next => exact Nat.zero_le _
  next c path =>
    split
    next =>
      have hlength := length_pathFrom_plain path
      rw [size_cons]
      omega
    next => exact length_pathFrom_plain _

/-- A URL with segments in place of those it had. -/
theorem bulk_withPath {u : Url} (cs tail : List Char) :
    (withPath u (pathFrom .plain [] cs) tail).bulk ≤ size cs + size tail + 1 := by
  have htail := bulk_withTail u.kind { u with path := .segments (pathFrom .plain [] cs) } tail
  have hlength := length_pathFrom_plain cs
  dsimp only at htail
  rw [held_segments] at htail
  unfold withPath
  omega

theorem bulk_hierarchical {scheme : String} {cs : List Char} {u : Url}
    (hkind : Kind.ofScheme scheme = .plain) (h : hierarchical scheme cs = .ok u) :
    u.bulk ≤ size cs + 1 := by
  unfold hierarchical at h
  cases hread : readAuthority scheme cs with
  | error fault => rw [hread] at h; cases h
  | ok result =>
    obtain ⟨a, rest⟩ := result
    rw [hread] at h
    cases h
    have hsplit := size_splitPath rest
    have hrest := size_readAuthority hread
    have htail := bulk_withTail (Kind.ofScheme scheme)
      { scheme, authority := some a,
        path := .segments (rootPath (Kind.ofScheme scheme) (splitPath rest).1) } (splitPath rest).2
    have hroot := length_rootPath_plain (splitPath rest).1
    dsimp only at htail
    rw [held_segments] at htail
    rw [hkind] at htail ⊢
    exact Nat.le_trans htail (by omega)

theorem bulk_plain {scheme : String} {cs : List Char} {u : Url}
    (hkind : Kind.ofScheme scheme = .plain) (h : plain scheme cs = .ok u) : u.bulk ≤ size cs := by
  have hslash : size ['/'] = 1 := rfl
  unfold plain at h
  split at h
  next rest =>
    have hbulk := bulk_hierarchical hkind h
    rw [size_cons, size_cons '/' rest, hslash]
    omega
  next rest _ =>
    cases h
    have hsplit := size_splitPath rest
    have hbulk := bulk_withTail .plain
      { scheme, path := .segments (pathFrom .plain [] (splitPath rest).1) } (splitPath rest).2
    have hlength := length_pathFrom_plain (splitPath rest).1
    dsimp only at hbulk
    rw [held_segments] at hbulk
    rw [size_cons, hslash]
    exact Nat.le_trans hbulk (by omega)
  next =>
    cases h
    have hsplit := size_splitPath cs
    have hbulk := bulk_withTail .plain
      { scheme, path := .rootless (String.ofList (encode controlSet (splitPath cs).1)) }
      (splitPath cs).2
    have hheld := held_encode plain_controlSet (splitPath cs).1
    exact Nat.le_trans hbulk (by dsimp only [Path.text]; omega)

/-! ## References in data URLs -/

/-- Whether a reference without a scheme goes on from a path: a relative path does, and a query. -/
def goesOn (cs : List Char) : Bool :=
  match cs with
  | [] => false
  | c :: _ => !(c = '#' || isAnySlash c)

/-- Whether a reference goes on from the path of a data URL, which must have segments for that. -/
def continues (base : Url) (reference : String) : Bool :=
  base.scheme = "data" && !base.isRootless && (scheme? (significant reference)).isNone &&
    goesOn (significant reference)

/-- Some data URL with segments. -/
def emptyData : Url := { scheme := "data", path := .segments [] }

/-- What the authority of a data URL comes from: the reference alone, or the base. -/
def AuthorityFrom (base : Url) (reference : String) (u : Url) : Prop :=
  parse reference = .ok u ∨ emptyData.join reference = .ok u ∨
    base.scheme = "data" ∧ u.authority = base.authority

theorem kind_of_data {u : Url} (h : u.scheme = "data") : u.kind = .plain := by
  unfold kind
  rw [h]
  rfl

theorem authority_withTail (k : Kind) (u : Url) (cs : List Char) :
    (withTail k u cs).authority = u.authority := by
  unfold withTail
  split <;> rfl

/-- Behind two slashes nothing of the base is used but its scheme. -/
theorem relative_slashes {c : Char} {rest : List Char} (hslash : isAnySlash c = true)
    (hsecond : (rest.head?.map isAnySlash).getD false = true) :
    ∃ behind : List Char, behind.Sublist rest ∧
      ∀ base : Url, relative base (c :: rest) = hierarchical base.scheme behind := by
  refine ⟨if c = '/' ∧ rest.head? = some '/' then rest.drop 1 else rest.dropWhile isAnySlash, ?_,
    fun base => ?_⟩
  · split
    next => exact List.drop_sublist _ _
    next => exact List.dropWhile_sublist _
  · unfold relative
    split
    next heq => cases heq
    next heq =>
      obtain ⟨rfl, -⟩ := List.cons.inj heq
      cases hslash
    next heq =>
      obtain ⟨rfl, -⟩ := List.cons.inj heq
      cases hslash
    next heq =>
      cases heq
      rw [if_pos hslash, if_pos hsecond]

/-- A relative reference against a data URL with segments. -/
theorem relative_data {base u : Url} {cs : List Char} (h : relative base cs = .ok u)
    (hdata : base.scheme = "data") :
    (relative emptyData cs = .ok u ∨ u.authority = base.authority) ∧
      (goesOn cs = true ∨ u.bulk ≤ size cs ∨ u.bulk = base.bulk) := by
  have hrelative := h
  unfold relative at h
  split at h
  next => cases h; exact ⟨.inr rfl, .inr (.inr rfl)⟩
  next => cases h; exact ⟨.inr (authority_withTail _ _ _), .inl rfl⟩
  next => cases h; exact ⟨.inr rfl, .inr (.inr rfl)⟩
  next c rest _ hfragment =>
    have hpos := Text.size_pos c
    rw [size_cons]
    split at h
    next hslash =>
      split at h
      next hsecond =>
        obtain ⟨behind, hbehind, hsame⟩ := relative_slashes hslash hsecond
        have hsize := size_le_of_sublist hbehind
        rw [hsame, hdata] at hrelative
        have hbulk := bulk_hierarchical rfl hrelative
        exact ⟨.inl ((hsame emptyData).trans hrelative), .inr (.inl (by omega))⟩
      next =>
        have hkind : base.kind = .plain := kind_of_data hdata
        rw [hkind] at h
        cases h
        have hsplit := size_splitPath rest
        have hbulk := bulk_withPath (u := base) (splitPath rest).1 (splitPath rest).2
        exact ⟨.inr (authority_withTail _ _ _), .inr (.inl (Nat.le_trans hbulk (by omega)))⟩
    next hslash =>
      cases h
      refine ⟨.inr (authority_withTail _ _ _), .inl ?_⟩
      have hhash : c ≠ '#' := hfragment
      simp [goesOn, hhash, hslash]

theorem join_emptyData {reference : String} (hscheme : scheme? (significant reference) = none)
    (hfragment : ∀ rest, significant reference = '#' :: rest → False) :
    emptyData.join reference = relative emptyData (significant reference) := by
  unfold join parseWith
  dsimp only
  rw [hscheme]
  dsimp only
  split
  next rest heq => exact (hfragment rest heq).elim
  next => rfl

/-! ## What reading a file URL gives -/

variable {n : Nat} {base : Option Url} {u v : Url} {cs : List Char}

theorem size_encoded {set : EncodeSet} {cs : List Char} (h : size cs ≤ n) :
    size (String.ofList (encode set cs)).toList ≤ 3 * n := by
  rw [String.toList_ofList]
  exact Nat.le_trans (Text.size_le_three_mul_encode set cs) (Nat.mul_le_mul_left 3 h)

theorem size_splitPath_snd (h : size cs ≤ n) : size (splitPath cs).2 ≤ n := by
  have hsplit := size_splitPath cs
  omega

theorem size_of_cons {c : Char} (h : size (c :: cs) ≤ n) : size cs ≤ n :=
  Nat.le_trans (size_le_of_sublist (List.sublist_cons_self c cs)) h

/-- A file URL is written anew, or is that of the base with another fragment, or is that of the base with
another path and what stands behind it. -/
inductive FileRead (n : Nat) (base : Option Url) : Url → Prop
  | path (host : Host) (parts : List String) {tail : List Char} :
      size tail ≤ n → FileRead n base (filePath host parts tail)
  | kept {b : Url} (fragment : Option String) :
      b ∈ base → (∀ text ∈ fragment, size text.toList ≤ 3 * n) → FileRead n base { b with fragment }
  | moved {b : Url} (k : Kind) (path : Path) {tail : List Char} :
      b ∈ base → size tail ≤ n → FileRead n base (withTail k { b with path } tail)

theorem fileRead_bare (h : file.bare base cs = .ok u) (hcs : size cs ≤ n) : FileRead n base u := by
  unfold file.bare at h
  split at h
  next => cases h; exact .kept none rfl nofun
  next b rest => cases h; exact .moved .file b.path rfl hcs
  next =>
    cases h
    refine .kept _ rfl fun text htext => ?_
    cases htext
    exact size_encoded (size_of_cons hcs)
  next =>
    dsimp only at h
    split at h
    next => cases h; exact .path _ _ (size_splitPath_snd hcs)
    next => cases h; exact .moved _ _ rfl (size_splitPath_snd hcs)
  next => cases h; exact .path _ _ (size_splitPath_snd hcs)

theorem fileRead_oneSlash (h : file.oneSlash base cs = .ok u) (hcs : size cs ≤ n) :
    FileRead n base u := by
  unfold file.oneSlash at h
  split at h
  next =>
    split at h
    next =>
      dsimp only at h
      repeat' split at h
      all_goals
        cases h
        exact .path _ _ (size_splitPath_snd (size_of_cons hcs))
    next => exact fileRead_bare h hcs
  next => exact fileRead_bare h hcs

theorem size_fileHost {host : Host} {rest : List Char} (h : fileHost cs = .ok (host, rest)) :
    size rest ≤ size cs := by
  unfold fileHost at h
  dsimp only at h
  split at h
  next => cases h; exact Nat.le_refl _
  split at h
  next => cases h; exact Nat.le_refl _
  next =>
    cases hspecial : specialHost (cs.takeWhile fun c => !(isAnySlash c || endsPath c)) with
    | error fault => rw [hspecial] at h; cases h
    | ok found =>
      rw [hspecial] at h
      cases h
      exact size_le_of_sublist (List.drop_sublist _ _)

theorem fileRead_file (h : file base cs = .ok u) (hcs : size cs ≤ n) : FileRead n base u := by
  unfold file at h
  split at h
  next c d rest =>
    split at h
    next =>
      cases hhost : fileHost rest with
      | error fault => rw [hhost] at h; cases h
      | ok result =>
        rw [hhost] at h
        cases h
        have hrest := Nat.le_trans (size_fileHost hhost) (size_of_cons (size_of_cons hcs))
        exact .path _ _ (size_splitPath_snd hrest)
    next => exact fileRead_oneSlash h hcs
  next => exact fileRead_oneSlash h hcs

theorem scheme_file (hbase : ∀ b ∈ base, b.scheme = "file") (h : file base cs = .ok u) :
    u.scheme = "file" := by
  cases fileRead_file h (Nat.le_refl _) with
  | path host parts htail => exact scheme_withTail _ _ _
  | @kept b fragment hb _ => exact hbase b hb
  | @moved b k path _ hb _ => exact (scheme_withTail _ _ _).trans (hbase b hb)

/-! ## Joining -/

/-- A data URL to which a reference leads holds no more than the reference, or as much as the base,
if the reference does not continue the base. -/
theorem join_data {base u : Url} {reference : String} (h : base.join reference = .ok u)
    (hdata : u.scheme = "data") :
    AuthorityFrom base reference u ∧ (base.continues reference = true ∨
      u.bulk ≤ size reference.toList ∨ base.scheme = "data" ∧ u.bulk = base.bulk) := by
  have hsize := size_le_of_sublist (sublist_significant reference)
  have hfile : u.scheme ≠ "file" := by
    rw [hdata]
    decide
  unfold join parseWith at h
  dsimp only at h
  split at h
  next scheme rest hscheme =>
    split at h
    next =>
      refine absurd (scheme_file (fun b hb => ?_) h) hfile
      simpa using (Option.mem_filter_iff.1 hb).2
    next hkind =>
      obtain rfl := (scheme_special h).symm.trans hdata
      cases hkind
    next hkind =>
      have hrest := size_le_of_sublist ((List.sublist_cons_self _ _).trans (sublist_scheme? hscheme))
      have hbulk := bulk_plain hkind h
      refine ⟨.inl ?_, .inr (.inl (by omega))⟩
      unfold parse parseWith
      dsimp only
      rw [hscheme]
      dsimp only
      rw [hkind]
      exact h
  next hscheme =>
    split at h
    next =>
      cases h
      exact ⟨.inr (.inr ⟨hdata, rfl⟩), .inr (.inr ⟨hdata, rfl⟩)⟩
    next hfragment =>
      split at h
      next => cases h
      next hrootless =>
        split at h
        next hkind =>
          refine absurd (scheme_file (fun b hb => ?_) h) hfile
          obtain rfl := Option.mem_some_iff.1 hb
          exact kind_eq_file.1 hkind
        next =>
          have hbase : base.scheme = "data" := (scheme_relative h).symm.trans hdata
          obtain ⟨hauthority, hbulk⟩ := relative_data h hbase
          refine ⟨.inr (hauthority.imp (fun h => ?_) fun h => ⟨hbase, h⟩),
            hbulk.imp (fun hgoes => ?_) (Or.imp (fun h => by omega) fun h => ⟨hbase, h⟩)⟩
          · rw [join_emptyData hscheme hfragment, h]
          · simp [continues, hbase, hrootless, hscheme, hgoes]

/-! ## Query and fragment -/

/-- Query and fragment have at most so many bytes, or the query is that of a base. -/
structure TailWithin (n : Nat) (base : Option Url) (u : Url) : Prop where
  query : (∃ b ∈ base, u.query = b.query) ∨ ∀ query ∈ u.query, size query.toList ≤ n
  fragment : ∀ fragment ∈ u.fragment, size fragment.toList ≤ n

theorem tail_withTail (k : Kind) (v : Url) (h : size cs ≤ n) :
    TailWithin (3 * n) base (withTail k v cs) := by
  unfold withTail
  split
  next rest =>
    have hrest : size rest ≤ n := Nat.le_trans (size_le_of_sublist (List.sublist_cons_self _ _)) h
    refine ⟨.inr fun query hquery => ?_, fun fragment hfragment => ?_⟩
    · cases hquery
      exact size_encoded (Nat.le_trans (size_le_of_sublist (List.takeWhile_sublist _)) hrest)
    · dsimp only at hfragment
      split at hfragment
      next c text hdrop =>
        cases hfragment
        refine size_encoded (Nat.le_trans (size_le_of_sublist ?_) hrest)
        exact (List.sublist_cons_self c text).trans (hdrop ▸ List.drop_sublist _ _)
      next => cases hfragment
  next rest =>
    have hrest : size rest ≤ n := Nat.le_trans (size_le_of_sublist (List.sublist_cons_self _ _)) h
    refine ⟨.inr nofun, fun fragment hfragment => ?_⟩
    cases hfragment
    exact size_encoded hrest
  next => exact ⟨.inr nofun, nofun⟩

theorem tail_withFragment {fragment : Option String} (hbase : v ∈ base)
    (hfragment : ∀ text ∈ fragment, size text.toList ≤ n) :
    TailWithin n base { v with fragment } :=
  ⟨.inl ⟨v, hbase, rfl⟩, hfragment⟩

theorem tail_hierarchical {scheme : String} (h : hierarchical scheme cs = .ok u) (hcs : size cs ≤ n) :
    TailWithin (3 * n) base u := by
  unfold hierarchical at h
  cases hread : readAuthority scheme cs with
  | error fault => rw [hread] at h; cases h
  | ok result =>
    rw [hread] at h
    cases h
    exact tail_withTail _ _ (size_splitPath_snd (Nat.le_trans (size_readAuthority hread) hcs))

theorem tail_plain {scheme : String} (h : plain scheme cs = .ok u) (hcs : size cs ≤ n) :
    TailWithin (3 * n) base u := by
  unfold plain at h
  split at h
  next => exact tail_hierarchical h (size_of_cons (size_of_cons hcs))
  next => cases h; exact tail_withTail _ _ (size_splitPath_snd (size_of_cons hcs))
  next => cases h; exact tail_withTail _ _ (size_splitPath_snd hcs)

theorem tail_relative (hbase : v ∈ base) (h : relative v cs = .ok u) (hcs : size cs ≤ n) :
    TailWithin (3 * n) base u := by
  have hrelative := h
  unfold relative at h
  split at h
  next => cases h; exact tail_withFragment hbase nofun
  next => cases h; exact tail_withTail _ _ hcs
  next =>
    cases h
    refine tail_withFragment hbase fun text htext => ?_
    cases htext
    exact size_encoded (size_of_cons hcs)
  next c rest _ _ =>
    split at h
    next hslash =>
      split at h
      next hsecond =>
        obtain ⟨behind, hbehind, hsame⟩ := relative_slashes hslash hsecond
        rw [hsame] at hrelative
        exact tail_hierarchical hrelative
          (Nat.le_trans (size_le_of_sublist hbehind) (size_of_cons hcs))
      next => cases h; exact tail_withTail _ _ (size_splitPath_snd (size_of_cons hcs))
    next => cases h; exact tail_withTail _ _ (size_splitPath_snd hcs)

theorem tail_special {scheme : String} (h : special base scheme cs = .ok u) (hcs : size cs ≤ n) :
    TailWithin (3 * n) base u := by
  have hdrop : size (cs.drop (cs.takeWhile isAnySlash).length) ≤ n :=
    Nat.le_trans (size_le_of_sublist (List.drop_sublist _ _)) hcs
  unfold special at h
  dsimp only at h
  split at h
  next b =>
    split at h
    next => exact tail_relative rfl h hcs
    next => exact tail_hierarchical h hdrop
  next => exact tail_hierarchical h hdrop

theorem tail_file (h : file base cs = .ok u) (hcs : size cs ≤ n) : TailWithin (3 * n) base u := by
  cases fileRead_file h hcs with
  | path host parts htail => exact tail_withTail _ _ htail
  | kept fragment hbase hfragment => exact tail_withFragment hbase hfragment
  | moved k path hbase htail => exact tail_withTail _ _ htail

theorem TailWithin.of_filter {p : Url → Bool} (h : TailWithin n (base.filter p) u) :
    TailWithin n base u :=
  ⟨h.query.imp_left fun ⟨b, hb, hsame⟩ => ⟨b, (Option.mem_filter_iff.1 hb).1, hsame⟩, h.fragment⟩

/-- Query and fragment stand in the reference, or the query is that of the base. -/
theorem tail_join {b : Url} {reference : String} (h : b.join reference = .ok u) :
    TailWithin (3 * size reference.toList) (some b) u := by
  have hcs := size_le_of_sublist (sublist_significant reference)
  unfold join parseWith at h
  dsimp only at h
  split at h
  next scheme rest hscheme =>
    have hrest : size rest ≤ size reference.toList :=
      Nat.le_trans (size_le_of_sublist
        ((List.sublist_cons_self _ _).trans (sublist_scheme? hscheme))) hcs
    split at h
    next => exact (tail_file h hrest).of_filter
    next => exact tail_special h hrest
    next => exact tail_plain h hrest
  next =>
    split at h
    next rest heq =>
      cases h
      refine tail_withFragment rfl fun text htext => ?_
      cases htext
      exact size_encoded (size_of_cons (heq ▸ hcs))
    next =>
      split at h
      next => cases h
      split at h
      next => exact tail_file h hcs
      next => exact tail_relative rfl h hcs

end ModuleLoader.Url
