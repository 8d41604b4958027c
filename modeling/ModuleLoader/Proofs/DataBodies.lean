import ModuleLoader.Proofs.LibraryNames
import ModuleLoader.Proofs.Symbols
import ModuleLoader.Proofs.Utf8

/-!
# What data URLs hold

A data URL holds bytes in one of two forms: with escapes, or as base64 with escapes. Each byte may be
escaped, and letters and digits may stand for themselves, whatever the description says that comes
before the comma. A description that ends in `;base64` asks for the other form.

Results:
1. `decode_spelling`: every spelling of bytes decodes to them.
2. `parse_data`: the URL that a text behind the scheme makes.
3. `Made.printed`: path and query of a data URL hold no blanks but spaces.
4. `data_plain`, `data_base64`: what a data URL holds, in either form.
5. `data_decodes`: both forms, for all bytes and all data URLs.
-/

namespace ModuleLoader.Url

open Text (Bytes utf8 utf8Bytes)

variable {cs header body media spelling : List Char} {c : Char} {bytes : Bytes} {u : Url}
  {base : Option Url} {s scheme : String}

/-! ## Spellings -/

/-- A digit of base sixteen, in either case. -/
def HexDigit (n : Nat) (c : Char) : Prop := c = Nat.digitChar n ∨ c = (Nat.digitChar n).toUpper

/-- A text that spells bytes: each as an escape, or as the letter or digit that it is in ASCII. -/
inductive Spelling : Bytes → List Char → Prop
  | nil : Spelling [] []
  | escape {b : UInt8} {high low : Char} {bytes : Bytes} {cs : List Char} :
      HexDigit (b.toNat / 16) high → HexDigit (b.toNat % 16) low → Spelling bytes cs →
      Spelling (b :: bytes) ('%' :: high :: low :: cs)
  | letter {c : Char} {bytes : Bytes} {cs : List Char} : c.isAlphanum → Spelling bytes cs →
      Spelling (.ofNat c.toNat :: bytes) (c :: cs)

/-- A description of data that does not ask for base64. -/
structure MediaType (cs : List Char) : Prop where
  chars : ∀ c ∈ cs, c.isAlphanum ∨ c = '/' ∨ c = ';' ∨ c = '='
  head : cs.head? ≠ some '/'
  literal : ¬ ";base64".toList <:+ cs.map Char.toLower

theorem HexDigit.digit {n : Nat} (hn : n < 16) (h : HexDigit n c) :
    c.isAlphanum = true ∧ hexDigit? (.ofNat c.toNat) = some n := by
  have hlower : ∀ n < 16, (Nat.digitChar n).isAlphanum = true ∧
      hexDigit? (.ofNat (Nat.digitChar n).toNat) = some n := by decide
  have hupper : ∀ n < 16, (Nat.digitChar n).toUpper.isAlphanum = true ∧
      hexDigit? (.ofNat (Nat.digitChar n).toUpper.toNat) = some n := by decide
  rcases h with rfl | rfl
  · exact hlower n hn
  · exact hupper n hn

theorem alphanum_lt (h : c.isAlphanum = true) : c.toNat < 128 := by
  rw [Char.isAlphanum, Bool.or_eq_true] at h
  rcases h with halpha | hdigit
  · exact (alpha_bounds halpha).2
  · simp only [Char.isDigit, Bool.and_eq_true, decide_eq_true_eq, ge_iff_le,
      UInt32.le_iff_toNat_le] at hdigit
    have hval : c.val.toNat = c.toNat := rfl
    have hnine : '9'.val.toNat = 57 := rfl
    omega

/-- The characters that a description and a spelling consist of, and the comma between them. -/
def isBodyChar (c : Char) : Bool := c.isAlphanum || ['/', ';', '=', ',', '%'].contains c

theorem of_isBodyChar (h : isBodyChar c = true) : controlSet c = false ∧ endsPath c = false ∧
    isControlOrSpace c = false ∧ isTabOrNewline c = false := by
  have hall : ∀ n < 128, isBodyChar (.ofNat n) = true → controlSet (.ofNat n) = false ∧
      endsPath (.ofNat n) = false ∧ isControlOrSpace (.ofNat n) = false ∧
        isTabOrNewline (.ofNat n) = false := by decide +kernel
  have hlt : c.toNat < 128 := by
    rcases Bool.or_eq_true_iff.mp h with halphanum | hmark
    · exact alphanum_lt halphanum
    · rw [List.contains_iff_mem] at hmark
      have hmarks : ∀ c ∈ ['/', ';', '=', ',', '%'], decide (c.toNat < 128) = true :=
        List.all_eq_true.mp (by decide)
      exact of_decide_eq_true (hmarks c hmark)
  have hc := hall c.toNat hlt
  rw [Char.ofNat_toNat] at hc
  exact hc h

theorem Spelling.chars (h : Spelling bytes cs) : ∀ c ∈ cs, c.isAlphanum ∨ c = '%' := by
  induction h with
  | nil => exact List.forall_mem_nil _
  | @escape b high low bytes cs hhigh hlow _ ih =>
    have hb := b.toNat_lt
    refine List.forall_mem_cons.mpr ⟨.inr rfl, List.forall_mem_cons.mpr ⟨.inl ?_,
      List.forall_mem_cons.mpr ⟨.inl ?_, ih⟩⟩⟩
    · exact (hhigh.digit (by omega)).1
    · exact (hlow.digit (by omega)).1
  | letter hc _ ih => exact List.forall_mem_cons.mpr ⟨.inl hc, ih⟩

/-- A spelling of bytes decodes to them. -/
theorem decode_spelling (h : Spelling bytes cs) : decode (utf8 cs) = bytes := by
  induction h with
  | nil => rw [utf8, List.flatMap_nil, decode]
  | @escape b high low bytes cs hhigh hlow _ ih =>
    have hb := b.toNat_lt
    obtain ⟨hhighAlpha, hhighDigit⟩ := hhigh.digit (by omega)
    obtain ⟨hlowAlpha, hlowDigit⟩ := hlow.digit (by omega)
    have hpercent : utf8 ['%'] = [37] := rfl
    rw [utf8_cons, utf8_cons high, utf8_cons low, hpercent, utf8_ascii (alphanum_lt hhighAlpha),
      utf8_ascii (alphanum_lt hlowAlpha)]
    simp only [List.cons_append, List.nil_append]
    rw [decode_escape hhighDigit hlowDigit, ih, Nat.div_add_mod, UInt8.ofNat_toNat]
  | @letter c bytes cs hc _ ih =>
    have hlt := alphanum_lt hc
    have hall : ∀ n < 128, (Char.ofNat n).isAlphanum = true → UInt8.ofNat n ≠ 37 := by
      decide +kernel
    have hpercent := hall c.toNat hlt
    rw [Char.ofNat_toNat] at hpercent
    rw [utf8_cons, utf8_ascii hlt, List.singleton_append, decode_of_ne (hpercent hc), ih]

/-! ## Reading data URLs -/

theorem scheme?_data (cs : List Char) : scheme? ("data:".toList ++ cs) = some ("data", cs) := rfl

theorem pathAndQuery_rootless (cs : List Char) :
    (pathAndQuery { scheme := "data", path := .rootless (String.ofList cs) }).toList = cs := by
  simp [pathAndQuery, queryText, Path.text]

/-- The URL that a text makes, if nothing in it ends the path or has to be escaped. -/
theorem parse_data (cs : List Char) (hhead : cs.head? ≠ some '/') (hcs : ∀ c ∈ cs, isBodyChar c = true) :
    parse (String.ofList ("data:".toList ++ cs)) =
      .ok { scheme := "data", path := .rootless (String.ofList cs) } := by
  have hcounts : significant (String.ofList ("data:".toList ++ cs)) = "data:".toList ++ cs := by
    have hall : ∀ c ∈ "data:".toList ++ cs,
        isControlOrSpace c = false ∧ isTabOrNewline c = false := by
      intro c hc
      rcases List.mem_append.mp hc with hc | hc
      · exact ⟨forall_eq_false (by decide) c hc, forall_eq_false (by decide) c hc⟩
      · exact (of_isBodyChar (hcs c hc)).2.2
    have hkept := @significant_eq_toList (String.ofList ("data:".toList ++ cs))
    rw [String.toList_ofList] at hkept
    exact hkept (fun c hc => (hall c (List.mem_of_mem_head? hc)).1)
      (fun c hc => (hall c (List.mem_of_getLast? hc)).1) fun c hc => (hall c hc).2
  have hplain : parse (String.ofList ("data:".toList ++ cs)) = plain "data" cs := by
    unfold parse parseWith
    simp only [hcounts, scheme?_data]
    rfl
  rw [hplain, plain_rootless hhead, splitPath_kept fun c hc => (of_isBodyChar (hcs c hc)).2.1]
  dsimp only
  rw [encode_of_forall fun c hc => (of_isBodyChar (hcs c hc)).1]
  rfl

/-! ## Blanks in data URLs -/

/-- No character of the path or the query of a URL is a control, and all are ASCII. -/
structure Printed (u : Url) : Prop where
  path : ∀ c ∈ u.path.text.toList, controlSet c = false
  query : ∀ query ∈ u.query, ∀ c ∈ query.toList, controlSet c = false

theorem controlSet_of_mem_encode {set : EncodeSet} (hset : ∀ c, set c = false → controlSet c = false)
    (hc : c ∈ encode set cs) : controlSet c = false := by
  rcases mem_encode hc with hescape | ⟨-, hc⟩
  · exact plain_controlSet c hescape
  · exact hset c hc

theorem controlSet_of_querySet (h : querySet c = false) : controlSet c = false := by
  simp only [querySet, EncodeSet.with, Bool.or_eq_false_iff] at h
  exact h.1

theorem controlSet_of_specialQuerySet (h : specialQuerySet c = false) : controlSet c = false := by
  simp only [specialQuerySet, EncodeSet.with, Bool.or_eq_false_iff] at h
  exact controlSet_of_querySet h.1

theorem printed_withTail (k : Kind) (cs : List Char)
    (hpath : ∀ c ∈ u.path.text.toList, controlSet c = false) : Printed (withTail k u cs) := by
  refine ⟨by rwa [path_withTail], fun query hquery => ?_⟩
  unfold withTail at hquery
  split at hquery
  next =>
    cases hquery
    intro c hc
    rw [String.toList_ofList] at hc
    split at hc
    next => exact controlSet_of_mem_encode (fun c => controlSet_of_specialQuerySet) hc
    next => exact controlSet_of_mem_encode (fun c => controlSet_of_querySet) hc
  next => cases hquery
  next => cases hquery

theorem printed_segments {parts : List String}
    (h : ∀ part ∈ parts, ∀ c ∈ part.toList, controlSet c = false) :
    ∀ c ∈ (Path.segments parts).text.toList, controlSet c = false := by
  intro c hc
  rw [toList_text] at hc
  obtain ⟨part, hpart, hc⟩ := List.mem_flatMap.mp hc
  rcases List.mem_cons.mp hc with rfl | hc
  · decide
  · exact h part hpart c hc

theorem Printed.parts (h : Printed u) : ∀ part ∈ u.parts, ∀ c ∈ part.toList, controlSet c = false := by
  intro part hpart c hc
  unfold Url.parts at hpart
  cases hpath : u.path with
  | rootless text => rw [hpath] at hpart; cases hpart
  | segments parts =>
    rw [hpath] at hpart
    refine h.path c ?_
    rw [hpath, toList_text]
    exact List.mem_flatMap.mpr ⟨part, hpart, List.mem_cons_of_mem _ hc⟩

/-- Segments that are read behind others. -/
theorem printed_pathFrom {done : List String}
    (hdone : ∀ part ∈ done, ∀ c ∈ part.toList, controlSet c = false) (cs : List Char) :
    ∀ part ∈ pathFrom .plain done cs, ∀ c ∈ part.toList, controlSet c = false := by
  refine of_mem_appendSegments (by decide) hdone fun part hpart c hc => ?_
  obtain ⟨chars, -, rfl⟩ := List.mem_map.mp hpart
  rw [String.toList_ofList] at hc
  exact controlSet_of_mem_encode (fun c => controlSet_of_pathSet) hc

theorem printed_rootPath (cs : List Char) :
    ∀ part ∈ rootPath .plain cs, ∀ c ∈ part.toList, controlSet c = false :=
  fun _ hpart _ hc => controlSet_of_pathSet (of_mem_rootPath_plain hpart hc).1

theorem printed_hierarchical (hkind : Kind.ofScheme scheme = .plain)
    (h : hierarchical scheme cs = .ok u) : Printed u := by
  unfold hierarchical at h
  cases hread : readAuthority scheme cs with
  | error fault => rw [hread] at h; cases h
  | ok result =>
    rw [hread] at h
    cases h
    refine printed_withTail _ _ (printed_segments ?_)
    rw [hkind]
    exact printed_rootPath _

theorem printed_plain (hkind : Kind.ofScheme scheme = .plain) (h : plain scheme cs = .ok u) :
    Printed u := by
  unfold plain at h
  split at h
  next => exact printed_hierarchical hkind h
  next =>
    cases h
    exact printed_withTail _ _ (printed_segments (printed_pathFrom (by simp) _))
  next =>
    cases h
    refine printed_withTail _ _ fun c hc => ?_
    rw [Path.text, String.toList_ofList] at hc
    exact controlSet_of_mem_encode (fun c hc => hc) hc

theorem printed_relative {b : Url} (hb : Printed b) (hkind : b.kind = .plain)
    (h : relative b cs = .ok u) : Printed u := by
  unfold relative at h
  rw [hkind] at h
  split at h
  next => cases h; exact ⟨hb.path, hb.query⟩
  next => cases h; exact printed_withTail _ _ hb.path
  next => cases h; exact ⟨hb.path, hb.query⟩
  next =>
    split at h
    next =>
      split at h
      next => exact printed_hierarchical hkind h
      next =>
        cases h
        exact printed_withTail _ _ (printed_segments (printed_pathFrom (by simp) _))
    next =>
      cases h
      refine printed_withTail _ _ (printed_segments (printed_pathFrom (fun part hpart => ?_) _))
      exact hb.parts part (List.mem_of_mem_dropLast hpart)

theorem printed_parseWith (hbase : ∀ b ∈ base, b.scheme = "data" → Printed b)
    (h : parseWith base s = .ok u) (hdata : u.scheme = "data") : Printed u := by
  have hfile : u.scheme ≠ "file" := by
    rw [hdata]
    decide
  unfold parseWith at h
  dsimp only at h
  split at h
  next scheme rest hscheme =>
    split at h
    next =>
      refine absurd (scheme_file (fun b hb => ?_) h) hfile
      simpa using (Option.mem_filter_iff.mp hb).2
    next hkind =>
      obtain rfl := (scheme_special h).symm.trans hdata
      cases hkind
    next hkind => exact printed_plain hkind h
  next =>
    split at h
    next => cases h
    next b =>
      have hb := hbase b rfl
      split at h
      next =>
        cases h
        exact ⟨(hb hdata).path, (hb hdata).query⟩
      next =>
        split at h
        next => cases h
        split at h
        next hkind =>
          refine absurd (scheme_file (fun b' hb' => ?_) h) hfile
          obtain rfl := Option.mem_some_iff.mp hb'
          exact kind_eq_file.mp hkind
        next =>
          have hscheme : b.scheme = "data" := (scheme_relative h).symm.trans hdata
          exact printed_relative (hb hscheme) (kind_of_data hscheme) h

/-- Path and query of a data URL are printed, however the URL came about. -/
theorem Made.printed (h : Made u) (hdata : u.scheme = "data") : Printed u := by
  induction h with
  | parsed hparse => exact printed_parseWith (by simp) hparse hdata
  | joined _ hjoin ih =>
    refine printed_parseWith (fun b hb => ?_) hjoin hdata
    obtain rfl := Option.mem_some_iff.mp hb
    exact ih
  | directory hdirectory =>
    unfold ofDirectory? at hdirectory
    split at hdirectory
    next =>
      cases hdirectory
      have hscheme : "file" ≠ "data" := by decide
      exact absurd hdata hscheme
    next => cases hdirectory
  | @withPath u path _ ih =>
    have hkind : u.kind = .plain := kind_of_data hdata
    refine ⟨?_, (ih hdata).query⟩
    rw [setPath_path, hkind]
    exact printed_segments (printed_rootPath _)

theorem Printed.pathAndQuery (h : Printed u) : ∀ c ∈ u.pathAndQuery.toList, controlSet c = false := by
  intro c hc
  rw [Url.pathAndQuery, String.toList_append] at hc
  rcases List.mem_append.mp hc with hc | hc
  · exact h.path c hc
  · unfold queryText at hc
    split at hc
    next query hquery =>
      rw [String.toList_append] at hc
      rcases List.mem_append.mp hc with hc | hc
      · obtain rfl := List.mem_singleton.mp hc
        decide
      · exact h.query query hquery c hc
    next => cases hc

/-! ## What data URLs hold -/

/-- White space of any script. -/
def isWhite (c : Char) : Bool :=
  let n := c.toNat
  (9 ≤ n && n ≤ 13) || n = 0x20 || n = 0x85 || n = 0xa0 || n = 0x1680 ||
    (0x2000 ≤ n && n ≤ 0x200a) || n = 0x2028 || n = 0x2029 || n = 0x202f || n = 0x205f || n = 0x3000

/-- A text without the white space at its end. -/
def trimEnd (cs : List Char) : List Char := (cs.reverse.dropWhile isWhite).reverse

/-- A description of data that asks for base64, in any case and with white space behind. -/
def AsksBase64 (cs : List Char) : Prop := ";base64".toList <:+ (trimEnd cs).map Char.toLower

instance : DecidablePred AsksBase64 := fun _ => inferInstanceAs (Decidable (_ <:+ _))

theorem isWhite_of_printed (h : controlSet c = false) : isWhite c = decide (c = ' ') := by
  simp only [controlSet, Bool.or_eq_false_iff, decide_eq_false_iff_not] at h
  have hall : ∀ n < 127, 32 ≤ n → isWhite (.ofNat n) = decide (Char.ofNat n = ' ') := by
    decide +kernel
  have hc := hall c.toNat (by omega) (by omega)
  rwa [Char.ofNat_toNat] at hc

theorem saysBase64_iff (h : ∀ c ∈ header, controlSet c = false) :
    saysBase64 header = true ↔ AsksBase64 header := by
  have hblanks : ∀ cs : List Char, (∀ c ∈ cs, controlSet c = false) →
      cs.dropWhile (fun c => decide (c = ' ')) = cs.dropWhile isWhite := by
    intro cs hcs
    induction cs with
    | nil => rfl
    | cons c cs ih =>
      rw [List.dropWhile_cons, List.dropWhile_cons, isWhite_of_printed (hcs c List.mem_cons_self),
        ih fun d hd => hcs d (List.mem_cons_of_mem c hd)]
  unfold saysBase64 AsksBase64 trimEnd
  dsimp only
  rw [List.isSuffixOf_iff_suffix, hblanks _ fun c hc => h c (List.mem_reverse.mp hc)]

/-- The bytes behind the first comma, as they stand or as base64. -/
theorem data_eq (hdata : u.scheme = "data") (hsplit : u.pathAndQuery.toList = header ++ ',' :: body)
    (hheader : ',' ∉ header) : u.data =
      if saysBase64 header then
        match Base64.decode ((decode (utf8 body)).filter fun b => !isBodyBlank b) with
        | .ok bytes => .ok bytes
        | .error fault => .error (.invalidData u (.base64 fault))
      else .ok (decode (utf8 body)) := by
  have hkept : ∀ c ∈ header, decide (c ≠ ',') = true := fun c hc =>
    decide_eq_true fun heq => hheader (heq ▸ hc)
  have htake : u.pathAndQuery.toList.takeWhile (fun c => decide (c ≠ ',')) = header := by
    have hcomma : (',' :: body).takeWhile (fun c => decide (c ≠ ',')) = [] := rfl
    rw [hsplit, List.takeWhile_append_of_pos hkept, hcomma, List.append_nil]
  have hdrop : u.pathAndQuery.toList.dropWhile (fun c => decide (c ≠ ',')) = ',' :: body := by
    have hcomma : (',' :: body).dropWhile (fun c => decide (c ≠ ',')) = ',' :: body := rfl
    rw [hsplit, List.dropWhile_append_of_pos hkept, hcomma]
  unfold data
  rw [if_neg (not_not_intro hdata)]
  dsimp only
  rewrite [hdrop, htake]
  rfl

/-- Without base64 a data URL holds what its body decodes to. -/
theorem data_plain (hdata : u.scheme = "data")
    (hsplit : u.pathAndQuery.toList = header ++ ',' :: body) (hheader : ',' ∉ header)
    (hplain : saysBase64 header = false) : u.data = .ok (decode (utf8 body)) := by
  rw [data_eq hdata hsplit hheader, hplain]
  rfl

/-- With base64 it holds the bytes whose encoding the body is, apart from blanks. -/
theorem data_base64 (hdata : u.scheme = "data")
    (hsplit : u.pathAndQuery.toList = header ++ ',' :: body) (hheader : ',' ∉ header)
    (hbase64 : saysBase64 header = true) : u.data = .ok bytes ↔
      (decode (utf8 body)).filter (fun b => !isBodyBlank b) = Base64.encode bytes := by
  rw [data_eq hdata hsplit hheader, hbase64, if_pos rfl, ← Base64.decode_iff_encode]
  cases Base64.decode ((decode (utf8 body)).filter fun b => !isBodyBlank b) with
  | ok found => exact ⟨fun h => by cases h; rfl, fun h => by cases h; rfl⟩
  | error fault => exact iff_of_false (fun h => by cases h) (fun h => by cases h)

theorem MediaType.isBodyChar (h : MediaType media) : ∀ c ∈ media, isBodyChar c = true := by
  intro c hc
  rcases h.chars c hc with halphanum | rfl | rfl | rfl
  · exact Bool.or_eq_true_iff.mpr (.inl halphanum)
  · rfl
  · rfl
  · rfl

theorem MediaType.saysBase64_eq (h : MediaType media) : saysBase64 media = false := by
  have hprinted : ∀ c ∈ media, controlSet c = false := fun c hc => (of_isBodyChar (h.isBodyChar c hc)).1
  refine Bool.eq_false_iff.mpr fun hsays => h.literal ?_
  have hasks := (saysBase64_iff hprinted).mp hsays
  have hkept : trimEnd media = media := by
    unfold trimEnd
    rw [dropWhile_of_head, List.reverse_reverse]
    intro c hc
    have hin := List.mem_reverse.mp (List.mem_of_mem_head? hc)
    rw [isWhite_of_printed (hprinted c hin)]
    refine decide_eq_false fun hspace => ?_
    subst hspace
    exact absurd (h.isBodyChar ' ' hin) (by decide)
  rwa [AsksBase64, hkept] at hasks

/-! ## Sources -/

theorem sourceText_eq_error (h : ∀ text, utf8Bytes text ≠ bytes) :
    sourceText u bytes = .error (.invalidEncoding u) := by
  unfold sourceText
  split
  next text htext => exact absurd (Text.ofUtf8?_eq_some.mp htext) (h text)
  next => rfl

/-! ## Both forms -/

/-- What is put into a data URL comes out of it.

* Behind a description that does not ask for base64, every spelling of bytes holds these bytes, and
  the source is the text that they encode, if there is one.
* Behind a description that asks for base64, a data URL holds bytes if and only if its body, with
  escapes resolved and blanks removed, is the base64 of these bytes.
-/
theorem data_decodes :
    (∀ (bytes : Bytes) (media spelling : List Char), MediaType media → Spelling bytes spelling →
      ∃ u, parse (String.ofList ("data:".toList ++ (media ++ ',' :: spelling))) = .ok u ∧
        u.data = .ok bytes ∧ ∀ files supplied,
          (∀ text, u.source files supplied = .ok text ↔ utf8Bytes text = bytes) ∧
          ((∀ text, utf8Bytes text ≠ bytes) →
            u.source files supplied = .error (.invalidEncoding u))) ∧
      ∀ (u : Url) (header body : List Char) (bytes : Bytes), Made u → u.scheme = "data" →
        u.pathAndQuery.toList = header ++ ',' :: body → ',' ∉ header → AsksBase64 header →
        (u.data = .ok bytes ↔
          (decode (utf8 body)).filter (fun b => !isBodyBlank b) = Base64.encode bytes) := by
  refine ⟨fun bytes media spelling hmedia hspelling => ?_, ?_⟩
  · have hhead : (media ++ ',' :: spelling).head? ≠ some '/' := by
      cases media with
      | nil => exact fun h => by cases h
      | cons c media => exact hmedia.head
    have hchars : ∀ c ∈ media ++ ',' :: spelling, isBodyChar c = true := by
      intro c hc
      rcases List.mem_append.mp hc with hc | hc
      · exact hmedia.isBodyChar c hc
      · rcases List.mem_cons.mp hc with rfl | hc
        · rfl
        · rcases hspelling.chars c hc with halphanum | rfl
          · exact Bool.or_eq_true_iff.mpr (.inl halphanum)
          · rfl
    have hcomma : ',' ∉ media := fun hin => by
      rcases hmedia.chars ',' hin with h | h | h | h <;> exact absurd h (by decide)
    refine ⟨_, parse_data _ hhead hchars, ?_⟩
    have hbytes : data { scheme := "data", path := .rootless (String.ofList (media ++ ',' :: spelling)) } =
        .ok bytes := by
      rw [data_plain rfl (pathAndQuery_rootless _) hcomma hmedia.saysBase64_eq,
        decode_spelling hspelling]
    refine ⟨hbytes, fun files supplied => ?_⟩
    rw [source_of_data rfl, hbytes]
    exact ⟨fun text => sourceText_eq_ok.trans Text.ofUtf8?_eq_some, sourceText_eq_error⟩
  · intro u header body bytes hmade hdata hsplit hheader hasks
    have hprinted : ∀ c ∈ header, controlSet c = false := fun c hc =>
      (hmade.printed hdata).pathAndQuery c (hsplit ▸ List.mem_append_left _ hc)
    exact data_base64 hdata hsplit hheader ((saysBase64_iff hprinted).mpr hasks)

/-- A text with escapes in both cases, and a body of base64 whose padding is escaped. -/
theorem data_decodes_escaped :
    (∃ u, parse (String.ofList ("data:".toList ++
          (['a', '/', 'b'] ++ ',' :: ['%', 'c', '3', '%', 'A', '9', 'x']))) = .ok u ∧
        u.data = .ok [195, 169, 120] ∧
        ∀ files supplied, u.source files supplied = .ok (String.ofList ['é', 'x'])) ∧
      data { scheme := "data", path := .rootless (String.ofList
        ([';', 'B', 'A', 'S', 'E', '6', '4'] ++ ',' :: ['T', 'W', 'E', '%', '3', 'd'])) } =
          .ok [77, 97] := by
  constructor
  · have hmedia : MediaType ['a', '/', 'b'] :=
      ⟨List.forall_mem_cons.mpr ⟨.inl rfl, List.forall_mem_cons.mpr ⟨.inr (.inl rfl),
        List.forall_mem_cons.mpr ⟨.inl rfl, List.forall_mem_nil _⟩⟩⟩, by decide, by decide⟩
    have hspelling : Spelling [195, 169, 120] ['%', 'c', '3', '%', 'A', '9', 'x'] :=
      .escape (.inl rfl) (.inl rfl) (.escape (.inr rfl) (.inl rfl) (.letter (c := 'x') rfl .nil))
    obtain ⟨u, hparse, hdata, hsource⟩ := data_decodes.1 _ _ _ hmedia hspelling
    exact ⟨u, hparse, hdata, fun files supplied => ((hsource files supplied).1 _).mpr rfl⟩
  · have hmade := Made.parsed (parse_data
      ([';', 'B', 'A', 'S', 'E', '6', '4'] ++ ',' :: ['T', 'W', 'E', '%', '3', 'd'])
      (by decide) (List.all_eq_true.mp (by decide)))
    have hspelling : Spelling [84, 87, 69, 61] ['T', 'W', 'E', '%', '3', 'd'] :=
      .letter (c := 'T') rfl (.letter (c := 'W') rfl (.letter (c := 'E') rfl
        (.escape (.inl rfl) (.inl rfl) .nil)))
    refine (data_decodes.2 _ _ _ [77, 97] hmade rfl
      (pathAndQuery_rootless _) (by decide) (by decide)).mpr ?_
    rw [decode_spelling hspelling]
    decide

end ModuleLoader.Url
