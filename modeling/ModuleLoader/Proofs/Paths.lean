import ModuleLoader.Proofs.FileUrls

/-!
# Reading a path again

The segments of a file URL stand for the bytes of a path. When the text of such a path is read
anew, dot segments are dropped, the first segment may be taken for a drive letter, and empty
segments in front vanish; nothing else happens.

Results:
1. `pathBytes_segmentsOf`: the segments of a text stand for its bytes, decoded.
2. `pathFrom_steady`: steady segments are kept as they are.
3. `length_pathFrom_le`, `plain_of_length`: reading never adds bytes, and where it loses none it has
   met no dot segment.
-/

namespace ModuleLoader.Url

open Text (Bytes utf8 utf8Bytes)

/-! ## The bytes of segments -/

/-- The bytes that segments stand for, each behind a slash. -/
def pathBytes (parts : List String) : Bytes := parts.flatMap fun part => 47 :: decode (utf8Bytes part)

theorem pathBytes_append (front back : List String) :
    pathBytes (front ++ back) = pathBytes front ++ pathBytes back := List.flatMap_append

theorem pathBytes_cons (part : String) (parts : List String) :
    pathBytes (part :: parts) = 47 :: decode (utf8Bytes part) ++ pathBytes parts := List.flatMap_cons

theorem pathBytes_singleton (part : String) : pathBytes [part] = 47 :: decode (utf8Bytes part) := by
  simp [pathBytes]

theorem pathBytes_ne_nil {parts : List String} (h : parts ≠ []) : pathBytes parts ≠ [] := by
  obtain ⟨part, parts, rfl⟩ := List.exists_cons_of_ne_nil h
  exact List.cons_ne_nil _ _

theorem head?_pathBytes {parts : List String} (h : parts ≠ []) :
    (pathBytes parts).head? = some 47 := by
  obtain ⟨part, parts, rfl⟩ := List.exists_cons_of_ne_nil h
  rfl

/-- The characters of segments, each behind a slash. -/
def pathChars (parts : List String) : List Char := parts.flatMap fun part => '/' :: part.toList

theorem toList_text (parts : List String) : (Path.segments parts).text.toList = pathChars parts := by
  simp only [Path.text, pathChars, String.toList_join, List.flatMap_map, String.toList_append]
  rfl

theorem decode_joined (parts : List (List Char)) :
    decode (utf8 (parts.flatMap ('/' :: ·))) = parts.flatMap fun part => 47 :: decode (utf8 part) := by
  induction parts with
  | nil => simp [utf8, decode]
  | cons part parts ih =>
    have hslash : utf8 ['/'] = [47] := rfl
    rw [List.flatMap_cons, List.flatMap_cons, ← ih, List.cons_append, utf8_cons, hslash,
      List.singleton_append, decode_of_ne (by decide), utf8_append, decode_append]
    · rfl
    · cases parts with
      | nil => simp [utf8]
      | cons next parts =>
        rw [List.flatMap_cons, List.cons_append, utf8_cons, hslash]
        simp only [List.singleton_append, List.head?_cons, Option.mem_def, Option.some.injEq]
        rintro _ rfl
        rfl

theorem decode_pathChars (parts : List String) : decode (utf8 (pathChars parts)) = pathBytes parts := by
  have h := decode_joined (parts.map String.toList)
  rwa [List.flatMap_map, List.flatMap_map] at h

/-- A path text as file URLs read it: backslashes are slashes. -/
def slashed (cs : List Char) : List Char := cs.map fun c => if c = '\\' then '/' else c

theorem joined_splitWhere (cs : List Char) :
    (splitWhere (isSlash .file) cs).flatMap ('/' :: ·) = '/' :: slashed cs := by
  induction cs with
  | nil => rfl
  | cons c cs ih =>
    rw [splitWhere]
    split
    next hslash =>
      rw [List.flatMap_cons, ih]
      have hc : (if c = '\\' then '/' else c) = '/' := by
        simp only [isSlash, Kind.isSpecial, Bool.or_eq_true, Bool.and_eq_true, decide_eq_true_eq] at hslash
        rcases hslash with rfl | ⟨-, rfl⟩ <;> rfl
      simp [slashed, hc]
    next hslash =>
      have hc : (if c = '\\' then '/' else c) = c := by
        split
        next h => subst h; exact absurd rfl hslash
        next => rfl
      cases hsplit : splitWhere (isSlash .file) cs with
      | nil =>
        rw [hsplit] at ih
        cases ih
      | cons first rest =>
        rw [hsplit, List.flatMap_cons, List.cons_append, List.cons.injEq] at ih
        simp [slashed, hc, ih.2]

theorem pathBytes_segmentsOf (cs : List Char) :
    pathBytes (segmentsOf cs) = 47 :: decode (utf8 (slashed cs)) := by
  have hslash : utf8 ['/'] = [47] := rfl
  have hjoined := decode_joined (splitWhere (isSlash .file) cs)
  rw [joined_splitWhere, utf8_cons, hslash, List.singleton_append, decode_of_ne (by decide)] at hjoined
  rw [hjoined, pathBytes, segmentsOf, List.flatMap_map]
  simp only [utf8Bytes, String.toList_ofList, decode_encode plain_pathSet]

/-! ## Steady segments -/

/-- A segment that leads nowhere, or back. -/
def isDots (part : String) : Bool := isDoubleDot part || isSingleDot part

/-- Segments that reading keeps: none is a dot segment, and the first is no drive letter that
would be written with a colon. -/
structure Steady (parts : List String) : Prop where
  plain : ∀ part ∈ parts, isDots part = false
  first : ∀ part ∈ parts.head?, firstFileSegment part = part

theorem appendSegment_plain {k : Kind} {done : List String} {part : String} (isLast : Bool)
    (h : isDots part = false) :
    appendSegment k done part isLast =
      if k = .file ∧ done = [] then [firstFileSegment part] else done ++ [part] := by
  obtain ⟨hdouble, hsingle⟩ := Bool.or_eq_false_iff.1 h
  unfold appendSegment
  simp [hdouble, hsingle]

theorem appendSegments_plain {k : Kind} {done parts : List String} (hdone : k = .file → done ≠ [])
    (h : ∀ part ∈ parts, isDots part = false) : appendSegments k done parts = done ++ parts := by
  induction parts generalizing done with
  | nil => simp [appendSegments]
  | cons part rest ih =>
    have hpart : ∀ isLast, appendSegment k done part isLast = done ++ [part] := by
      intro isLast
      rw [appendSegment_plain isLast (h part List.mem_cons_self), if_neg fun hnil => hdone hnil.1 hnil.2]
    cases rest with
    | nil => rw [appendSegments, hpart]
    | cons next rest =>
      rw [appendSegments, hpart, ih (by simp) fun other hother => h other (List.mem_cons_of_mem _ hother)]
      · simp
      · simp

/-- Segments without dot segments are kept, but for the first. -/
theorem appendSegments_first {part : String} {rest : List String}
    (h : ∀ other ∈ part :: rest, isDots other = false) :
    appendSegments .file [] (part :: rest) = firstFileSegment part :: rest := by
  have hpart : ∀ isLast, appendSegment .file [] part isLast = [firstFileSegment part] := by
    intro isLast
    rw [appendSegment_plain isLast (h part List.mem_cons_self), if_pos ⟨rfl, rfl⟩]
  cases rest with
  | nil => rw [appendSegments, hpart]
  | cons next rest =>
    rw [appendSegments, hpart, appendSegments_plain (by simp)
      fun other hother => h other (List.mem_cons_of_mem _ hother)]
    · rfl
    · simp

theorem withoutLeadingEmpty_of_head {parts : List String} (hne : parts ≠ [])
    (h : parts.head? = some "" → parts = [""]) : withoutLeadingEmpty parts = parts := by
  obtain ⟨part, rest, rfl⟩ := List.exists_cons_of_ne_nil hne
  unfold withoutLeadingEmpty
  by_cases hpart : part = ""
  · rw [h (by simp [hpart])]
    rfl
  · simp [hpart]

/-! ## What reading loses -/

theorem length_decode_pos {part : String} (h : part ≠ "") : 0 < (decode (utf8Bytes part)).length := by
  have hle := length_le_decode (utf8Bytes part)
  have hpos : 0 < (utf8Bytes part).length := by
    obtain ⟨c, cs, hcs⟩ := List.exists_cons_of_ne_nil (mt String.toList_eq_nil_iff.1 h)
    rw [utf8Bytes, hcs, utf8_cons]
    have := List.length_pos_iff.2 (utf8_ne_nil c)
    simp only [List.length_append]
    omega
  omega

theorem pathBytes_pair {c d : Char} (hc : c.toNat < 128) (hd : d.toNat < 128) (hcp : c ≠ '%')
    (hdp : d ≠ '%') :
    pathBytes [String.ofList [c, d]] = [47, UInt8.ofNat c.toNat, UInt8.ofNat d.toNat] := by
  have hbyte : ∀ n < 128, Char.ofNat n ≠ '%' → UInt8.ofNat n ≠ 37 := by decide
  have hc' := hbyte c.toNat hc (by rwa [Char.ofNat_toNat])
  have hd' := hbyte d.toNat hd (by rwa [Char.ofNat_toNat])
  rw [pathBytes_singleton, utf8Bytes, String.toList_ofList, utf8_cons, utf8_ascii hc, utf8_ascii hd,
    List.singleton_append, decode_of_ne hc', decode_of_ne hd']
  simp [decode]

theorem alpha_bounds {c : Char} (h : c.isAlpha = true) : 65 ≤ c.toNat ∧ c.toNat < 128 := by
  unfold Char.isAlpha Char.isUpper Char.isLower at h
  simp only [Bool.or_eq_true, Bool.and_eq_true, decide_eq_true_eq, ge_iff_le,
    UInt32.le_iff_toNat_le] at h
  have hval : c.val.toNat = c.toNat := rfl
  simp at h
  omega

/-- The first segment keeps its length, and changes only in its last byte. -/
theorem firstFileSegment_cases (part : String) : firstFileSegment part = part ∨
    ∃ letter, pathBytes [part] = [47, letter, 124] ∧
      pathBytes [firstFileSegment part] = [47, letter, 58] ∧ letter ≠ 46 := by
  unfold firstFileSegment
  split
  next c hpart =>
    split
    next hc =>
      obtain ⟨hlow, hhigh⟩ := alpha_bounds hc
      have hpercent : c ≠ '%' := by rintro rfl; exact absurd hc (by decide)
      refine .inr ⟨UInt8.ofNat c.toNat, ?_, pathBytes_pair hhigh (by decide) hpercent (by decide), ?_⟩
      · rw [← String.ofList_toList (s := part), hpart]
        exact pathBytes_pair hhigh (by decide) hpercent (by decide)
      · intro hdot
        have hnat := congrArg UInt8.toNat hdot
        simp at hnat
        omega
    next => exact .inl rfl
  next => exact .inl rfl

theorem length_firstFileSegment (part : String) :
    (pathBytes [firstFileSegment part]).length = (pathBytes [part]).length := by
  rcases firstFileSegment_cases part with h | ⟨letter, hpart, hfirst, -⟩
  · rw [h]
  · rw [hpart, hfirst]
    rfl

theorem length_parent_le (done : List String) :
    (pathBytes (parent done)).length ≤ (pathBytes done).length := by
  unfold parent
  split
  next => exact Nat.zero_le _
  next last hlast =>
    split
    next => exact Nat.le_refl _
    next =>
      obtain ⟨back, hback⟩ := List.dropLast_prefix done
      have hlength := congrArg (fun parts => (pathBytes parts).length) hback
      simp only [pathBytes_append, List.length_append] at hlength
      omega

theorem ne_empty_of_dots {part : String} (h : isDots part = true) : part ≠ "" := by
  rintro rfl
  revert h
  decide +kernel

/-- A dot segment takes bytes away, any other segment adds its own. -/
theorem length_appendSegment (k : Kind) (done : List String) (part : String) (isLast : Bool) :
    (pathBytes (appendSegment k done part isLast)).length + (isDots part).toNat ≤
      (pathBytes done).length + (pathBytes [part]).length := by
  have hbehind : (pathBytes (if isLast then [""] else [])).length ≤ 1 := by
    cases isLast <;> simp [pathBytes, utf8Bytes, utf8, decode]
  have hparent := length_parent_le done
  unfold appendSegment
  dsimp only
  split
  next hdots =>
    have hdots : isDots part = true := by simp [isDots, hdots]
    have hpos := length_decode_pos (ne_empty_of_dots hdots)
    simp only [hdots, Bool.toNat_true, pathBytes_append, pathBytes_singleton, List.length_append,
      List.length_cons]
    omega
  next hdouble =>
    split
    next hdots =>
      have hdots : isDots part = true := by simp [isDots, hdots]
      have hpos := length_decode_pos (ne_empty_of_dots hdots)
      simp only [hdots, Bool.toNat_true, pathBytes_append, pathBytes_singleton, List.length_append,
        List.length_cons]
      omega
    next hsingle =>
      have hdots : isDots part = false := by simp [isDots, hdouble, hsingle]
      rw [hdots, Bool.toNat_false, Nat.add_zero]
      split
      next => rw [length_firstFileSegment]; exact Nat.le_add_left _ _
      next => exact Nat.le_of_eq (by rw [pathBytes_append, List.length_append])

theorem length_appendSegments (k : Kind) (done parts : List String) :
    (pathBytes (appendSegments k done parts)).length + (parts.any isDots).toNat ≤
      (pathBytes done).length + (pathBytes parts).length := by
  induction parts generalizing done with
  | nil => exact Nat.le_refl _
  | cons part rest ih =>
    have hcons : pathBytes (part :: rest) = pathBytes [part] ++ pathBytes rest :=
      pathBytes_append [part] rest
    rw [hcons, List.length_append, List.any_cons]
    cases rest with
    | nil => simpa [appendSegments, pathBytes] using length_appendSegment k done part true
    | cons next rest =>
      have hstep := length_appendSegment k done part false
      have hrest := ih (appendSegment k done part false)
      rw [appendSegments]
      · have hor : ∀ a b : Bool, (a || b).toNat ≤ a.toNat + b.toNat := by decide
        have := hor (isDots part) ((next :: rest).any isDots)
        omega
      · exact List.cons_ne_nil _ _

theorem appendSegments_ne_nil {done parts : List String} (h : parts ≠ []) :
    appendSegments .file done parts ≠ [] := by
  induction parts generalizing done with
  | nil => exact absurd rfl h
  | cons part rest ih =>
    cases rest with
    | nil =>
      unfold appendSegments appendSegment
      simp only [if_true]
      split
      next => simp
      split
      next => simp
      split <;> simp
    | cons next rest =>
      rw [appendSegments]
      · exact ih (List.cons_ne_nil _ _)
      · exact List.cons_ne_nil _ _

theorem length_withoutLeadingEmpty_le {parts : List String} (h : parts ≠ []) :
    (pathBytes (withoutLeadingEmpty parts)).length ≤ (pathBytes parts).length := by
  unfold withoutLeadingEmpty
  split
  next =>
    obtain ⟨part, rest, rfl⟩ := List.exists_cons_of_ne_nil h
    simp [pathBytes, utf8Bytes, utf8, decode]
  next rest _ =>
    have hlength := congrArg (fun parts => (pathBytes parts).length)
      (List.takeWhile_append_dropWhile (p := fun part : String => decide (part = "")) (l := parts))
    simp only [pathBytes_append, List.length_append] at hlength
    omega

theorem exists_splitWhere (p : Char → Bool) (cs : List Char) :
    ∃ first rest, splitWhere p cs = first :: rest := by
  cases cs with
  | nil => exact ⟨[], [], rfl⟩
  | cons c cs =>
    rw [splitWhere]
    split
    next => exact ⟨_, _, rfl⟩
    next => split <;> exact ⟨_, _, rfl⟩

theorem segmentsOf_ne_nil (cs : List Char) : segmentsOf cs ≠ [] := by
  obtain ⟨first, rest, hsplit⟩ := exists_splitWhere (isSlash .file) cs
  rw [segmentsOf, hsplit]
  exact List.cons_ne_nil _ _

/-- Reading adds no bytes, and a dot segment costs at least one. -/
theorem length_pathFrom (cs : List Char) :
    (pathBytes (pathFrom .file [] cs)).length + ((segmentsOf cs).any isDots).toNat ≤
      (pathBytes (segmentsOf cs)).length := by
  have hlength := length_appendSegments .file [] (segmentsOf cs)
  have hne : appendSegments .file [] (segmentsOf cs) ≠ [] := appendSegments_ne_nil (segmentsOf_ne_nil cs)
  have hle := length_withoutLeadingEmpty_le hne
  have hread : pathFrom .file [] cs =
      withoutLeadingEmpty (appendSegments .file [] (segmentsOf cs)) := rfl
  have hnil : (pathBytes []).length = 0 := rfl
  rw [hread]
  omega

/-- Without dot segments reading changes at most how the first segment is written. -/
theorem pathFrom_plain {cs : List Char} {part : String} {rest : List String}
    (hcs : segmentsOf cs = part :: rest) (halone : part = "" → rest = [])
    (h : (segmentsOf cs).any isDots = false) :
    pathFrom .file [] cs = firstFileSegment part :: rest := by
  have hplain : ∀ other ∈ part :: rest, isDots other = false := by
    intro other hother
    rw [hcs] at h
    exact Bool.eq_false_iff.2 (List.any_eq_false.1 h other hother)
  have hread : pathFrom .file [] cs =
      withoutLeadingEmpty (appendSegments .file [] (segmentsOf cs)) := rfl
  rw [hread, hcs, appendSegments_first hplain]
  refine withoutLeadingEmpty_of_head (List.cons_ne_nil _ _) fun hhead => ?_
  rw [List.head?_cons, Option.some.injEq] at hhead
  rcases firstFileSegment_cases part with hsame | ⟨letter, -, hfirst, -⟩
  · rw [hhead, halone (hsame.symm.trans hhead)]
  · rw [hhead] at hfirst
    simp [pathBytes_singleton, utf8Bytes, utf8, decode] at hfirst

/-- Steady segments are read as they are. -/
theorem pathFrom_steady {cs : List Char} (halone : (segmentsOf cs).head? = some "" → segmentsOf cs = [""])
    (h : Steady (segmentsOf cs)) : pathFrom .file [] cs = segmentsOf cs := by
  obtain ⟨part, rest, hcs⟩ := List.exists_cons_of_ne_nil (segmentsOf_ne_nil cs)
  have hplain : (segmentsOf cs).any isDots = false := by
    rw [List.any_eq_false]
    exact fun part hpart => Bool.eq_false_iff.1 (h.plain part hpart)
  rw [pathFrom_plain hcs _ hplain, hcs, h.first part (by rw [hcs]; rfl)]
  rintro rfl
  rw [hcs] at halone
  exact (List.cons.inj (halone rfl)).2

/-! ## Trailing slashes -/

theorem getLast?_pathBytes_snoc (front : List String) (part : String) :
    (pathBytes (front ++ [part])).getLast? = (pathBytes [part]).getLast? := by
  rw [pathBytes_append, List.getLast?_append,
    List.getLast?_eq_some_getLast (pathBytes_ne_nil (List.cons_ne_nil part []))]
  rfl

/-- A path that ends in a slash still does when it is read. -/
theorem ends_appendSegments {done parts : List String}
    (h : (pathBytes parts).getLast? = some 47) :
    (pathBytes (appendSegments .file done parts)).getLast? = some 47 := by
  induction parts generalizing done with
  | nil => cases h
  | cons part rest ih =>
    cases rest with
    | nil =>
      have hempty : (pathBytes [""]).getLast? = some 47 := by
        simp [pathBytes, utf8Bytes, utf8, decode]
      unfold appendSegments appendSegment
      simp only [if_true]
      split
      next => rw [getLast?_pathBytes_snoc, hempty]
      split
      next => rw [getLast?_pathBytes_snoc, hempty]
      split
      next =>
        rcases firstFileSegment_cases part with hsame | ⟨letter, hpart, -⟩
        · rw [hsame, h]
        · rw [hpart] at h
          cases h
      next => rw [getLast?_pathBytes_snoc, h]
    | cons next rest =>
      rw [appendSegments]
      · refine ih ?_
        rw [pathBytes_cons, List.getLast?_append] at h
        have hne := pathBytes_ne_nil (List.cons_ne_nil next rest)
        rw [List.getLast?_eq_some_getLast hne] at h ⊢
        exact h
      · exact List.cons_ne_nil _ _

theorem ends_withoutLeadingEmpty {parts : List String} (h : (pathBytes parts).getLast? = some 47) :
    (pathBytes (withoutLeadingEmpty parts)).getLast? = some 47 := by
  unfold withoutLeadingEmpty
  split
  next => simp [pathBytes, utf8Bytes, utf8, decode]
  next rest hrest =>
    rw [← List.takeWhile_append_dropWhile (p := fun part : String => decide (part = "")) (l := parts),
      pathBytes_append, List.getLast?_append] at h
    rw [List.getLast?_eq_some_getLast (pathBytes_ne_nil hrest)] at h ⊢
    exact h

theorem ends_pathFrom {cs : List Char} (h : (pathBytes (segmentsOf cs)).getLast? = some 47) :
    (pathBytes (pathFrom .file [] cs)).getLast? = some 47 :=
  ends_withoutLeadingEmpty (ends_appendSegments h)

/-! ## Drive letters at the end -/

/-- The last two bytes are a letter and a colon or a bar. -/
def EndsInDrive (bytes : Bytes) : Prop :=
  ∃ front letter mark, bytes = front ++ [letter, mark] ∧ (mark = 58 ∨ mark = 124) ∧
    (Text.inRange letter 65 90 = true ∨ Text.inRange letter 97 122 = true)

theorem EndsInDrive.append {bytes : Bytes} (h : EndsInDrive bytes) (front : Bytes) :
    EndsInDrive (front ++ bytes) := by
  obtain ⟨front', letter, mark, rfl, hmark, hletter⟩ := h
  exact ⟨front ++ front', letter, mark, by simp, hmark, hletter⟩

theorem EndsInDrive.getLast? {bytes : Bytes} (h : EndsInDrive bytes) :
    bytes.getLast? ≠ some 47 := by
  obtain ⟨front, letter, mark, rfl, rfl | rfl, -⟩ := h <;> simp

theorem closeDrive_eq (bytes : Bytes) (hslash : bytes.head? = some 47) :
    (EndsInDrive bytes ∧ closeDrive bytes = bytes ++ [47]) ∨
    (¬ EndsInDrive bytes ∧ closeDrive bytes = bytes) := by
  unfold closeDrive
  split
  next mark letter third rest hreverse =>
    have hbytes : bytes = (rest.reverse ++ [third]) ++ [letter, mark] := by
      rw [← List.reverse_reverse bytes, hreverse]
      simp
    split
    next hdrive =>
      simp only [Bool.and_eq_true, Bool.or_eq_true, decide_eq_true_eq] at hdrive
      exact .inl ⟨⟨_, letter, mark, hbytes, hdrive.1, hdrive.2⟩, rfl⟩
    next hdrive =>
      refine .inr ⟨?_, rfl⟩
      rintro ⟨front, letter', mark', hbytes', hmark, hletter⟩
      obtain ⟨-, hlast⟩ := List.append_inj' (hbytes.symm.trans hbytes') rfl
      cases hlast
      exact hdrive (by simpa using ⟨hmark, hletter⟩)
  next hshort =>
    refine .inr ⟨?_, rfl⟩
    rintro ⟨front, letter, mark, rfl, -, hletter⟩
    match front, hslash, hshort with
    | [], hslash, _ =>
      cases hslash
      revert hletter
      decide
    | b :: front, _, hshort =>
      have hne : front.reverse ++ [b] ≠ [] := by simp
      obtain ⟨third, rest, hrest⟩ := List.exists_cons_of_ne_nil hne
      exact hshort mark letter third rest (by simpa using hrest)

/-! ## Clean segments -/

theorem splitWhere_append {p : Char → Bool} {front : List Char} (h : ∀ c ∈ front, p c = false)
    {cs first : List Char} {rest : List (List Char)} (hcs : splitWhere p cs = first :: rest) :
    splitWhere p (front ++ cs) = (front ++ first) :: rest := by
  induction front with
  | nil => exact hcs
  | cons c front ih =>
    have hrest := ih fun d hd => h d (List.mem_cons_of_mem c hd)
    rw [List.cons_append, splitWhere, h c List.mem_cons_self, hrest]
    rfl

theorem Clean.not_slash {part : String} (h : Clean part) :
    ∀ c ∈ part.toList, isSlash .file c = false := by
  intro c hc
  obtain ⟨-, hslash, hbackslash⟩ := h c hc
  simp [isSlash, hslash, hbackslash]

theorem Clean.encode {part : String} (h : Clean part) :
    String.ofList (encode pathSet part.toList) = part := by
  rw [encode_of_forall fun c hc => (h c hc).1, String.ofList_toList]

/-- The text of clean segments splits into them. -/
theorem segmentsOf_pathChars {part : String} {rest : List String}
    (h : ∀ other ∈ part :: rest, Clean other) :
    segmentsOf (part.toList ++ pathChars rest) = part :: rest := by
  have hpart := h part List.mem_cons_self
  induction rest generalizing part with
  | nil =>
    have hsplit := splitWhere_append hpart.not_slash (rfl : splitWhere (isSlash .file) [] = [] :: [])
    rw [pathChars, List.flatMap_nil, segmentsOf, hsplit, List.append_nil, List.map_cons, List.map_nil,
      hpart.encode]
  | cons next rest ih =>
    have hrest := ih (fun other hother => h other (List.mem_cons_of_mem part hother))
      (h next (by simp))
    have hslash : splitWhere (isSlash .file) ('/' :: (next.toList ++ pathChars rest)) =
        [] :: splitWhere (isSlash .file) (next.toList ++ pathChars rest) := rfl
    have hchars : pathChars (next :: rest) = '/' :: (next.toList ++ pathChars rest) := by
      simp [pathChars]
    rw [hchars, segmentsOf, splitWhere_append hpart.not_slash hslash, List.map_cons,
      List.append_nil, hpart.encode]
    exact congrArg (part :: ·) hrest

/-! ## Characters that end a path -/

theorem plain_endsPath : EncodeSet.Plain endsPath := forall_eq_false (by decide)

theorem splitWhere_encode {p : Char → Bool} {set : EncodeSet} (hescape : ∀ c ∈ escapeChars, p c = false)
    (hset : ∀ c, set c = true → p c = false) (cs : List Char) :
    splitWhere p (encode set cs) = (splitWhere p cs).map (encode set) := by
  induction cs with
  | nil => rfl
  | cons c cs ih =>
    obtain ⟨first, rest, hcs⟩ := exists_splitWhere p cs
    rw [hcs, List.map_cons] at ih
    have hcons : encode set (c :: cs) = encodeChar set c ++ encode set cs := rfl
    rw [hcons]
    cases hp : p c with
    | true =>
      have hc : set c = false := by
        rw [Bool.eq_false_iff]
        exact fun hc => Bool.noConfusion (hp.symm.trans (hset c hc))
      have hchar : encodeChar set c = [c] := by simp [encodeChar, hc]
      rw [hchar, List.singleton_append, splitWhere, if_pos hp, ih, splitWhere, if_pos hp, hcs]
      rfl
    | false =>
      have hchars : ∀ d ∈ encodeChar set c, p d = false := by
        intro d hd
        unfold encodeChar at hd
        split at hd
        next => exact hescape d (mem_escapeChars_of_mem_encodeBytes hd)
        next => exact List.mem_singleton.1 hd ▸ hp
      have hsplit : splitWhere p (c :: cs) = (c :: first) :: rest := by
        rw [splitWhere, if_neg (by simp [hp]), hcs]
      rw [splitWhere_append hchars ih, hsplit]
      rfl

/-- For the segments it does not matter whether these characters are encoded before. -/
theorem segmentsOf_encode (cs : List Char) : segmentsOf (encode endsPath cs) = segmentsOf cs := by
  have hescape : ∀ c ∈ escapeChars, isSlash .file c = false := forall_eq_false (by decide)
  have hends : ∀ c, endsPath c = true → isSlash .file c = false ∧ pathSet c = true := by
    intro c hc
    simp only [endsPath, Bool.or_eq_true, decide_eq_true_eq] at hc
    rcases hc with rfl | rfl <;> decide
  rw [segmentsOf, splitWhere_encode hescape fun c hc => (hends c hc).1, List.map_map, segmentsOf]
  congr 1
  funext part
  rw [Function.comp_apply, encode_encode plain_pathSet fun c hc => (hends c hc).2]

end ModuleLoader.Url
