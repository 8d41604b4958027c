import Mathlib.Data.List.Basic
import ModuleLoader.Proofs.Paths

/-!
# Extensions behind paths

An extension can be put behind a path of the file system, or behind the path of a URL, which is then
read anew and turned into a path again. The two agree exactly if reading alters nothing and no drive
letter stands at the end.

Results:
1. `closeDrive_extended`: when the two ways to put an extension behind a path agree.
2. `closeDrive_reread`: when the path of a URL stays what it is as its text is read.
3. `parseWith_file`: whatever it is read against, the text of a URL with a local path gives that path.
-/

namespace ModuleLoader

open Text (Bytes utf8 utf8Bytes)

namespace Url

/-! ## Putting an extension behind segments -/

theorem length_slashed (cs : List Char) : (utf8 (slashed cs)).length = (utf8 cs).length := by
  induction cs with
  | nil => rfl
  | cons c cs ih =>
    have hc : (utf8 [if c = '\\' then '/' else c]).length = (utf8 [c]).length := by
      split
      next h => rw [h]; rfl
      next => rfl
    have hcons : slashed (c :: cs) = (if c = '\\' then '/' else c) :: slashed cs := rfl
    rw [hcons, utf8_cons, List.length_append, ih, hc, utf8_cons c cs, List.length_append]

theorem slashed_of_not_mem {cs : List Char} (h : '\\' ∉ cs) : slashed cs = cs := by
  unfold slashed
  refine (List.map_congr_left fun c hc => if_neg ?_).trans (List.map_id cs)
  rintro rfl
  exact h hc

theorem not_mem_of_slashed {cs : List Char} (h : utf8 (slashed cs) = utf8 cs) : '\\' ∉ cs := by
  induction cs with
  | nil => simp
  | cons c cs ih =>
    have hcons : slashed (c :: cs) = (if c = '\\' then '/' else c) :: slashed cs := rfl
    rw [hcons, utf8_cons, utf8_cons c cs] at h
    by_cases hc : c = '\\'
    · subst hc
      exact absurd (List.head_eq_of_cons_eq h) (by decide)
    · rw [if_neg hc] at h
      simp [Ne.symm hc, ih (List.append_cancel_left h)]

theorem length_filter_le (p : Char → Bool) (cs : List Char) :
    (utf8 (cs.filter p)).length ≤ (utf8 cs).length := by
  induction cs with
  | nil => exact Nat.le_refl _
  | cons c cs ih =>
    rw [utf8_cons c cs, List.length_append, List.filter_cons]
    split
    next => rw [utf8_cons, List.length_append]; omega
    next => omega

theorem filter_eq_of_length {p : Char → Bool} {cs : List Char}
    (h : (utf8 cs).length ≤ (utf8 (cs.filter p)).length) : cs.filter p = cs := by
  induction cs with
  | nil => rfl
  | cons c cs ih =>
    have hpos := List.length_pos_iff.2 (utf8_ne_nil c)
    have hle := length_filter_le p cs
    rw [List.filter_cons] at h ⊢
    rw [utf8_cons c cs, List.length_append] at h
    split at h
    next hc =>
      rw [utf8_cons c (cs.filter p), List.length_append] at h
      rw [if_pos hc, ih (by omega)]
    next => omega

/-- The text that setting a path reads: tabs and newlines do not count, and characters that would
end the path are encoded. -/
def readable (cs : List Char) : List Char := encode endsPath (cs.filter fun c => !isTabOrNewline c)

theorem setPath_path (u : Url) (path : String) :
    (u.setPath path).path = .segments (rootPath u.kind (readable path.toList)) := by
  have hchar : (fun c => if endsPath c then encodeChar pathSet c else [c]) = encodeChar endsPath := by
    funext c
    by_cases hc : endsPath c = true
    · have hpath : pathSet c = true := by
        simp only [endsPath, Bool.or_eq_true, decide_eq_true_eq] at hc
        rcases hc with rfl | rfl <;> decide
      rw [if_pos hc, encodeChar, if_pos hpath, encodeChar, if_pos hc]
    · rw [if_neg hc, encodeChar, if_neg hc]
  unfold setPath readable encode
  rw [hchar]

theorem readable_append (cs ds : List Char) : readable (cs ++ ds) = readable cs ++ readable ds := by
  unfold readable
  rw [List.filter_append, encode_append]

theorem of_mem_pathChars {parts : List String} {c : Char} (h : ∀ part ∈ parts, Clean part)
    (hc : c ∈ pathChars parts) : pathSet c = false ∧ c ≠ '\\' := by
  obtain ⟨part, hpart, hc⟩ := List.mem_flatMap.1 hc
  rcases List.mem_cons.1 hc with rfl | hc
  · decide
  · obtain ⟨hset, -, hbackslash⟩ := h part hpart c hc
    exact ⟨hset, hbackslash⟩

/-- A character that a path shows as it is counts wherever it stands, and does not end the path. -/
theorem of_pathSet {c : Char} (h : pathSet c = false) :
    isControlOrSpace c = false ∧ isTabOrNewline c = false ∧ endsPath c = false := by
  refine ⟨?_, ?_, ?_⟩
  · rw [isControlOrSpace, decide_eq_false_iff_not]
    intro hle
    have hlow : ∀ n < 33, pathSet (Char.ofNat n) = true := by decide
    have hset := hlow c.toNat (Nat.lt_succ_of_le hle)
    rw [Char.ofNat_toNat, h] at hset
    cases hset
  all_goals
    simp only [isTabOrNewline, endsPath, Bool.or_eq_false_iff, decide_eq_false_iff_not]
    and_intros <;> rintro rfl <;> exact absurd h (by decide)

/-- The characters of clean segments are read as they are. -/
theorem readable_pathChars {parts : List String} (h : ∀ part ∈ parts, Clean part) :
    readable (pathChars parts) = pathChars parts := by
  have hread : ∀ c ∈ pathChars parts, isTabOrNewline c = false ∧ endsPath c = false :=
    fun c hc => (of_pathSet (of_mem_pathChars h hc).1).2
  rw [readable, List.filter_eq_self.2 fun c hc => by simp [(hread c hc).1]]
  exact encode_of_forall fun c hc => (hread c hc).2

theorem slashed_append (cs ds : List Char) : slashed (cs ++ ds) = slashed cs ++ slashed ds :=
  List.map_append

theorem slashed_encode (cs : List Char) :
    slashed (encode endsPath cs) = encode endsPath (slashed cs) := by
  induction cs with
  | nil => rfl
  | cons c cs ih =>
    have hchar : slashed (encodeChar endsPath c) =
        encodeChar endsPath (if c = '\\' then '/' else c) := by
      by_cases hc : endsPath c = true
      · have hback : c ≠ '\\' := by rintro rfl; exact absurd hc (by decide)
        rw [if_neg hback, encodeChar, if_pos hc]
        refine slashed_of_not_mem fun hmem => ?_
        exact absurd (mem_escapeChars_of_mem_encodeBytes hmem) (by decide)
      · by_cases hback : c = '\\'
        · rw [hback]; rfl
        · rw [if_neg hback, encodeChar, if_neg hc]
          simp [slashed, hback]
    have hcons : encode endsPath (c :: cs) = encodeChar endsPath c ++ encode endsPath cs := rfl
    have hcons' : slashed (c :: cs) = (if c = '\\' then '/' else c) :: slashed cs := rfl
    rw [hcons, slashed_append, ih, hchar, hcons']
    rfl

/-- The bytes of the segments into which a path with an extension splits. -/
theorem pathBytes_extended {part : String} {rest : List String}
    (h : ∀ other ∈ part :: rest, Clean other) (ext : List Char) :
    pathBytes (segmentsOf (part.toList ++ pathChars rest ++ '.' :: encode endsPath ext)) =
      pathBytes (part :: rest) ++ 46 :: decode (utf8 (slashed ext)) := by
  have hchars : '/' :: (part.toList ++ pathChars rest) = pathChars (part :: rest) := rfl
  have hslash : slashed (pathChars (part :: rest)) = pathChars (part :: rest) :=
    slashed_of_not_mem fun hmem => (of_mem_pathChars h hmem).2 rfl
  have hdot : utf8 ['.'] = [46] := rfl
  calc pathBytes (segmentsOf (part.toList ++ pathChars rest ++ '.' :: encode endsPath ext))
      = decode (utf8 (slashed ('/' :: (part.toList ++ pathChars rest ++ '.' :: encode endsPath ext)))) := by
        rw [pathBytes_segmentsOf, ← decode_of_ne (by decide)]
        rfl
    _ = decode (utf8 (pathChars (part :: rest)) ++ 46 :: utf8 (encode endsPath (slashed ext))) := by
        rw [← List.cons_append, hchars, slashed_append, hslash, utf8_append, ← slashed_encode]
        rfl
    _ = pathBytes (part :: rest) ++ 46 :: decode (utf8 (slashed ext)) := by
        rw [decode_append_cons _ (by decide) (by decide), decode_pathChars,
          decode_encode plain_endsPath]

/-- What it takes for an extension to stand behind a path unaltered when the path is read again. -/
structure KeepsExtension (parts : List String) (ext : List Char) : Prop where
  /-- No character of the extension is left out or taken for a slash, -/
  plain : ∀ c ∈ ext, isTabOrNewline c = false ∧ c ≠ '\\'
  /-- none is decoded, -/
  unescaped : decode (utf8 ext) = utf8 ext
  /-- no segment of the whole leads back or is rewritten, -/
  steady : Steady (segmentsOf (pathChars parts ++ '.' :: ext).tail)
  /-- and neither the path nor the extension ends like a drive, behind which a slash is put. -/
  open_path : ¬ EndsInDrive (pathBytes parts)
  open_extension : ¬ EndsInDrive (utf8 ext)

theorem getLast?_utf8 {cs : List Char} (h : (utf8 cs).getLast? = some 47) : cs.getLast? = some '/' := by
  rcases List.eq_nil_or_concat' cs with rfl | ⟨front, c, rfl⟩
  · cases h
  · rw [utf8_append, List.getLast?_append_of_ne_nil _ (utf8_ne_nil c)] at h
    rw [List.getLast?_append_of_ne_nil _ (List.cons_ne_nil c []), List.getLast?_singleton]
    by_cases hc : c.toNat < 128
    · rw [utf8_ascii hc, List.getLast?_singleton] at h
      have hbyte : ∀ n < 128, UInt8.ofNat n = 47 → Char.ofNat n = '/' := by decide
      rw [← hbyte c.toNat hc (Option.some.inj h), Char.ofNat_toNat]
    · have hge := ge_of_mem_utf8 (Nat.le_of_not_lt hc) (List.mem_of_getLast? h)
      exact absurd hge (by decide)

theorem not_endsInDrive_extended {bytes ext : Bytes} (h : ¬ EndsInDrive ext) :
    ¬ EndsInDrive (bytes ++ 46 :: ext) := by
  rintro ⟨front, letter, mark, hbytes, hmark, hletter⟩
  rw [List.append_cons front letter [mark]] at hbytes
  -- The extension would have to hold neither byte, or the second alone, or both.
  rcases List.eq_nil_or_concat' ext with rfl | ⟨ext, mark', rfl⟩
  · obtain ⟨-, hlast⟩ := List.append_inj' hbytes rfl
    cases hlast
    exact absurd hmark (by decide)
  rw [← List.cons_append, ← List.append_assoc] at hbytes
  obtain ⟨hfront, hlast⟩ := List.append_inj' hbytes rfl
  cases hlast
  rcases List.eq_nil_or_concat' ext with rfl | ⟨ext, letter', rfl⟩
  · obtain ⟨-, hlast⟩ := List.append_inj' hfront rfl
    cases hlast
    exact absurd hletter (by decide)
  · rw [← List.cons_append, ← List.append_assoc] at hfront
    obtain ⟨-, hlast⟩ := List.append_inj' hfront rfl
    cases hlast
    exact h ⟨ext, letter, mark, by simp, hmark, hletter⟩

/-- If a slash ends the bytes of an extension, it ends the extension. -/
theorem ends_of_getLast? {ext : List Char} (h : (46 :: utf8 ext).getLast? = some 47) :
    ∃ front, ext = front ++ ['/'] := by
  rcases List.eq_nil_or_concat' ext with rfl | ⟨front, c, rfl⟩
  · exact absurd h (by decide)
  · have hlast : (46 :: utf8 (front ++ [c])).getLast? = (utf8 (front ++ [c])).getLast? := by
      rw [utf8_append, ← List.cons_append, List.getLast?_append_of_ne_nil _ (utf8_ne_nil c),
        List.getLast?_append_of_ne_nil _ (utf8_ne_nil c)]
    have hc := getLast?_utf8 (hlast.symm.trans h)
    rw [List.getLast?_concat] at hc
    exact ⟨front, by rw [Option.some.inj hc]⟩

/-- Only a text that begins with a slash has an empty segment before others. -/
theorem head_ne_empty {cs : List Char} (hne : cs ≠ []) (h : ∀ c ∈ cs.head?, isSlash .file c = false) :
    (segmentsOf cs).head? ≠ some "" := by
  obtain ⟨c, cs, rfl⟩ := List.exists_cons_of_ne_nil hne
  obtain ⟨first, rest, hcs⟩ := exists_splitWhere (isSlash .file) cs
  rw [segmentsOf, splitWhere, h c rfl, hcs]
  intro hempty
  have hfirst : String.ofList (encode pathSet (c :: first)) = "" := Option.some.inj hempty
  exact encode_ne_nil (List.cons_ne_nil c first) (by simpa using congrArg String.toList hfirst)

section
variable {part : String} {rest : List String} {ext : List Char}

theorem head_extended (h : CleanPath (part :: rest)) (ext : List Char) :
    (segmentsOf (part.toList ++ pathChars rest ++ '.' :: ext)).head? ≠ some "" := by
  refine head_ne_empty (by simp) ?_
  cases hpart : part.toList with
  | nil =>
    have hempty := String.toList_eq_nil_iff.1 hpart
    obtain rfl := (List.cons.inj (h.alone (congrArg some hempty))).2
    rintro c ⟨⟩
    rfl
  | cons c cs =>
    rintro d ⟨⟩
    exact (h.clean part List.mem_cons_self).not_slash c (by rw [hpart]; exact List.mem_cons_self)

theorem pathChars_tail (ext : List Char) :
    (pathChars (part :: rest) ++ '.' :: ext).tail = part.toList ++ pathChars rest ++ '.' :: ext := rfl

/-- Characters that would end the path do not count for its segments. -/
theorem segmentsOf_extended (h : CleanPath (part :: rest)) (ext : List Char) :
    segmentsOf (part.toList ++ pathChars rest ++ '.' :: encode endsPath ext) =
      segmentsOf (part.toList ++ pathChars rest ++ '.' :: ext) := by
  have hfront : encode endsPath (part.toList ++ pathChars rest) = part.toList ++ pathChars rest := by
    refine encode_of_forall fun c hc => ?_
    exact (of_pathSet (of_mem_pathChars h.clean (List.mem_cons_of_mem '/' hc)).1).2.2
  rw [← segmentsOf_encode (part.toList ++ pathChars rest ++ '.' :: ext), encode_append, hfront]
  rfl

/-- A slash at the end of an extension stays there. -/
theorem ends_extended (h : CleanPath (part :: rest)) (front : List Char) :
    (pathBytes (pathFrom .file []
      (part.toList ++ pathChars rest ++ '.' :: readable (front ++ ['/'])))).getLast? = some 47 := by
  refine ends_pathFrom ?_
  have hfilter : (front ++ ['/']).filter (fun c => !isTabOrNewline c) =
      front.filter (fun c => !isTabOrNewline c) ++ ['/'] := List.filter_append ..
  have hlast : utf8 (slashed ['/']) = [47] := rfl
  rw [readable, pathBytes_extended h.clean, hfilter, slashed_append, utf8_append, hlast,
    decode_append_cons _ (by decide) (by decide), decode, ← List.cons_append, ← List.append_assoc,
    List.getLast?_concat]

/-- Were the first segment rewritten, the path would end within it. -/
theorem firstFileSegment_of_prefix {first : String} {others : List String} {bytes back back' : Bytes}
    (hslash : bytes.head? = some 47)
    (hread : pathBytes (firstFileSegment first :: others) = bytes ++ 46 :: back)
    (hsplit : pathBytes (first :: others) = bytes ++ 46 :: back') :
    firstFileSegment first = first := by
  rcases firstFileSegment_cases first with hsame | ⟨letter, hbar, hcolon, hletter⟩
  · exact hsame
  · exfalso
    have hcons : ∀ part, pathBytes (part :: others) = pathBytes [part] ++ pathBytes others :=
      fun part => pathBytes_append [part] others
    rw [hcons, hcolon] at hread
    rw [hcons, hbar] at hsplit
    match bytes, hslash with
    | [_], rfl => exact hletter (by simp at hread; exact hread.1)
    | [_, _], rfl => simp at hread
    | _ :: _ :: third :: _, rfl =>
      simp only [List.cons_append, List.nil_append, List.cons.injEq] at hread hsplit
      exact absurd (hread.2.2.1.trans hsplit.2.2.1.symm) (by decide)

/-- The bytes that are read are at most as many as those that are asked for, and fewer by each dot
segment. -/
theorem length_read (h : CleanPath (part :: rest)) (ext : List Char) :
    (pathBytes (pathFrom .file []
        (part.toList ++ pathChars rest ++ '.' :: readable ext))).length +
      ((segmentsOf (part.toList ++ pathChars rest ++ '.' :: readable ext)).any isDots).toNat ≤
    (pathBytes (part :: rest)).length + 1 +
      (decode (utf8 (slashed (ext.filter fun c => !isTabOrNewline c)))).length := by
  have hlength := length_pathFrom (part.toList ++ pathChars rest ++ '.' :: readable ext)
  have hbytes := congrArg List.length
    (pathBytes_extended h.clean (ext.filter fun c => !isTabOrNewline c))
  rw [← readable, List.length_append, List.length_cons] at hbytes
  omega

theorem length_decode_slashed_le (ext : List Char) :
    (decode (utf8 (slashed (ext.filter fun c => !isTabOrNewline c)))).length ≤ (utf8 ext).length := by
  have hdecode := length_decode_le (utf8 (slashed (ext.filter fun c => !isTabOrNewline c)))
  have hslashed := length_slashed (ext.filter fun c => !isTabOrNewline c)
  have hfilter := length_filter_le (fun c => !isTabOrNewline c) ext
  omega

/-- If as many bytes are read as are asked for, nothing is left out, decoded or taken for a dot
segment. -/
theorem nothing_lost (h : CleanPath (part :: rest))
    (hread : pathBytes (pathFrom .file []
      (part.toList ++ pathChars rest ++ '.' :: readable ext)) =
        pathBytes (part :: rest) ++ 46 :: utf8 ext) :
    ext.filter (fun c => !isTabOrNewline c) = ext ∧
      decode (utf8 (slashed ext)) = utf8 (slashed ext) ∧
      (segmentsOf (part.toList ++ pathChars rest ++ '.' :: readable ext)).any isDots = false := by
  have htotal := congrArg List.length hread
  rw [List.length_append, List.length_cons] at htotal
  have hlength := length_read h ext
  have hdecode := length_decode_le (utf8 (slashed (ext.filter fun c => !isTabOrNewline c)))
  have hslashed := length_slashed (ext.filter fun c => !isTabOrNewline c)
  have hfilter := length_filter_le (fun c => !isTabOrNewline c) ext
  have hall : ext.filter (fun c => !isTabOrNewline c) = ext := filter_eq_of_length (by omega)
  refine ⟨hall, ?_, ?_⟩
  · rw [hall] at hlength hslashed
    exact decode_eq_self (by omega)
  · rw [← Bool.toNat_eq_zero]
    omega

/-- Between paths that do not end in drives. -/
theorem keepsExtension_of_open (h : CleanPath (part :: rest))
    (hopen : ¬ EndsInDrive (pathBytes (part :: rest)))
    (hopen' : ¬ EndsInDrive (pathBytes (pathFrom .file []
      (part.toList ++ pathChars rest ++ '.' :: readable ext))))
    (hread : pathBytes (pathFrom .file []
      (part.toList ++ pathChars rest ++ '.' :: readable ext)) =
        pathBytes (part :: rest) ++ 46 :: utf8 ext) :
    KeepsExtension (part :: rest) ext := by
  obtain ⟨hall, hstays, hdots⟩ := nothing_lost h hread
  have hsplit := pathBytes_extended h.clean ext
  have hreadable : readable ext = encode endsPath ext := by rw [readable, hall]
  rw [hreadable] at hread hopen' hdots
  rw [hstays] at hsplit
  -- What is read is what was put together, as the first segment stays.
  obtain ⟨first, others, hfirst⟩ := List.exists_cons_of_ne_nil
    (segmentsOf_ne_nil (part.toList ++ pathChars rest ++ '.' :: encode endsPath ext))
  have hhead := head_extended h (encode endsPath ext)
  have hpath := pathFrom_plain hfirst
    (fun hempty => absurd (by rw [hfirst, hempty]; rfl) hhead) hdots
  rw [hpath] at hread
  rw [hfirst] at hsplit
  have hsame := firstFileSegment_of_prefix (head?_pathBytes (List.cons_ne_nil part rest)) hread hsplit
  rw [hsame, hsplit] at hread
  have hext : utf8 (slashed ext) = utf8 ext := (List.cons.inj (List.append_cancel_left hread)).2
  have hback : '\\' ∉ ext := not_mem_of_slashed hext
  rw [segmentsOf_extended h ext] at hfirst hdots
  exact {
    plain := fun c hc => by
      rw [← hall, List.mem_filter, Bool.not_eq_true'] at hc
      exact ⟨hc.2, fun hslash => hback (hslash ▸ hc.1)⟩
    unescaped := by rwa [slashed_of_not_mem hback] at hstays
    steady := by
      rw [pathChars_tail]
      refine ⟨fun other hother => ?_, fun other hother => ?_⟩
      · exact Bool.eq_false_iff.2 (List.any_eq_false.1 hdots other hother)
      · rw [hfirst] at hother
        obtain rfl := Option.some.inj hother
        exact hsame
    open_path := hopen
    open_extension := fun hends => by
      refine hopen' ?_
      rw [hpath, hsame, hsplit, hext]
      exact (hends.append [46]).append (pathBytes (part :: rest)) }

/-- The path that is read with the extension is the path that is asked for with the extension
exactly if the extension is kept. -/
theorem closeDrive_extended (h : CleanPath (part :: rest)) (ext : List Char) :
    closeDrive (pathBytes (pathFrom .file []
      (part.toList ++ pathChars rest ++ '.' :: readable ext))) =
        closeDrive (pathBytes (part :: rest)) ++ 46 :: utf8 ext ↔
      KeepsExtension (part :: rest) ext := by
  have hne : pathFrom .file [] (part.toList ++ pathChars rest ++ '.' :: readable ext) ≠ [] :=
    (clean_pathFrom (fun _ hpart => absurd hpart List.not_mem_nil) _).ne_nil
  have hcases := closeDrive_eq _ (head?_pathBytes (List.cons_ne_nil part rest))
  constructor
  · intro hread
    rcases closeDrive_eq _ (head?_pathBytes hne) with ⟨hends, hclosed⟩ | ⟨hopen', hclosed⟩
    · -- A slash put behind a drive would have to be one of the extension, which is never dropped.
      exfalso
      have hlast := congrArg List.getLast? hread
      rw [hclosed, List.getLast?_concat, List.getLast?_append_of_ne_nil _ (List.cons_ne_nil _ _)] at hlast
      obtain ⟨front, rfl⟩ := ends_of_getLast? hlast.symm
      exact hends.getLast? (ends_extended h front)
    rw [hclosed] at hread
    rcases hcases with ⟨-, hclosed'⟩ | ⟨hopen, hclosed'⟩
    · have htotal := congrArg List.length hread
      have hlength := length_read h ext
      have hle := length_decode_slashed_le ext
      rw [hclosed', List.length_append, List.length_append, List.length_cons, List.length_cons] at htotal
      omega
    · rw [hclosed'] at hread
      exact keepsExtension_of_open h hopen hopen' hread
  · intro hkeeps
    have hall : ext.filter (fun c => !isTabOrNewline c) = ext :=
      List.filter_eq_self.2 fun c hc => by simp [(hkeeps.plain c hc).1]
    have hback : slashed ext = ext := slashed_of_not_mem fun hmem => (hkeeps.plain _ hmem).2 rfl
    have hsteady := hkeeps.steady
    rw [pathChars_tail, ← segmentsOf_extended h ext] at hsteady
    have hpath := pathFrom_steady (fun hempty => absurd hempty (head_extended h _)) hsteady
    have hreadable : readable ext = encode endsPath ext := by rw [readable, hall]
    have hbytes := pathBytes_extended h.clean ext
    rw [hback, hkeeps.unescaped] at hbytes
    rw [← hreadable] at hbytes hpath
    rw [← hpath] at hbytes
    rcases hcases with ⟨hends, -⟩ | ⟨-, hclosed⟩
    · exact absurd hends hkeeps.open_path
    rcases closeDrive_eq _ (head?_pathBytes hne) with ⟨hends, -⟩ | ⟨-, hclosed'⟩
    · rw [hbytes] at hends
      exact absurd hends (not_endsInDrive_extended hkeeps.open_extension)
    · rw [hclosed', hclosed, hbytes]

end

/-! ## Reading the text of a file URL -/

theorem isTabOrNewline_of_visible {c : Char} (h : isControlOrSpace c = false) :
    isTabOrNewline c = false := by
  rw [Bool.eq_false_iff]
  intro htab
  simp only [isTabOrNewline, Bool.or_eq_true, decide_eq_true_eq] at htab
  rcases htab with (rfl | rfl) | rfl <;> exact absurd h (by decide)

theorem dropWhile_of_head {p : Char → Bool} {cs : List Char} (h : ∀ c ∈ cs.head?, p c = false) :
    cs.dropWhile p = cs := by
  cases cs with
  | nil => rfl
  | cons c cs => rw [List.dropWhile_cons_of_neg (by simp [h c rfl])]

/-- Blanks are cut off behind a text that holds none, and nothing of the text itself. -/
theorem significant_eq {s : String} {front tail : List Char} (hs : s.toList = front ++ tail)
    (hne : front ≠ []) (hfront : ∀ c ∈ front, isControlOrSpace c = false)
    (htail : ∀ c ∈ tail.head?, endsPath c = true) :
    ∃ tail', significant s = front ++ tail' ∧ ∀ c ∈ tail'.head?, endsPath c = true := by
  have hbegin : (front ++ tail).dropWhile isControlOrSpace = front ++ tail := by
    obtain ⟨c, cs, rfl⟩ := List.exists_cons_of_ne_nil hne
    rw [List.cons_append, List.dropWhile_cons_of_neg (by simp [hfront c List.mem_cons_self])]
  have hend : front.reverse.dropWhile isControlOrSpace = front.reverse :=
    dropWhile_of_head fun c hc => hfront c (List.mem_reverse.1 (List.mem_of_head? hc))
  have hinner : (front ++ tail).reverse.dropWhile isControlOrSpace =
      tail.reverse.dropWhile isControlOrSpace ++ front.reverse := by
    rw [List.reverse_append, List.dropWhile_append]
    split
    next hempty => rw [hend, List.isEmpty_iff.1 hempty, List.nil_append]
    next => rfl
  have hkept : front.filter (fun c => !isTabOrNewline c) = front :=
    List.filter_eq_self.2 fun c hc => by simp [isTabOrNewline_of_visible (hfront c hc)]
  refine ⟨((tail.reverse.dropWhile isControlOrSpace).reverse).filter fun c => !isTabOrNewline c, ?_, ?_⟩
  · rw [significant, hs, hbegin, hinner, List.reverse_append, List.reverse_reverse,
      List.filter_append, hkept]
  · have hprefix : (tail.reverse.dropWhile isControlOrSpace).reverse <+: tail := by
      rw [← List.reverse_suffix, List.reverse_reverse]
      exact List.dropWhile_suffix _
    cases hcut : (tail.reverse.dropWhile isControlOrSpace).reverse with
    | nil => rintro c ⟨⟩
    | cons c cs =>
      rw [hcut] at hprefix
      obtain ⟨rest, rfl⟩ := hprefix
      have hc : endsPath c = true := htail c rfl
      have hkeep : isTabOrNewline c = false := by
        simp only [endsPath, Bool.or_eq_true, decide_eq_true_eq] at hc
        rcases hc with rfl | rfl <;> rfl
      rw [List.filter_cons_of_pos (by simp [hkeep])]
      rintro d ⟨⟩
      exact hc

theorem splitPath_append {path tail : List Char} (hpath : ∀ c ∈ path, endsPath c = false)
    (htail : ∀ c ∈ tail.head?, endsPath c = true) : splitPath (path ++ tail) = (path, tail) := by
  have htake : (path ++ tail).takeWhile (fun c => !endsPath c) = path := by
    rw [List.takeWhile_append_of_pos fun c hc => by simp [hpath c hc]]
    cases tail with
    | nil => simp
    | cons c tail => simp [htail c rfl]
  rw [splitPath, htake, List.drop_left]

/-- Whatever it is read against, a text with an empty host gives a URL with the path that it shows. -/
theorem parseWith_file (base : Option Url) {s : String} {cs tail : List Char}
    (hs : significant s = "file://".toList ++ '/' :: cs ++ tail) (hcs : ∀ c ∈ cs, endsPath c = false)
    (htail : ∀ c ∈ tail.head?, endsPath c = true) :
    parseWith base s = .ok (filePath .empty (pathFrom .file [] cs) tail) := by
  have hslash : ∀ c ∈ '/' :: cs, endsPath c = false := by
    intro c hc
    rcases List.mem_cons.1 hc with rfl | hc
    · rfl
    · exact hcs c hc
  have hpath : splitPath ('/' :: (cs ++ tail)) = ('/' :: cs, tail) := splitPath_append hslash htail
  have hhost : fileHost ('/' :: (cs ++ tail)) = .ok (.empty, '/' :: (cs ++ tail)) := rfl
  have hscheme : scheme? ("file://".toList ++ '/' :: cs ++ tail) =
      some ("file", '/' :: '/' :: '/' :: (cs ++ tail)) := rfl
  have hfile : ∀ base, file base ('/' :: '/' :: '/' :: (cs ++ tail)) =
      .ok (filePath .empty (pathFrom .file [] cs) tail) := by
    intro base
    have hroot : rootPath .file ('/' :: cs) = pathFrom .file [] cs := rfl
    rw [file, if_pos ⟨rfl, rfl⟩, hhost]
    change Except.ok (filePath .empty (rootPath .file (splitPath ('/' :: (cs ++ tail))).1)
      (splitPath ('/' :: (cs ++ tail))).2) = _
    rw [hpath, hroot]
  unfold parseWith
  dsimp only
  rw [hs, hscheme]
  exact hfile _

/-- What stands behind the path of a URL starts with a mark that ends it. -/
theorem head_tail (u : Url) :
    ∀ c ∈ (u.queryText.toList ++ u.fragmentText.toList).head?, endsPath c = true := by
  unfold queryText fragmentText
  cases u.query with
  | some q => simp [String.toList_append, endsPath]
  | none =>
    cases u.fragment with
    | some f => simp [String.toList_append, endsPath]
    | none => simp

/-- The path text of a local URL is not cut short when it is read. -/
theorem significant_text {u : Url} (h : Local u) (hscheme : u.scheme = "file")
    (hhost : u.authority = some {}) : ∃ cs tail, pathChars u.parts = '/' :: cs ∧
      segmentsOf cs = u.parts ∧ significant u.text = "file://".toList ++ '/' :: cs ++ tail ∧
      (∀ c ∈ cs, endsPath c = false) ∧ ∀ c ∈ tail.head?, endsPath c = true := by
  obtain ⟨hpath, hclean⟩ := h.parts
  obtain ⟨part, rest, hparts⟩ := List.exists_cons_of_ne_nil hclean.ne_nil
  have hchars : pathChars u.parts = '/' :: (part.toList ++ pathChars rest) := by rw [hparts]; rfl
  have hof := hclean.clean
  rw [hparts] at hof
  have hread : ∀ c ∈ pathChars u.parts, isControlOrSpace c = false ∧ endsPath c = false :=
    fun c hc => (of_pathSet (of_mem_pathChars hclean.clean hc).1).imp_right And.right
  have htext : u.text.toList = ("file://".toList ++ pathChars u.parts) ++
      (u.queryText.toList ++ u.fragmentText.toList) := by
    rw [text, authorityText, hscheme, hhost, hpath]
    simp only [String.toList_append, toList_text]
    simp [Authority.text, Authority.userinfo, Host.text]
  have hfront : ∀ c ∈ "file://".toList ++ pathChars u.parts, isControlOrSpace c = false := by
    intro c hc
    rcases List.mem_append.1 hc with hc | hc
    · have hscheme : ∀ c ∈ "file://".toList, isControlOrSpace c = false :=
        forall_eq_false (by decide)
      exact hscheme c hc
    · exact (hread c hc).1
  obtain ⟨tail, hsignificant, htail⟩ := significant_eq htext (by simp) hfront (head_tail u)
  refine ⟨part.toList ++ pathChars rest, tail, hchars, ?_, ?_, fun c hc => ?_, htail⟩
  · rw [hparts]
    exact segmentsOf_pathChars hof
  · rw [hsignificant, hchars]
  · exact (hread c (hchars ▸ List.mem_cons_of_mem '/' hc)).2

/-- Segments read anew lead to the same path exactly if reading keeps them. -/
theorem closeDrive_reread {cs : List Char} (h : CleanPath (segmentsOf cs)) :
    closeDrive (pathBytes (pathFrom .file [] cs)) = closeDrive (pathBytes (segmentsOf cs)) ↔
      Steady (segmentsOf cs) := by
  have hne : pathFrom .file [] cs ≠ [] :=
    (clean_pathFrom (fun _ hpart => absurd hpart List.not_mem_nil) _).ne_nil
  constructor
  · intro hread
    -- Either path could be the one behind which a slash is put, but both end in one or neither does.
    have hbytes : pathBytes (pathFrom .file [] cs) = pathBytes (segmentsOf cs) := by
      have hlength := length_pathFrom cs
      rcases closeDrive_eq _ (head?_pathBytes hne) with ⟨hends, hclosed⟩ | ⟨-, hclosed⟩ <;>
        rcases closeDrive_eq _ (head?_pathBytes h.ne_nil) with ⟨-, hclosed'⟩ | ⟨-, hclosed'⟩ <;>
        rw [hclosed, hclosed'] at hread
      · exact List.append_cancel_right hread
      · refine absurd (ends_pathFrom ?_) hends.getLast?
        rw [← hread, List.getLast?_concat]
      · have htotal := congrArg List.length hread
        rw [List.length_append, List.length_singleton] at htotal
        omega
      · exact hread
    have hdots : (segmentsOf cs).any isDots = false := by
      have hlength := length_pathFrom cs
      rw [hbytes] at hlength
      rw [← Bool.toNat_eq_zero]
      omega
    obtain ⟨first, others, hfirst⟩ := List.exists_cons_of_ne_nil h.ne_nil
    have hpath := pathFrom_plain hfirst
      (fun hempty => (List.cons.inj (hfirst.symm.trans (h.alone (by rw [hfirst, hempty]; rfl)))).2) hdots
    refine ⟨fun part hpart => Bool.eq_false_iff.2 (List.any_eq_false.1 hdots part hpart), ?_⟩
    rw [hpath, hfirst] at hbytes
    rw [hfirst]
    rintro part ⟨⟩
    rcases firstFileSegment_cases first with hsame | ⟨letter, hbar, hcolon, -⟩
    · exact hsame
    · have hcons : ∀ part, pathBytes (part :: others) = pathBytes [part] ++ pathBytes others :=
        fun part => pathBytes_append [part] others
      rw [hcons, hcons first, hbar, hcolon] at hbytes
      have hmark := List.append_cancel_right hbytes
      simp at hmark
  · intro hsteady
    rw [pathFrom_steady h.alone hsteady]

/-! ## Paths of local URLs -/

theorem toFilePath?_eq {u : Url} {parts : List String} (hne : parts ≠ [])
    (hpath : u.path = .segments parts) (hhost : u.authority = some {}) :
    u.toFilePath? = some ⟨closeDrive (pathBytes parts)⟩ := by
  obtain ⟨part, rest, rfl⟩ := List.exists_cons_of_ne_nil hne
  unfold toFilePath?
  rw [hpath, hhost]
  rfl

theorem Local.of_toFilePath? {u : Url} {path : FilePath} (h : Local u)
    (hpath : u.toFilePath? = some path) :
    u.authority = some {} ∧ path = ⟨closeDrive (pathBytes u.parts)⟩ := by
  obtain ⟨hparts, hclean⟩ := h.parts
  have hhost : u.authority = some {} := by
    obtain ⟨host, hauthority, hlocal⟩ := h.authority
    unfold toFilePath? at hpath
    rw [hparts, hauthority] at hpath
    split at hpath
    next => cases hpath
    next => cases hpath
    next =>
      split at hpath
      next hempty => rw [hauthority, show host = .empty from hempty]
      next hdomain => exact absurd hdomain hlocal
      next => cases hpath
  rw [toFilePath?_eq hclean.ne_nil hparts hhost] at hpath
  exact ⟨hhost, (Option.some.inj hpath).symm⟩

/-- The path of a local URL with an extension put behind it. -/
theorem parts_setPath {u : Url} (h : Local u) (hfile : u.scheme = "file") (ext : String) :
    ∃ part rest, u.parts = part :: rest ∧ (u.setPath (u.path.text ++ "." ++ ext)).path =
      .segments (pathFrom .file []
        (part.toList ++ pathChars rest ++ '.' :: readable ext.toList)) := by
  obtain ⟨hpath, hclean⟩ := h.parts
  obtain ⟨part, rest, hparts⟩ := List.exists_cons_of_ne_nil hclean.ne_nil
  refine ⟨part, rest, hparts, ?_⟩
  have htext : (u.path.text ++ "." ++ ext).toList = pathChars u.parts ++ '.' :: ext.toList := by
    rw [hpath, String.toList_append, String.toList_append, toList_text, List.append_assoc]
    rfl
  have hdot : ∀ cs, readable ('.' :: cs) = '.' :: readable cs := fun cs => readable_append ['.'] cs
  rw [setPath_path, htext, readable_append, readable_pathChars hclean.clean, hdot, kind_eq_file.2 hfile,
    hparts]
  rfl

theorem toFilePath?_filePath {parts : List String} (hne : parts ≠ []) (tail : List Char) :
    (filePath .empty parts tail).scheme = "file" ∧
      (filePath .empty parts tail).toFilePath? = some ⟨closeDrive (pathBytes parts)⟩ := by
  have htail : ∀ u cs, (withTail .file u cs).authority = u.authority ∧
      (withTail .file u cs).path = u.path := by
    intro u cs
    unfold withTail
    split <;> exact ⟨rfl, rfl⟩
  unfold filePath
  dsimp only
  refine ⟨scheme_withTail _ _ _, toFilePath?_eq hne (htail _ _).2 ?_⟩
  rw [(htail _ _).1, ite_self]
  rfl

end Url

end ModuleLoader
