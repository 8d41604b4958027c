import Mathlib.Data.List.Basic
import ModuleLoader.Proofs.Encoding

/-!
# Bytes that encode a text

Bytes are read chunk by chunk. A first byte says how many continuation bytes belong to it, and the
range of the first of them rules out what has a shorter form, surrogates, and all beyond the last code
point. So a chunk that is a character is the form of that character, and every form is such a chunk.

Results:
1. `firstChunk_utf8`: the form of a character is read as that character.
2. `utf8_of_firstChunk`: bytes that are read as a character are its form.
3. `ofUtf8?_eq_some`: bytes have a text exactly if they are its form.
-/

namespace ModuleLoader.Text

open Url (utf8_append utf8_cons utf8_ascii)

variable {c : Char} {first : UInt8} {rest run bytes : Bytes} {cs : List Char}
  {count low high n v : Nat}

/-! ## The form of a character -/

theorem utf8_two (hlow : 128 ≤ c.toNat) (hhigh : c.toNat < 2048) :
    utf8 [c] = [.ofNat (192 + c.toNat / 64), .ofNat (128 + c.toNat % 64)] := by
  have hval : c.val.toNat = c.toNat := rfl
  simp only [utf8, List.flatMap_cons, List.flatMap_nil, List.append_nil, String.utf8EncodeChar, hval]
  rw [if_neg (by omega), if_pos (by omega), Nat.mod_eq_of_lt (by omega), Nat.add_comm 192,
    Nat.add_comm 128]

theorem utf8_three (hlow : 2048 ≤ c.toNat) (hhigh : c.toNat < 65536) :
    utf8 [c] = [.ofNat (224 + c.toNat / 4096), .ofNat (128 + c.toNat / 64 % 64),
      .ofNat (128 + c.toNat % 64)] := by
  have hval : c.val.toNat = c.toNat := rfl
  simp only [utf8, List.flatMap_cons, List.flatMap_nil, List.append_nil, String.utf8EncodeChar, hval]
  rw [if_neg (by omega), if_neg (by omega), if_pos (by omega), Nat.mod_eq_of_lt (by omega),
    Nat.add_comm 224, Nat.add_comm 128, Nat.add_comm 128]

theorem utf8_four (hlow : 65536 ≤ c.toNat) :
    utf8 [c] = [.ofNat (240 + c.toNat / 262144), .ofNat (128 + c.toNat / 4096 % 64),
      .ofNat (128 + c.toNat / 64 % 64), .ofNat (128 + c.toNat % 64)] := by
  have hval : c.val.toNat = c.toNat := rfl
  have hvalid : c.toNat.isValidChar := c.valid
  have hhigh : c.toNat < 1114112 := by
    unfold Nat.isValidChar at hvalid
    omega
  simp only [utf8, List.flatMap_cons, List.flatMap_nil, List.append_nil, String.utf8EncodeChar, hval]
  rw [if_neg (by omega), if_neg (by omega), if_neg (by omega),
    Nat.mod_eq_of_lt (a := c.toNat / 262144) (by omega), Nat.add_comm 240, Nat.add_comm 128,
    Nat.add_comm 128, Nat.add_comm 128]

/-! ## First bytes -/

theorem continuations?_two : ∀ n < 224, 194 ≤ n →
    continuations? (.ofNat n) = some (1, 128, 191) := by
  decide +kernel

theorem continuations?_three : ∀ n < 240, 224 ≤ n → continuations? (.ofNat n) =
    some (2, if n = 224 then 160 else 128, if n = 237 then 159 else 191) := by
  decide +kernel

theorem continuations?_four : ∀ n < 245, 240 ≤ n → continuations? (.ofNat n) =
    some (3, if n = 240 then 144 else 128, if n = 244 then 143 else 191) := by
  decide +kernel

theorem continuations?_none : ∀ n < 256, n < 194 ∨ 245 ≤ n → continuations? (.ofNat n) = none := by
  decide +kernel

/-! ## Continuation bytes -/

/-- As many bytes as are wanted, if all of them are in range. -/
theorem continuationRun_append (hhead : ∀ b ∈ run.head?, inRange b low high)
    (htail : ∀ b ∈ run.tail, inRange b 128 191) :
    continuationRun run.length low high (run ++ rest) = run := by
  induction run generalizing low high with
  | nil => cases rest <;> rfl
  | cons b run ih =>
    have hnext : ∀ b ∈ run.head?, inRange b 128 191 := fun b hb =>
      htail b (List.mem_of_mem_head? hb)
    rw [List.cons_append, List.length_cons, continuationRun, if_pos (hhead b rfl),
      ih hnext fun b hb => htail b (List.mem_of_mem_tail hb)]

theorem of_continuationRun (count low high : Nat) (rest : Bytes) :
    continuationRun count low high rest <+: rest ∧
      (∀ b ∈ (continuationRun count low high rest).head?, inRange b low high) ∧
      ∀ b ∈ (continuationRun count low high rest).tail, inRange b 128 191 := by
  have hstop : ∀ {bs : Bytes} {low high : Nat}, [] <+: bs ∧
      (∀ b ∈ ([] : Bytes).head?, inRange b low high) ∧
        ∀ b ∈ ([] : Bytes).tail, inRange b 128 191 := by simp
  induction rest generalizing count low high with
  | nil =>
    rw [continuationRun]
    exact hstop
  | cons b rest ih =>
    cases count with
    | zero =>
      rw [continuationRun]
      exact hstop
    | succ count =>
      rw [continuationRun]
      split
      next hb =>
        obtain ⟨hbegins, hhead, htail⟩ := ih count 128 191
        refine ⟨List.cons_prefix_cons.mpr ⟨rfl, hbegins⟩, fun d hd => ?_, fun d hd => ?_⟩
        · cases hd
          exact hb
        · rw [List.tail_cons] at hd
          cases hrun : continuationRun count 128 191 rest with
          | nil => rw [hrun] at hd; cases hd
          | cons first run =>
            rw [hrun] at hd hhead htail
            rcases List.mem_cons.mp hd with rfl | hd
            · exact hhead _ rfl
            · exact htail d hd
      next => exact hstop

theorem chunk_of_run (hfirst : 128 ≤ first.toNat)
    (hcount : continuations? first = some (run.length, low, high))
    (hhead : ∀ b ∈ run.head?, inRange b low high) (htail : ∀ b ∈ run.tail, inRange b 128 191)
    (hpoint : codePoint first run = c.toNat) :
    firstChunk first (run ++ rest) = .char c ∧ chunkTail first (run ++ rest) = run.length := by
  have hascii : ¬ first < 0x80 := by
    rw [UInt8.lt_iff_toNat_lt]
    exact Nat.not_lt.mpr hfirst
  unfold firstChunk chunkTail
  rw [if_neg hascii, hcount]
  dsimp only
  rw [continuationRun_append hhead htail, if_pos rfl, hpoint, Char.ofNat_toNat]
  exact ⟨rfl, rfl⟩

/-! ## Code points -/

theorem toNat_ofNat_add {base m : Nat} (h : base + m < 256) :
    (UInt8.ofNat (base + m)).toNat = base + m := by
  rw [UInt8.toNat_ofNat']
  exact Nat.mod_eq_of_lt h

theorem inRange_ofNat_add {base m : Nat} (h : base + m < 256) :
    inRange (.ofNat (base + m)) low high = true ↔ low ≤ base + m ∧ base + m ≤ high := by
  rw [inRange, toNat_ofNat_add h, Bool.and_eq_true, decide_eq_true_eq, decide_eq_true_eq]

theorem codePoint_two {a b : Nat} (ha : a < 32) (hb : b < 64) :
    codePoint (.ofNat (192 + a)) [.ofNat (128 + b)] = 64 * a + b := by
  simp only [codePoint, List.length_cons, List.length_nil, List.foldl_cons, List.foldl_nil]
  rw [toNat_ofNat_add (by omega), toNat_ofNat_add (by omega)]
  simp only [Nat.pow_eq, Nat.reduceAdd, Nat.reduceSub, Nat.reducePow]
  omega

theorem codePoint_three {a b d : Nat} (ha : a < 16) (hb : b < 64) (hd : d < 64) :
    codePoint (.ofNat (224 + a)) [.ofNat (128 + b), .ofNat (128 + d)] =
      64 * (64 * a + b) + d := by
  simp only [codePoint, List.length_cons, List.length_nil, List.foldl_cons, List.foldl_nil]
  rw [toNat_ofNat_add (by omega), toNat_ofNat_add (by omega), toNat_ofNat_add (by omega)]
  simp only [Nat.pow_eq, Nat.reduceAdd, Nat.reduceSub, Nat.reducePow]
  omega

theorem codePoint_four {a b d e : Nat} (ha : a < 8) (hb : b < 64) (hd : d < 64) (he : e < 64) :
    codePoint (.ofNat (240 + a)) [.ofNat (128 + b), .ofNat (128 + d), .ofNat (128 + e)] =
      64 * (64 * (64 * a + b) + d) + e := by
  simp only [codePoint, List.length_cons, List.length_nil, List.foldl_cons, List.foldl_nil]
  rw [toNat_ofNat_add (by omega), toNat_ofNat_add (by omega), toNat_ofNat_add (by omega),
    toNat_ofNat_add (by omega)]
  simp only [Nat.pow_eq, Nat.reduceAdd, Nat.reduceSub, Nat.reducePow]
  omega

/-! ## Characters are read -/

theorem continuation_inRange (m : Nat) : inRange (.ofNat (128 + m % 64)) 128 191 = true :=
  (inRange_ofNat_add (by omega)).mpr (by omega)

/-- The form of a character is read as that character, whatever follows. -/
theorem firstChunk_utf8 (c : Char) (rest : Bytes) : ∃ first run, utf8 [c] = first :: run ∧
    firstChunk first (run ++ rest) = .char c ∧ chunkTail first (run ++ rest) = run.length := by
  have hvalid : c.toNat.isValidChar := c.valid
  unfold Nat.isValidChar at hvalid
  by_cases hone : c.toNat < 128
  · refine ⟨_, [], utf8_ascii hone, ?_⟩
    have hsmall : (UInt8.ofNat c.toNat).toNat = c.toNat := by
      rw [UInt8.toNat_ofNat']
      omega
    have hascii : UInt8.ofNat c.toNat < 0x80 := by
      rw [UInt8.lt_iff_toNat_lt, hsmall]
      exact hone
    unfold firstChunk chunkTail
    rw [if_pos hascii, hsmall, Char.ofNat_toNat, continuations?_none _ (by omega) (by omega)]
    exact ⟨rfl, rfl⟩
  by_cases htwo : c.toNat < 2048
  · refine ⟨_, _, utf8_two (by omega) htwo, chunk_of_run ?_
      (continuations?_two _ (by omega) (by omega)) ?_ nofun ?_⟩
    · rw [toNat_ofNat_add (by omega)]
      omega
    · rintro _ ⟨⟩
      exact continuation_inRange _
    · rw [codePoint_two (by omega) (by omega)]
      omega
  by_cases hthree : c.toNat < 65536
  · refine ⟨_, _, utf8_three (by omega) hthree, chunk_of_run ?_
      (continuations?_three _ (by omega) (by omega)) ?_ ?_ ?_⟩
    · rw [toNat_ofNat_add (by omega)]
      omega
    · rintro _ ⟨⟩
      rw [inRange_ofNat_add (by omega)]
      split <;> split <;> omega
    · intro b hb
      rw [List.mem_singleton.mp hb]
      exact continuation_inRange _
    · rw [codePoint_three (by omega) (by omega) (by omega)]
      omega
  · refine ⟨_, _, utf8_four (by omega), chunk_of_run ?_
      (continuations?_four _ (by omega) (by omega)) ?_ ?_ ?_⟩
    · rw [toNat_ofNat_add (by omega)]
      omega
    · rintro _ ⟨⟩
      rw [inRange_ofNat_add (by omega)]
      split <;> split <;> omega
    · intro b hb
      rcases List.mem_cons.mp hb with rfl | hb
      · exact continuation_inRange _
      · rw [List.mem_singleton.mp hb]
        exact continuation_inRange _
    · rw [codePoint_four (by omega) (by omega) (by omega) (by omega)]
      omega

/-! ## What is read as a character -/

theorem exists_ofNat_add {b : UInt8} {base : Nat} (h : base ≤ b.toNat) :
    ∃ m, b = .ofNat (base + m) ∧ base + m < 256 :=
  ⟨b.toNat - base, by rw [Nat.add_sub_cancel' h, UInt8.ofNat_toNat],
    by rw [Nat.add_sub_cancel' h]; exact b.toNat_lt⟩

/-- A continuation byte with the range that the byte before it asks for. -/
theorem exists_of_inRange {b : UInt8} (h : inRange b low high = true) (hlow : 128 ≤ low)
    (hhigh : high ≤ 191) : ∃ m, b = .ofNat (128 + m) ∧ low ≤ 128 + m ∧ 128 + m ≤ high ∧ m < 64 := by
  have hb := h
  rw [inRange, Bool.and_eq_true, decide_eq_true_eq, decide_eq_true_eq] at h
  obtain ⟨m, rfl, hm⟩ := exists_ofNat_add (Nat.le_trans hlow h.1)
  rw [inRange_ofNat_add hm] at hb
  exact ⟨m, rfl, hb.1, hb.2, by omega⟩

theorem toNat_ofNat (h : v.isValidChar) : (Char.ofNat v).toNat = v := by
  unfold Char.ofNat
  rw [dif_pos h]
  rfl

theorem utf8_of_two (hlow : 192 ≤ first.toNat) (hhigh : first.toNat < 224)
    (hcount : continuations? first = some (run.length, low, high))
    (hhead : ∀ b ∈ run.head?, inRange b low high) :
    utf8 [Char.ofNat (codePoint first run)] = first :: run := by
  obtain ⟨a, rfl, ha⟩ := exists_ofNat_add hlow
  rw [toNat_ofNat_add ha] at hhigh
  by_cases hsmall : 194 ≤ 192 + a
  · have hrange := (continuations?_two _ hhigh hsmall).symm.trans hcount
    simp only [Option.some.injEq, Prod.mk.injEq] at hrange
    obtain ⟨hlength, rfl, rfl⟩ := hrange
    obtain ⟨b, rfl⟩ := List.length_eq_one_iff.mp hlength.symm
    obtain ⟨m, rfl, -, -, hm⟩ := exists_of_inRange (hhead b rfl) (by decide) (by decide)
    have hpoint := codePoint_two (a := a) (by omega) hm
    have hnat : (Char.ofNat (64 * a + m)).toNat = 64 * a + m := toNat_ofNat (by
      unfold Nat.isValidChar
      omega)
    rw [hpoint, utf8_two (by omega) (by omega), hnat, Nat.mul_add_div (by decide),
      Nat.div_eq_of_lt hm, Nat.mul_add_mod, Nat.mod_eq_of_lt hm, Nat.add_zero]
  · have hstops := continuations?_none (192 + a) ha (by omega)
    cases hstops.symm.trans hcount

theorem utf8_of_three (hlow : 224 ≤ first.toNat) (hhigh : first.toNat < 240)
    (hcount : continuations? first = some (run.length, low, high))
    (hhead : ∀ b ∈ run.head?, inRange b low high) (htail : ∀ b ∈ run.tail, inRange b 128 191) :
    utf8 [Char.ofNat (codePoint first run)] = first :: run := by
  obtain ⟨a, rfl, ha⟩ := exists_ofNat_add hlow
  rw [toNat_ofNat_add ha] at hhigh
  have hrange := (continuations?_three _ hhigh (Nat.le_add_right _ _)).symm.trans hcount
  simp only [Option.some.injEq, Prod.mk.injEq] at hrange
  obtain ⟨hlength, rfl, rfl⟩ := hrange
  obtain ⟨b, d, rfl⟩ := List.length_eq_two.mp hlength.symm
  obtain ⟨m, rfl, hmlow, hmhigh, hm⟩ :=
    exists_of_inRange (hhead b rfl) (by split <;> decide) (by split <;> decide)
  obtain ⟨k, rfl, -, -, hk⟩ :=
    exists_of_inRange (htail d (List.mem_singleton_self d)) (by decide) (by decide)
  have hpoint := codePoint_three (a := a) (by omega) hm hk
  have hshape : 2048 ≤ 64 * (64 * a + m) + k ∧ 64 * (64 * a + m) + k < 65536 ∧
      (64 * (64 * a + m) + k).isValidChar := by
    unfold Nat.isValidChar
    split at hmlow <;> split at hmhigh <;> omega
  have hnat := toNat_ofNat hshape.2.2
  have hfirst : (64 * (64 * a + m) + k) / 4096 = a := by omega
  have hsecond : (64 * (64 * a + m) + k) / 64 % 64 = m := by omega
  have hthird : (64 * (64 * a + m) + k) % 64 = k := by omega
  rw [hpoint, utf8_three (by omega) (by omega), hnat, hfirst, hsecond, hthird]

theorem utf8_of_four (hlow : 240 ≤ first.toNat)
    (hcount : continuations? first = some (run.length, low, high))
    (hhead : ∀ b ∈ run.head?, inRange b low high) (htail : ∀ b ∈ run.tail, inRange b 128 191) :
    utf8 [Char.ofNat (codePoint first run)] = first :: run := by
  obtain ⟨a, rfl, ha⟩ := exists_ofNat_add hlow
  by_cases hhigh : 240 + a < 245
  · have hrange := (continuations?_four _ hhigh (Nat.le_add_right _ _)).symm.trans hcount
    simp only [Option.some.injEq, Prod.mk.injEq] at hrange
    obtain ⟨hlength, rfl, rfl⟩ := hrange
    obtain ⟨b, d, e, rfl⟩ := List.length_eq_three.mp hlength.symm
    obtain ⟨m, rfl, hmlow, hmhigh, hm⟩ :=
      exists_of_inRange (hhead b rfl) (by split <;> decide) (by split <;> decide)
    obtain ⟨k, rfl, -, -, hk⟩ :=
      exists_of_inRange (htail d List.mem_cons_self) (by decide) (by decide)
    obtain ⟨j, rfl, -, -, hj⟩ :=
      exists_of_inRange (htail e (List.mem_cons_of_mem _ List.mem_cons_self)) (by decide) (by decide)
    have hpoint := codePoint_four (a := a) (by omega) hm hk hj
    have hshape : 65536 ≤ 64 * (64 * (64 * a + m) + k) + j ∧
        (64 * (64 * (64 * a + m) + k) + j).isValidChar := by
      unfold Nat.isValidChar
      split at hmlow <;> split at hmhigh <;> omega
    have hnat := toNat_ofNat hshape.2
    have hfirst : (64 * (64 * (64 * a + m) + k) + j) / 262144 = a := by omega
    have hsecond : (64 * (64 * (64 * a + m) + k) + j) / 4096 % 64 = m := by omega
    have hthird : (64 * (64 * (64 * a + m) + k) + j) / 64 % 64 = k := by omega
    have hfourth : (64 * (64 * (64 * a + m) + k) + j) % 64 = j := by omega
    rw [hpoint, utf8_four (by omega), hnat, hfirst, hsecond, hthird, hfourth]
  · have hstops := continuations?_none (240 + a) ha (by omega)
    cases hstops.symm.trans hcount

/-- Bytes that are read as a character are the form of that character. -/
theorem utf8_of_firstChunk (h : firstChunk first rest = .char c) :
    utf8 [c] = first :: rest.take (chunkTail first rest) := by
  have hlt := first.toNat_lt
  unfold firstChunk at h
  unfold chunkTail
  split at h
  next hascii =>
    cases h
    have hsmall : first.toNat < 128 := UInt8.lt_iff_toNat_lt.mp hascii
    have hstops := continuations?_none first.toNat hlt (by omega)
    have hnat : (Char.ofNat first.toNat).toNat = first.toNat := toNat_ofNat (by
      unfold Nat.isValidChar
      omega)
    rw [UInt8.ofNat_toNat] at hstops
    rw [hstops, utf8_ascii (by omega), hnat, UInt8.ofNat_toNat]
    rfl
  next hascii =>
    have hlarge : 128 ≤ first.toNat := Nat.not_lt.mp fun hlt => hascii (UInt8.lt_iff_toNat_lt.mpr hlt)
    split at h
    next => cases h
    next count low high hcount =>
      dsimp only at h
      split at h
      next hlength =>
        obtain ⟨hbegins, hhead, htail⟩ := of_continuationRun count low high rest
        cases h
        rw [← List.prefix_iff_eq_take.mp hbegins]
        rw [← hlength] at hcount
        by_cases hnone : first.toNat < 192
        · have hstops := continuations?_none first.toNat hlt (by omega)
          rw [UInt8.ofNat_toNat] at hstops
          cases hstops.symm.trans hcount
        by_cases htwo : first.toNat < 224
        · exact utf8_of_two (by omega) htwo hcount hhead
        by_cases hthree : first.toNat < 240
        · exact utf8_of_three (by omega) hthree hcount hhead htail
        · exact utf8_of_four (by omega) hcount hhead htail
      next => cases h

/-! ## Texts -/

theorem chunks_utf8 (cs : List Char) : chunks (utf8 cs) = cs.map .char := by
  induction cs with
  | nil =>
    unfold utf8
    rw [List.flatMap_nil, chunks]
    rfl
  | cons c cs ih =>
    obtain ⟨first, run, hbytes, hchunk, htail⟩ := firstChunk_utf8 c (utf8 cs)
    rw [utf8_cons, hbytes, List.cons_append, chunks, hchunk, htail, List.drop_left, ih]
    rfl

theorem utf8_of_chunks (h : (chunks bytes).mapM Chunk.char? = some cs) : utf8 cs = bytes := by
  induction bytes using chunks.induct generalizing cs with
  | case1 =>
    rw [chunks, List.mapM_nil] at h
    cases h
    rfl
  | case2 first rest ih =>
    rw [chunks, List.mapM_cons] at h
    obtain ⟨c, hc, h⟩ := Option.bind_eq_some_iff.1 h
    obtain ⟨ds, hds, h⟩ := Option.bind_eq_some_iff.1 h
    cases h
    have hchunk : firstChunk first rest = .char c := by
      cases hfirst : firstChunk first rest with
      | char d => rw [hfirst] at hc; cases hc; rfl
      | broken bs => rw [hfirst] at hc; cases hc
    rw [utf8_cons, utf8_of_firstChunk hchunk, ih hds, List.cons_append, List.take_append_drop]

/-- Bytes have a text exactly if they are its form. -/
theorem ofUtf8?_eq_some {text : String} : ofUtf8? bytes = some text ↔ utf8Bytes text = bytes := by
  unfold ofUtf8? utf8Bytes
  refine ⟨fun h => ?_, ?_⟩
  · obtain ⟨cs, hcs, rfl⟩ := Option.map_eq_some_iff.1 h
    rw [String.toList_ofList, utf8_of_chunks hcs]
  · rintro rfl
    have hall : ∀ ds : List Char, (ds.map Chunk.char).mapM Chunk.char? = some ds := by
      intro ds
      induction ds with
      | nil => rfl
      | cons d ds ih =>
        rw [List.map_cons, List.mapM_cons, ih]
        rfl
    rw [chunks_utf8, hall, Option.map_some, String.ofList_toList]

theorem ofUtf8?_utf8 (cs : List Char) : ofUtf8? (utf8 cs) = some (String.ofList cs) :=
  ofUtf8?_eq_some.mpr (by rw [utf8Bytes, String.toList_ofList])

end ModuleLoader.Text
