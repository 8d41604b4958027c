import Mathlib.Data.List.Basic
import ModuleLoader.Base64

/-!
# Base64 in both directions

A text of base64 is a row of symbols in groups of four, the last of which may end in padding, with
zeros in the bits that belong to no byte. Decoding accepts exactly these texts, and each of them is
what encoding makes of its bytes, so every sequence of bytes has one text.

Results:
1. `of_symbols`, `of_lastSymbols`: what is read are symbols and padding behind them.
2. `decode_eq_ok`: which texts are read.
3. `Grouped.encode_bytesOf`, `exists_grouped`: what encoding writes.
4. `decode_iff_encode`: a text stands for some bytes exactly if it is their encoding.
-/

namespace ModuleLoader.Base64

open Text (Bytes inRange)

variable {b : UInt8} {n k offset index earliest : Nat} {ns front back : List Nat}
  {text bytes : Bytes} {firstPad : Option Nat}

/-! ## Symbols -/

theorem symbol?_symbol : ∀ n < 64, symbol? (symbol n) = some n ∧ symbol n ≠ pad := by
  decide +kernel

theorem symbol_of_symbol? (h : symbol? b = some n) : n < 64 ∧ symbol n = b := by
  have hall : ∀ m < 256, ∀ n ∈ symbol? (.ofNat m), n < 64 ∧ symbol n = .ofNat m := by
    decide +kernel
  have hb := hall b.toNat b.toNat_lt n
  rw [UInt8.ofNat_toNat] at hb
  exact hb h

theorem symbols_map (offset : Nat) (hns : ∀ n ∈ ns, n < 64) :
    symbols offset (ns.map symbol) = .ok ns := by
  induction ns generalizing offset with
  | nil => rfl
  | cons n ns ih =>
    have hrest := ih (offset + 1) fun m hm => hns m (List.mem_cons_of_mem n hm)
    rw [List.map_cons, symbols, (symbol?_symbol n (hns n List.mem_cons_self)).1]
    dsimp only
    rw [hrest]
    rfl

theorem of_symbols (h : symbols offset bytes = .ok ns) :
    (∀ n ∈ ns, n < 64) ∧ bytes = ns.map symbol := by
  induction bytes generalizing offset ns with
  | nil =>
    cases h
    exact ⟨List.forall_mem_nil _, rfl⟩
  | cons b rest ih =>
    rw [symbols] at h
    split at h
    next => cases h
    next n hb =>
      obtain ⟨hn, rfl⟩ := symbol_of_symbol? hb
      cases hrest : symbols (offset + 1) rest with
      | error fault => rw [hrest] at h; cases h
      | ok more =>
        rw [hrest] at h
        cases h
        obtain ⟨hmore, rfl⟩ := ih hrest
        exact ⟨List.forall_mem_cons.mpr ⟨hn, hmore⟩, rfl⟩

/-! ### The last block -/

/-- Padding may stand only in the second half of a group of four. -/
def PadsAt (index k : Nat) : Prop := ∀ j < k, 2 ≤ (index + j) % 4

theorem padsAt_succ : PadsAt index (k + 1) ↔ 2 ≤ index % 4 ∧ PadsAt (index + 1) k := by
  refine ⟨fun h => ⟨h 0 (Nat.succ_pos k), fun j hj => ?_⟩, fun h j hj => ?_⟩
  · have hnext := h (j + 1) (Nat.succ_lt_succ hj)
    rwa [← Nat.add_assoc, Nat.add_right_comm] at hnext
  · cases j with
    | zero => exact h.1
    | succ j =>
      have hnext := h.2 j (Nat.lt_of_succ_lt_succ hj)
      rwa [Nat.add_right_comm, Nat.add_assoc] at hnext

theorem lastSymbols_pads (offset earliest : Nat) (h : PadsAt index k) :
    lastSymbols offset index (some earliest) (List.replicate k pad) = .ok ([], some earliest) := by
  induction k generalizing index with
  | zero => rfl
  | succ k ih =>
    obtain ⟨hfirst, hrest⟩ := padsAt_succ.mp h
    rw [List.replicate_succ, lastSymbols, if_pos rfl, if_neg (by omega)]
    exact ih hrest

theorem of_lastSymbols_pads {result : List Nat × Option Nat}
    (h : lastSymbols offset index (some earliest) bytes = .ok result) :
    result = ([], some earliest) ∧ ∃ k, bytes = List.replicate k pad ∧ PadsAt index k := by
  induction bytes generalizing index with
  | nil =>
    cases h
    exact ⟨rfl, 0, rfl, fun j hj => absurd hj (Nat.not_lt_zero j)⟩
  | cons b rest ih =>
    rw [lastSymbols] at h
    split at h
    next hb =>
      split at h
      next => cases h
      next hindex =>
        obtain ⟨hresult, k, rfl, hk⟩ := ih h
        exact ⟨hresult, k + 1, by rw [hb, List.replicate_succ], padsAt_succ.mpr ⟨by omega, hk⟩⟩
    next => cases h

theorem lastSymbols_map (hns : ∀ n ∈ ns, n < 64) (hpads : PadsAt (index + ns.length) k) :
    lastSymbols offset index none (ns.map symbol ++ List.replicate k pad) =
      .ok (ns, if k = 0 then none else some (index + ns.length)) := by
  induction ns generalizing index with
  | nil =>
    cases k with
    | zero => rfl
    | succ k =>
      obtain ⟨hfirst, hrest⟩ : 2 ≤ index % 4 ∧ PadsAt (index + 1) k := padsAt_succ.mp hpads
      have hread := lastSymbols_pads offset index hrest
      rw [List.map_nil, List.nil_append, List.replicate_succ, lastSymbols, if_pos rfl,
        if_neg (Nat.not_lt.mpr hfirst)]
      exact hread
  | cons n ns ih =>
    obtain ⟨hn, hpad⟩ := symbol?_symbol n (hns n List.mem_cons_self)
    have hlength : index + (n :: ns).length = index + 1 + ns.length := by
      rw [List.length_cons]
      omega
    rw [hlength] at hpads ⊢
    have hrest := ih (fun m hm => hns m (List.mem_cons_of_mem n hm)) hpads
    rw [List.map_cons, List.cons_append, lastSymbols, if_neg hpad]
    dsimp only
    rw [hn]
    dsimp only
    rw [hrest]
    rfl

theorem of_lastSymbols (h : lastSymbols offset index none bytes = .ok (ns, firstPad)) :
    (∀ n ∈ ns, n < 64) ∧ ∃ k, bytes = ns.map symbol ++ List.replicate k pad ∧
      PadsAt (index + ns.length) k ∧
      firstPad = if k = 0 then none else some (index + ns.length) := by
  induction bytes generalizing index ns firstPad with
  | nil =>
    cases h
    exact ⟨List.forall_mem_nil _, 0, rfl, fun j hj => absurd hj (Nat.not_lt_zero j), rfl⟩
  | cons b rest ih =>
    rw [lastSymbols] at h
    split at h
    next hb =>
      split at h
      next => cases h
      next hindex =>
        obtain ⟨hresult, k, rfl, hk⟩ := of_lastSymbols_pads h
        cases hresult
        refine ⟨List.forall_mem_nil _, k + 1, ?_, padsAt_succ.mpr ⟨Nat.not_lt.mp hindex, hk⟩, rfl⟩
        rw [hb, List.replicate_succ]
        rfl
    next hb =>
      dsimp only at h
      split at h
      next => cases h
      next n hsymbol =>
        obtain ⟨hn, rfl⟩ := symbol_of_symbol? hsymbol
        cases hrest : lastSymbols offset (index + 1) none rest with
        | error fault => rw [hrest] at h; cases h
        | ok more =>
          rw [hrest] at h
          cases h
          obtain ⟨hmore, k, rfl, hpads, hfirst⟩ := ih hrest
          have hlength : index + (n :: more.1).length = index + 1 + more.1.length := by
            rw [List.length_cons]
            omega
          rw [hlength]
          exact ⟨List.forall_mem_cons.mpr ⟨hn, hmore⟩, k, rfl, hpads, hfirst⟩

/-! ## Texts that are read -/

/-- Symbols and padding that make up groups of four, with zeros in the bits that are left over. -/
structure Grouped (ns : List Nat) (k : Nat) : Prop where
  small : ∀ n ∈ ns, n < 64
  full : (ns.length + k) % 4 = 0
  short : k ≤ 2
  spare : ∀ n ∈ ns.getLast?, spareBits ns.length n = 0

/-- The text of symbols with padding behind them. -/
def spelled (ns : List Nat) (k : Nat) : Bytes := ns.map symbol ++ List.replicate k pad

theorem length_spelled (ns : List Nat) (k : Nat) : (spelled ns k).length = ns.length + k := by
  rw [spelled, List.length_append, List.length_map, List.length_replicate]

theorem spareBits_congr {count other : Nat} (h : count % 4 = other % 4) (last : Nat) :
    spareBits count last = spareBits other last := by
  unfold spareBits
  rw [h]

/-- The last block starts at a full group, and holds all padding. -/
theorem lastBlockStart_bounds (length : Nat) : lastBlockStart length % 4 = 0 ∧
    lastBlockStart length ≤ length ∧ (0 < length → lastBlockStart length < length) ∧
    (length % 4 = 0 → 0 < length → lastBlockStart length + 4 ≤ length) := by
  unfold lastBlockStart
  split <;> omega

/-- How much padding there is, if it starts at a place of the last block. -/
def padding (firstPad : Option Nat) (length : Nat) : Nat :=
  match firstPad with
  | some index => length - index
  | none => 0

/-- What a text is read as before its bytes are put together. -/
structure Reads (text : Bytes) (front back : List Nat) (firstPad : Option Nat) : Prop where
  whole : text.length % 4 ≠ 1
  readFront : symbols 0 (text.take (lastBlockStart text.length)) = .ok front
  readBack : lastSymbols (lastBlockStart text.length) 0 none (text.drop (lastBlockStart text.length)) =
    .ok (back, firstPad)
  enough : ¬(back.length < 2 ∧ text.drop (lastBlockStart text.length) ≠ [])
  full : (padding firstPad (text.drop (lastBlockStart text.length)).length + back.length) % 4 = 0
  spare : ∀ n ∈ back.getLast?, spareBits back.length n = 0

theorem Reads.decode_eq (h : Reads text front back firstPad) :
    decode text = .ok (bytesOf (front ++ back)) := by
  unfold decode
  simp only [bind, Except.bind, throw, throwThe, MonadExceptOf.throw, pure, Except.pure]
  rw [h.readFront, h.readBack]
  dsimp only
  split
  next heq _ => exact absurd heq h.whole
  next =>
    rw [if_neg h.enough]
    change (if (padding firstPad (text.drop (lastBlockStart text.length)).length +
      back.length) % 4 ≠ 0 then Except.error Fault.padding else _) = _
    rw [if_neg (not_ne_iff.mpr h.full)]
    cases hlast : back.getLast? with
    | none => rfl
    | some n =>
      dsimp only
      rw [if_neg (not_ne_iff.mpr (h.spare n hlast))]

theorem Reads.of_decode (h : decode text = .ok bytes) : ∃ front back firstPad,
    Reads text front back firstPad ∧ bytes = bytesOf (front ++ back) := by
  unfold decode at h
  dsimp only at h
  simp only [bind, Except.bind, throw, throwThe, MonadExceptOf.throw, pure, Except.pure] at h
  split at h
  next => split at h <;> cases h
  next hlength =>
    have hcount : text.length % 4 ≠ 1 := by
      intro heq
      cases hlast : text.getLast? with
      | none =>
        rw [List.getLast?_eq_none_iff.mp hlast] at heq
        cases heq
      | some b => exact hlength b heq hlast
    cases hfront : symbols 0 (text.take (lastBlockStart text.length)) with
    | error fault => rw [hfront] at h; cases h
    | ok front =>
      rw [hfront] at h
      dsimp only at h
      cases hback : lastSymbols (lastBlockStart text.length) 0 none
          (text.drop (lastBlockStart text.length)) with
      | error fault => rw [hback] at h; cases h
      | ok back =>
        rw [hback] at h
        dsimp only at h
        split at h
        next => cases h
        next henough =>
          change (if (padding back.2 (text.drop (lastBlockStart text.length)).length +
            back.1.length) % 4 ≠ 0 then Except.error Fault.padding else _) = _ at h
          by_cases hfull : (padding back.2 (text.drop (lastBlockStart text.length)).length +
              back.1.length) % 4 = 0
          · rw [if_neg (not_ne_iff.mpr hfull)] at h
            split at h
            next n hlast =>
              split at h
              next => cases h
              next hspare =>
                cases h
                refine ⟨front, back.1, back.2, ⟨hcount, hfront, hback, henough, hfull, ?_⟩, rfl⟩
                intro m hm
                cases hlast.symm.trans hm
                exact not_not.mp hspare
            next hnone =>
              cases h
              refine ⟨front, back.1, back.2, ⟨hcount, hfront, hback, henough, hfull, ?_⟩, rfl⟩
              intro m hm
              cases hnone.symm.trans hm
          · rw [if_pos hfull] at h
            cases h

theorem Grouped.reads (h : Grouped ns k) : ∃ front back firstPad,
    Reads (spelled ns k) front back firstPad ∧ front ++ back = ns := by
  have hfull := h.full
  have hshort := h.short
  obtain ⟨hstart, hle, -, hlast⟩ := lastBlockStart_bounds (ns.length + k)
  generalize hs : lastBlockStart (ns.length + k) = start at hstart hlast hle
  have hfits : start ≤ ns.length := by omega
  have hfront : (spelled ns k).take start = (ns.take start).map symbol := by
    rw [spelled, List.take_append_of_le_length (by rwa [List.length_map]), List.map_take]
  have hback : (spelled ns k).drop start = spelled (ns.drop start) k := by
    rw [spelled, List.drop_append_of_le_length (by rwa [List.length_map]), spelled, List.map_drop]
  have hpads : PadsAt (0 + (ns.drop start).length) k := by
    intro j hj
    rw [List.length_drop]
    omega
  refine ⟨ns.take start, ns.drop start, if k = 0 then none else some (0 + (ns.drop start).length),
    ⟨?_, ?_, ?_, ?_, ?_, ?_⟩, List.take_append_drop start ns⟩
  · rw [length_spelled]
    omega
  · rw [length_spelled, hs, hfront]
    exact symbols_map 0 fun n hn => h.small n (List.mem_of_mem_take hn)
  · rw [length_spelled, hs, hback]
    exact lastSymbols_map (fun n hn => h.small n (List.mem_of_mem_drop hn)) hpads
  · rintro ⟨hlength, hne⟩
    rw [length_spelled, hs, hback] at hne
    rw [List.length_drop] at hlength
    have hpos := List.length_pos_iff.mpr hne
    rw [length_spelled, List.length_drop] at hpos
    omega
  · rw [length_spelled, hs, hback, length_spelled, List.length_drop]
    unfold padding
    split
    next index hindex =>
      split at hindex
      next => cases hindex
      next =>
        cases hindex
        omega
    next hindex =>
      split at hindex
      next hk => omega
      next => cases hindex
  · intro n hn
    rw [List.getLast?_drop] at hn
    split at hn
    next => cases hn
    next =>
      have hcount : (ns.length - start) % 4 = ns.length % 4 := by omega
      rw [List.length_drop, spareBits_congr hcount]
      exact h.spare n hn

theorem Reads.grouped (h : Reads text front back firstPad) :
    ∃ k, Grouped (front ++ back) k ∧ text = spelled (front ++ back) k := by
  obtain ⟨hstart, hle, hlast, -⟩ := lastBlockStart_bounds text.length
  have hfull := h.full
  have henough := h.enough
  obtain ⟨hfront, htake⟩ := of_symbols h.readFront
  obtain ⟨hback, k, hdrop, hpads, rfl⟩ := of_lastSymbols h.readBack
  generalize lastBlockStart text.length = start at *
  have htext : text = spelled (front ++ back) k := by
    rw [spelled, List.map_append, List.append_assoc, ← htake, ← hdrop, List.take_append_drop]
  have hlength : front.length = start := by
    have := congrArg List.length htake
    rw [List.length_take, List.length_map] at this
    omega
  have hdropped : text.length - start = back.length + k := by
    have := congrArg List.length hdrop
    rwa [List.length_drop, List.length_append, List.length_map, List.length_replicate] at this
  rw [List.length_drop, hdropped] at hfull
  have hgroups : (k + back.length) % 4 = 0 := by
    unfold padding at hfull
    split at hfull
    next index hindex =>
      split at hindex
      next => cases hindex
      next =>
        cases hindex
        omega
    next hindex =>
      split at hindex
      next hk => omega
      next => cases hindex
  refine ⟨k, ⟨?_, ?_, ?_, ?_⟩, htext⟩
  · exact fun n hn => (List.mem_append.mp hn).elim (hfront n) (hback n)
  · rw [List.length_append]
    omega
  · refine Nat.not_lt.mp fun hlong => ?_
    have hpad := hpads (k - 3) (by omega)
    omega
  · intro n hn
    by_cases hnone : back = []
    · subst hnone
      have hempty : text.drop start = [] := not_not.mp fun hne => henough ⟨by decide, hne⟩
      rw [List.drop_eq_nil_iff] at hempty
      have hfrontNil : front = [] := List.length_eq_zero_iff.mp (by omega)
      rw [hfrontNil] at hn
      cases hn
    · rw [List.getLast?_append_of_ne_nil _ hnone] at hn
      have hcount : (front.length + back.length) % 4 = back.length % 4 := by omega
      rw [List.length_append, spareBits_congr hcount]
      exact h.spare n hn

/-- The texts that are read, and the bytes that their symbols spell. -/
theorem decode_eq_ok : decode text = .ok bytes ↔
    ∃ ns k, Grouped ns k ∧ text = spelled ns k ∧ bytes = bytesOf ns := by
  constructor
  · intro h
    obtain ⟨front, back, firstPad, hreads, hbytes⟩ := Reads.of_decode h
    obtain ⟨k, hgrouped, htext⟩ := hreads.grouped
    exact ⟨front ++ back, k, hgrouped, htext, hbytes⟩
  · rintro ⟨ns, k, hgrouped, rfl, rfl⟩
    obtain ⟨front, back, firstPad, hreads, rfl⟩ := hgrouped.reads
    exact hreads.decode_eq

/-! ## What encoding writes -/

theorem getLast?_four {a b c d : Nat} (hns : ns ≠ []) :
    (a :: b :: c :: d :: ns).getLast? = ns.getLast? := by
  obtain ⟨n, ns, rfl⟩ := List.exists_cons_of_ne_nil hns
  rw [List.getLast?_cons_cons, List.getLast?_cons_cons, List.getLast?_cons_cons,
    List.getLast?_cons_cons]

/-- A full group in front changes nothing about those behind it. -/
theorem grouped_four {a b c d : Nat} : Grouped (a :: b :: c :: d :: ns) k ↔
    (a < 64 ∧ b < 64 ∧ c < 64 ∧ d < 64) ∧ Grouped ns k := by
  have hlength : (a :: b :: c :: d :: ns).length = ns.length + 4 := rfl
  have hspare : ∀ n, spareBits (ns.length + 4) n = spareBits ns.length n :=
    spareBits_congr (by omega)
  refine ⟨fun h => ?_, fun h => ?_⟩
  · have hsmall := h.small
    have hfull := h.full
    simp only [List.forall_mem_cons] at hsmall
    rw [hlength] at hfull
    refine ⟨⟨hsmall.1, hsmall.2.1, hsmall.2.2.1, hsmall.2.2.2.1⟩, hsmall.2.2.2.2, by omega,
      h.short, fun n hn => ?_⟩
    have hns : ns ≠ [] := by
      rintro rfl
      cases hn
    have hlast := h.spare n (by rwa [getLast?_four hns])
    rwa [hlength, hspare] at hlast
  · obtain ⟨⟨ha, hb, hc, hd⟩, h⟩ := h
    have hfull := h.full
    refine ⟨?_, by rw [hlength]; omega, h.short, fun n hn => ?_⟩
    · simp only [List.forall_mem_cons]
      exact ⟨ha, hb, hc, hd, h.small⟩
    · rw [hlength, hspare]
      by_cases hns : ns = []
      · rw [hns]
        rfl
      · rw [getLast?_four hns] at hn
        exact h.spare n hn

theorem spelled_four (a b c d : Nat) (ns : List Nat) (k : Nat) :
    spelled (a :: b :: c :: d :: ns) k = symbol a :: symbol b :: symbol c :: symbol d :: spelled ns k :=
  rfl

/-- Encoding writes symbols in groups, which spell the bytes. -/
theorem exists_grouped (bytes : Bytes) :
    ∃ ns k, Grouped ns k ∧ encode bytes = spelled ns k ∧ bytesOf ns = bytes := by
  induction bytes using encode.induct with
  | case1 =>
    exact ⟨[], 0, ⟨List.forall_mem_nil _, rfl, Nat.zero_le _, fun n hn => by cases hn⟩, rfl, rfl⟩
  | case2 a =>
    have ha := a.toNat_lt
    have hbyte : a.toNat / 4 * 4 + a.toNat % 4 * 16 / 16 = a.toNat := by omega
    refine ⟨[a.toNat / 4, a.toNat % 4 * 16], 2,
      ⟨?_, Nat.mod_self 4, Nat.le_refl _, ?_⟩, rfl, ?_⟩
    · simp only [List.forall_mem_cons]
      exact ⟨by omega, by omega, List.forall_mem_nil _⟩
    · rintro n ⟨⟩
      exact Nat.mul_mod_left _ _
    · rw [bytesOf, hbyte, UInt8.ofNat_toNat]
  | case3 a b =>
    have ha := a.toNat_lt
    have hb := b.toNat_lt
    have hfirst : a.toNat / 4 * 4 + (a.toNat % 4 * 16 + b.toNat / 16) / 16 = a.toNat := by omega
    have hsecond : (a.toNat % 4 * 16 + b.toNat / 16) % 16 * 16 + b.toNat % 16 * 4 / 4 = b.toNat := by
      omega
    refine ⟨[a.toNat / 4, a.toNat % 4 * 16 + b.toNat / 16, b.toNat % 16 * 4], 1,
      ⟨?_, Nat.mod_self 4, by decide, ?_⟩, rfl, ?_⟩
    · simp only [List.forall_mem_cons]
      exact ⟨by omega, by omega, by omega, List.forall_mem_nil _⟩
    · rintro n ⟨⟩
      exact Nat.mul_mod_left _ _
    · rw [bytesOf, hfirst, hsecond, UInt8.ofNat_toNat, UInt8.ofNat_toNat]
  | case4 a b c rest ih =>
    have ha := a.toNat_lt
    have hb := b.toNat_lt
    have hc := c.toNat_lt
    have hfirst : a.toNat / 4 * 4 + (a.toNat % 4 * 16 + b.toNat / 16) / 16 = a.toNat := by omega
    have hsecond : (a.toNat % 4 * 16 + b.toNat / 16) % 16 * 16 +
        (b.toNat % 16 * 4 + c.toNat / 64) / 4 = b.toNat := by omega
    have hthird : (b.toNat % 16 * 4 + c.toNat / 64) % 4 * 64 + c.toNat % 64 = c.toNat := by omega
    obtain ⟨ns, k, hgrouped, hrest, hbytes⟩ := ih
    refine ⟨a.toNat / 4 :: (a.toNat % 4 * 16 + b.toNat / 16) ::
      (b.toNat % 16 * 4 + c.toNat / 64) :: c.toNat % 64 :: ns, k,
      grouped_four.mpr ⟨by omega, hgrouped⟩, ?_, ?_⟩
    · rw [encode, hrest, spelled_four]
      rfl
    · rw [bytesOf, hfirst, hsecond, hthird, hbytes, UInt8.ofNat_toNat, UInt8.ofNat_toNat,
        UInt8.ofNat_toNat]

theorem toNat_ofNat (h : n < 256) : (UInt8.ofNat n).toNat = n := by
  rw [UInt8.toNat_ofNat']
  exact Nat.mod_eq_of_lt h

/-- The bytes of grouped symbols are encoded as these symbols. -/
theorem Grouped.encode_bytesOf (h : Grouped ns k) : encode (bytesOf ns) = spelled ns k := by
  induction ns using bytesOf.induct with
  | case1 a b c d rest ih =>
    obtain ⟨⟨ha, hb, hc, hd⟩, hrest⟩ := grouped_four.mp h
    have hfirst : (a * 4 + b / 16) / 4 = a := by omega
    have hsecond : (a * 4 + b / 16) % 4 * 16 + (b % 16 * 16 + c / 4) / 16 = b := by omega
    have hthird : (b % 16 * 16 + c / 4) % 16 * 4 + (c % 4 * 64 + d) / 64 = c := by omega
    have hfourth : (c % 4 * 64 + d) % 64 = d := by omega
    rw [bytesOf, encode, toNat_ofNat (by omega), toNat_ofNat (by omega), toNat_ofNat (by omega),
      hfirst, hsecond, hthird, hfourth, ih hrest, spelled_four]
    rfl
  | case2 a b c =>
    have hsmall := h.small
    have hfull : (3 + k) % 4 = 0 := h.full
    have hshort := h.short
    have hspare : c % 4 = 0 := h.spare c rfl
    simp only [List.forall_mem_cons] at hsmall
    obtain ⟨ha, hb, hc, -⟩ := hsmall
    obtain rfl : k = 1 := by omega
    have hfirst : (a * 4 + b / 16) / 4 = a := by omega
    have hsecond : (a * 4 + b / 16) % 4 * 16 + (b % 16 * 16 + c / 4) / 16 = b := by omega
    have hthird : (b % 16 * 16 + c / 4) % 16 * 4 = c := by omega
    rw [bytesOf, encode, toNat_ofNat (by omega), toNat_ofNat (by omega), hfirst, hsecond, hthird]
    rfl
  | case3 a b =>
    have hsmall := h.small
    have hfull : (2 + k) % 4 = 0 := h.full
    have hshort := h.short
    have hspare : b % 16 = 0 := h.spare b rfl
    simp only [List.forall_mem_cons] at hsmall
    obtain ⟨ha, hb, -⟩ := hsmall
    obtain rfl : k = 2 := by omega
    have hfirst : (a * 4 + b / 16) / 4 = a := by omega
    have hsecond : (a * 4 + b / 16) % 4 * 16 = b := by omega
    rw [bytesOf, encode, toNat_ofNat (by omega), hfirst, hsecond]
    rfl
  | case4 ns hfour hthree htwo =>
    have hfull := h.full
    have hshort := h.short
    match ns with
    | [] =>
      obtain rfl : k = 0 := by simp only [List.length_nil] at hfull; omega
      rfl
    | [a] =>
      simp only [List.length_singleton] at hfull
      omega
    | [a, b] => exact (htwo a b rfl).elim
    | [a, b, c] => exact (hthree a b c rfl).elim
    | a :: b :: c :: d :: rest => exact (hfour a b c d rest rfl).elim

/-- A text stands for some bytes exactly if it is their encoding. -/
theorem decode_iff_encode : decode text = .ok bytes ↔ text = encode bytes := by
  rw [decode_eq_ok]
  constructor
  · rintro ⟨ns, k, hgrouped, rfl, rfl⟩
    exact hgrouped.encode_bytesOf.symm
  · rintro rfl
    obtain ⟨ns, k, hgrouped, htext, hbytes⟩ := exists_grouped bytes
    exact ⟨ns, k, hgrouped, htext, hbytes.symm⟩

end ModuleLoader.Base64
