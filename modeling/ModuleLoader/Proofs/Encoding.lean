import ModuleLoader.Url.Parse

/-!
# Percent encoding

Decoding undoes every encoding of characters that neither start an escape nor can stand in one,
and it works piece by piece as long as no escape reaches from one piece into the next.

Results:
1. `decode_append`: bytes are decoded part by part, if the second part does not start with a
   hexadecimal digit.
2. `length_decode_le`, `length_le_decode`: decoding makes bytes shorter, to a third at most, and
   `decode_eq_self` says when it does nothing.
3. `decode_encode`: a text that is encoded decodes to what it decodes to itself.
-/

namespace ModuleLoader.Url

open Text (Bytes utf8 utf8Bytes hexUpper)

/-! ## Bytes of texts -/

theorem utf8_append (cs ds : List Char) : utf8 (cs ++ ds) = utf8 cs ++ utf8 ds :=
  List.flatMap_append

theorem utf8_cons (c : Char) (cs : List Char) : utf8 (c :: cs) = utf8 [c] ++ utf8 cs :=
  utf8_append [c] cs

theorem utf8_ascii {c : Char} (h : c.toNat < 128) : utf8 [c] = [UInt8.ofNat c.toNat] := by
  have hc : c.val.toNat ≤ 127 := Nat.le_of_lt_succ h
  simp only [utf8, List.flatMap_cons, List.flatMap_nil, List.append_nil, String.utf8EncodeChar]
  rw [if_pos hc]
  rfl

/-- The bytes of a character outside ASCII are outside ASCII too. -/
theorem ge_of_mem_utf8 {c : Char} {b : UInt8} (hc : 128 ≤ c.toNat) (hb : b ∈ utf8 [c]) :
    128 ≤ b.toNat := by
  have hc' : ¬ c.val.toNat ≤ 127 := by
    have : c.val.toNat = c.toNat := rfl
    omega
  simp only [utf8, List.flatMap_cons, List.flatMap_nil, List.append_nil, String.utf8EncodeChar,
    if_neg hc'] at hb
  split at hb
  · simp only [List.mem_cons, List.not_mem_nil, or_false] at hb
    rcases hb with rfl | rfl <;> simp only [UInt8.toNat_ofNat'] <;> omega
  split at hb
  · simp only [List.mem_cons, List.not_mem_nil, or_false] at hb
    rcases hb with rfl | rfl | rfl <;> simp only [UInt8.toNat_ofNat'] <;> omega
  · simp only [List.mem_cons, List.not_mem_nil, or_false] at hb
    rcases hb with rfl | rfl | rfl | rfl <;> simp only [UInt8.toNat_ofNat'] <;> omega

theorem utf8_ne_nil (c : Char) : utf8 [c] ≠ [] := by
  simp [utf8, String.utf8EncodeChar_ne_nil]

/-! ## Decoding piece by piece -/

theorem decode_of_ne {b : UInt8} (h : b ≠ 37) (bs : Bytes) : decode (b :: bs) = b :: decode bs := by
  rw [decode.eq_def]
  exact if_neg h

theorem decode_escape {high low : UInt8} {h l : Nat} (hh : hexDigit? high = some h)
    (hl : hexDigit? low = some l) (bs : Bytes) :
    decode (37 :: high :: low :: bs) = UInt8.ofNat (16 * h + l) :: decode bs := by
  rw [decode, if_pos rfl]
  simp only [hh, hl]

/-- A percent sign that starts no escape. -/
theorem decode_percent {bs : Bytes} (h : ∀ high low rest, bs = high :: low :: rest →
    hexDigit? high = none ∨ hexDigit? low = none) : decode (37 :: bs) = 37 :: decode bs := by
  rw [decode.eq_def]
  simp only [if_true]
  split
  next high low rest =>
    split
    next hh hl => rcases h high low rest rfl with hnone | hnone <;> simp_all
    next => rfl
  next => rfl

/-- Decoding starts with an escape, or goes on behind the first byte. -/
theorem decode_induction {P : Bytes → Prop} (bs : Bytes) (nil : P [])
    (escape : ∀ high low h l rest, hexDigit? high = some h → hexDigit? low = some l →
      P rest → P (37 :: high :: low :: rest))
    (percent : ∀ rest, (∀ high low rest', rest = high :: low :: rest' →
      hexDigit? high = none ∨ hexDigit? low = none) → P rest → P (37 :: rest))
    (other : ∀ b rest, b ≠ 37 → P rest → P (b :: rest)) : P bs := by
  induction bs using decode.induct with
  | case1 => exact nil
  | case2 high low rest h l hl hh ih => exact escape high low h l rest hh hl ih
  | case3 high low rest h ih =>
    refine percent _ (fun high' low' rest' heq => ?_) ih
    cases heq
    cases hh : hexDigit? high with
    | none => exact .inl rfl
    | some a =>
      cases hl : hexDigit? low with
      | none => exact .inr rfl
      | some b => exact (h a b hh hl).elim
  | case4 bs h ih => exact percent _ (fun high low rest heq => (h high low rest heq).elim) ih
  | case5 b bs h ih => exact other b bs h ih

/-- No escape reaches into bytes that start with no hexadecimal digit. -/
theorem decode_append (bs : Bytes) {cs : Bytes} (h : ∀ c ∈ cs.head?, hexDigit? c = none) :
    decode (bs ++ cs) = decode bs ++ decode cs := by
  induction bs using decode_induction with
  | nil => simp [decode]
  | escape high low hd ld rest hh hl ih =>
    simp only [List.cons_append]
    rw [decode_escape hh hl, decode_escape hh hl, ih, List.cons_append]
  | percent rest hrest ih =>
    rw [decode_percent hrest, List.cons_append, List.cons_append, ← ih]
    refine decode_percent fun high low rest' heq => ?_
    cases rest with
    | nil =>
      rw [List.nil_append] at heq
      exact .inl (h high (by simp [heq]))
    | cons a rest =>
      cases rest with
      | nil =>
        cases heq
        exact .inr (h low rfl)
      | cons b rest =>
        cases heq
        exact hrest high low rest rfl
  | other b rest hb ih =>
    rw [decode_of_ne hb, List.cons_append, List.cons_append, decode_of_ne hb, ih]

theorem decode_append_cons (bs : Bytes) {b : UInt8} (hb : b ≠ 37) (hdigit : hexDigit? b = none)
    (cs : Bytes) : decode (bs ++ b :: cs) = decode bs ++ b :: decode cs := by
  rw [decode_append bs (by simpa using hdigit), decode_of_ne hb]

/-- Bytes without a percent sign stay. -/
theorem decode_append_of_not_mem {front : Bytes} (h : (37 : UInt8) ∉ front) (bs : Bytes) :
    decode (front ++ bs) = front ++ decode bs := by
  induction front with
  | nil => rfl
  | cons b front ih =>
    rw [List.mem_cons, not_or] at h
    rw [List.cons_append, decode_of_ne (Ne.symm h.1), ih h.2, List.cons_append]

/-! ## How long decoded bytes are -/

theorem length_decode_le (bs : Bytes) : (decode bs).length ≤ bs.length := by
  induction bs using decode_induction with
  | nil => simp [decode]
  | escape high low h l rest hh hl ih =>
    rw [decode_escape hh hl]
    simp only [List.length_cons]
    omega
  | percent rest hrest ih => simpa [decode_percent hrest] using ih
  | other b rest hb ih => simpa [decode_of_ne hb] using ih

theorem length_le_decode (bs : Bytes) : bs.length ≤ 3 * (decode bs).length := by
  induction bs using decode_induction with
  | nil => simp
  | escape high low h l rest hh hl ih =>
    rw [decode_escape hh hl]
    simp only [List.length_cons]
    omega
  | percent rest hrest ih =>
    rw [decode_percent hrest]
    simp only [List.length_cons]
    omega
  | other b rest hb ih =>
    rw [decode_of_ne hb]
    simp only [List.length_cons]
    omega

/-- Decoding that does not make bytes shorter does nothing. -/
theorem decode_eq_self {bs : Bytes} (h : bs.length ≤ (decode bs).length) : decode bs = bs := by
  induction bs using decode_induction with
  | nil => simp [decode]
  | escape high low hd l rest hh hl ih =>
    rw [decode_escape hh hl] at h
    have hle := length_decode_le rest
    simp only [List.length_cons] at h
    omega
  | percent rest hrest ih =>
    rw [decode_percent hrest] at h ⊢
    rw [ih (by simpa using h)]
  | other b rest hb ih =>
    rw [decode_of_ne hb] at h ⊢
    rw [ih (by simpa using h)]

/-! ## Encoded texts -/

/-- The digits of an escape are those of the byte. -/
theorem hexUpper_digits : ∀ n < 16,
    let digit := if n < 10 then Char.ofNat (48 + n) else Char.ofNat (55 + n)
    digit.toNat < 128 ∧ hexDigit? (UInt8.ofNat digit.toNat) = some n := by
  decide

theorem exists_encodeByte (b : UInt8) : ∃ high low, utf8 (encodeByte b) = [37, high, low] ∧
    hexDigit? high = some (b.toNat / 16) ∧ hexDigit? low = some (b.toNat % 16) := by
  have hb := b.toNat_lt
  obtain ⟨hhigh, hhighDigit⟩ := hexUpper_digits (b.toNat / 16) (by omega)
  obtain ⟨hlow, hlowDigit⟩ := hexUpper_digits (b.toNat % 16) (by omega)
  refine ⟨_, _, ?_, hhighDigit, hlowDigit⟩
  simp only [encodeByte, hexUpper]
  rw [utf8_cons, utf8_cons (ite _ _ _), utf8_ascii hhigh, utf8_ascii hlow]
  rfl

theorem decode_encodeByte (b : UInt8) (bs : Bytes) :
    decode (utf8 (encodeByte b) ++ bs) = b :: decode bs := by
  obtain ⟨high, low, hbytes, hhigh, hlow⟩ := exists_encodeByte b
  rw [hbytes]
  simp only [List.cons_append, List.nil_append]
  rw [decode_escape hhigh hlow, Nat.div_add_mod, UInt8.ofNat_toNat]

theorem decode_encodeBytes (front bs : Bytes) :
    decode (utf8 (front.flatMap encodeByte) ++ bs) = front ++ decode bs := by
  induction front with
  | nil => rfl
  | cons b front ih =>
    rw [List.flatMap_cons, utf8_append, List.append_assoc, decode_encodeByte, ih, List.cons_append]

/-- The characters of which escapes consist. -/
def escapeChars : List Char :=
  ['%', '0', '1', '2', '3', '4', '5', '6', '7', '8', '9', 'A', 'B', 'C', 'D', 'E', 'F',
    'a', 'b', 'c', 'd', 'e', 'f']

/-- A set of characters that play no part in escapes. -/
def EncodeSet.Plain (set : EncodeSet) : Prop := ∀ c ∈ escapeChars, set c = false

theorem forall_eq_false {p : Char → Bool} {cs : List Char} (h : cs.any p = false) :
    ∀ c ∈ cs, p c = false :=
  fun c hc => Bool.eq_false_iff.2 (List.any_eq_false.1 h c hc)

theorem plain_pathSet : pathSet.Plain := forall_eq_false (by decide)

theorem byte_of_not_mem : ∀ n < 128, Char.ofNat n ∉ escapeChars →
    UInt8.ofNat n ≠ 37 ∧ hexDigit? (UInt8.ofNat n) = none := by
  decide

theorem hexDigit?_of_ge {b : UInt8} (h : 128 ≤ b.toNat) : hexDigit? b = none := by
  simp only [hexDigit?, Text.inRange, Bool.and_eq_true, decide_eq_true_eq]
  rw [if_neg (by omega), if_neg (by omega), if_neg (by omega)]

variable {set : EncodeSet}

/-- The bytes of a character of such a set start no escape and stand in none. -/
theorem EncodeSet.Plain.byte {c : Char} {b : UInt8} (h : set.Plain) (hc : set c = true)
    (hb : b ∈ utf8 [c]) : b ≠ 37 ∧ hexDigit? b = none := by
  by_cases hascii : c.toNat < 128
  · rw [utf8_ascii hascii, List.mem_singleton] at hb
    subst hb
    refine byte_of_not_mem c.toNat hascii fun hmem => ?_
    rw [Char.ofNat_toNat] at hmem
    rw [h c hmem] at hc
    cases hc
  · have hge := ge_of_mem_utf8 (Nat.le_of_not_lt hascii) hb
    refine ⟨?_, hexDigit?_of_ge hge⟩
    rintro rfl
    exact absurd hge (by decide)

/-- Encoding is undone by decoding, also behind the start of an escape. -/
theorem decode_append_encode (h : set.Plain) (front : Bytes) (cs : List Char) :
    decode (front ++ utf8 (encode set cs)) = decode (front ++ utf8 cs) := by
  induction cs generalizing front with
  | nil => rfl
  | cons c cs ih =>
    rw [encode, List.flatMap_cons, ← encode, utf8_append, utf8_cons c cs]
    cases hc : set c with
    | false =>
      rw [encodeChar, if_neg (by simp [hc]), ← List.append_assoc, ← List.append_assoc]
      exact ih (front ++ utf8 [c])
    | true =>
      -- Neither the escapes nor the bytes that they stand for can end what `front` may have begun.
      have hrest : decode (utf8 (encode set cs)) = decode (utf8 cs) := ih []
      have hbyte : ∀ b ∈ utf8 [c], b ≠ 37 ∧ hexDigit? b = none := fun b => h.byte hc
      obtain ⟨b, bs, hbs⟩ := List.exists_cons_of_ne_nil (utf8_ne_nil c)
      rw [encodeChar, if_pos hc, hbs]
      rw [hbs] at hbyte
      have hpercent : (37 : UInt8) ∉ b :: bs := fun hmem => (hbyte 37 hmem).1 rfl
      obtain ⟨high, low, hescape, -⟩ := exists_encodeByte b
      have hescapes : decode (front ++ (utf8 ((b :: bs).flatMap encodeByte) ++ utf8 (encode set cs))) =
          decode front ++ ((b :: bs) ++ decode (utf8 cs)) := by
        rw [decode_append, decode_encodeBytes, hrest]
        rw [List.flatMap_cons, utf8_append, hescape]
        simp only [List.cons_append, List.head?_cons, Option.mem_def, Option.some.injEq]
        rintro _ rfl
        rfl
      rw [hescapes, decode_append, decode_append_of_not_mem hpercent]
      simpa using (hbyte b List.mem_cons_self).2

theorem decode_encode (h : set.Plain) (cs : List Char) :
    decode (utf8 (encode set cs)) = decode (utf8 cs) :=
  decode_append_encode h [] cs

/-- A text that holds none of the characters stays. -/
theorem encode_of_forall {cs : List Char} (h : ∀ c ∈ cs, set c = false) : encode set cs = cs := by
  induction cs with
  | nil => rfl
  | cons c cs ih =>
    rw [encode, List.flatMap_cons, ← encode, ih fun d hd => h d (List.mem_cons_of_mem c hd)]
    rw [encodeChar, h c List.mem_cons_self]
    rfl

theorem encode_ne_nil {cs : List Char} (h : cs ≠ []) : encode set cs ≠ [] := by
  obtain ⟨c, cs, rfl⟩ := List.exists_cons_of_ne_nil h
  obtain ⟨b, bs, hbs⟩ := List.exists_cons_of_ne_nil (utf8_ne_nil c)
  rw [encode, List.flatMap_cons, encodeChar, hbs]
  split <;> simp [encodeByte]

theorem mem_escapeChars_of_mem_hexUpper {b : UInt8} {c : Char} (h : c ∈ hexUpper b) :
    c ∈ escapeChars := by
  have hdigits : ∀ n < 16,
      (if n < 10 then Char.ofNat (48 + n) else Char.ofNat (55 + n)) ∈ escapeChars := by decide
  have hb := b.toNat_lt
  simp only [hexUpper, List.mem_cons, List.not_mem_nil, or_false] at h
  rcases h with rfl | rfl
  · exact hdigits _ (by omega)
  · exact hdigits _ (by omega)

theorem mem_escapeChars_of_mem_encodeBytes {bs : Bytes} {c : Char}
    (h : c ∈ bs.flatMap encodeByte) : c ∈ escapeChars := by
  obtain ⟨b, -, hc⟩ := List.mem_flatMap.1 h
  rcases List.mem_cons.1 hc with rfl | hc
  · decide
  · exact mem_escapeChars_of_mem_hexUpper hc

/-- An encoded text holds escapes and the characters that are not encoded. -/
theorem mem_encode {c : Char} {cs : List Char} (h : c ∈ encode set cs) :
    c ∈ escapeChars ∨ c ∈ cs ∧ set c = false := by
  obtain ⟨d, hd, hc⟩ := List.mem_flatMap.1 h
  unfold encodeChar at hc
  split at hc
  next => exact .inl (mem_escapeChars_of_mem_encodeBytes hc)
  next hset =>
    obtain rfl := List.mem_singleton.1 hc
    exact .inr ⟨hd, by simpa using hset⟩

theorem encode_append (cs ds : List Char) : encode set (cs ++ ds) = encode set cs ++ encode set ds :=
  List.flatMap_append

/-- What is encoded already is not encoded again. -/
theorem encode_encode {more : EncodeSet} (hmore : more.Plain) (h : ∀ c, set c = true → more c = true)
    (cs : List Char) : encode more (encode set cs) = encode more cs := by
  induction cs with
  | nil => rfl
  | cons c cs ih =>
    have hcons : encode set (c :: cs) = encodeChar set c ++ encode set cs := rfl
    have hcons' : encode more (c :: cs) = encodeChar more c ++ encode more cs := rfl
    rw [hcons, hcons', encode_append, ih]
    congr 1
    cases hc : set c with
    | false => simp [encodeChar, hc, encode]
    | true =>
      rw [encodeChar, if_pos hc, encodeChar, if_pos (h c hc)]
      exact encode_of_forall fun d hd => hmore d (mem_escapeChars_of_mem_encodeBytes hd)

end ModuleLoader.Url
