import ModuleLoader.Proofs.Encoding
import ModuleLoader.Proofs.Lexemes

/-!
# A text as a row of lexemes

A source text is read from its front, one longest lexeme after another. Blanks and comments leave
nothing behind, every other lexeme leaves a token with its place, and the reading ends at the first
place where no lexeme starts.

Results:
1. `advanceAll_behind`: a position that is carried along counts what has been read.
2. `scans_tokensBehind`, `Scans.eq_tokensBehind`: the tokens of a text are what the reading leaves.
3. `Scans.laidOut`: the tokens and what stands between them make up the text.
4. `Scans.stray_at`: where the reading ends early.
5. `longest_match`: all of it for the tokens of a source text.
-/

namespace ModuleLoader.Script

open Text (utf8)

/-! ## Places -/

/-- The position of what stands behind a text: newlines end lines, and columns count characters. -/
def behind (before : List Char) : Position :=
  ⟨1 + before.count '\n', 1 + (before.reverse.takeWhile (· ≠ '\n')).length⟩

/-- The place of a piece of text that stands behind another. -/
def spanOf (before chars : List Char) : Span :=
  ⟨(utf8 before).length, (utf8 (before ++ chars)).length, behind before⟩

variable {before chars cs : List Char} {r : Except Stray (List Placed)} {ts : List Placed}
  {t : Token} {s : Stray}

theorem advance_behind (before : List Char) (c : Char) :
    (behind before).advance c = behind (before ++ [c]) := by
  unfold Position.advance behind
  rw [List.count_append, List.reverse_append, List.reverse_singleton, List.singleton_append,
    List.takeWhile_cons]
  by_cases hline : c = '\n'
  · subst hline
    rfl
  · have hcount : [c].count '\n' = 0 := List.count_eq_zero_of_not_mem fun hin =>
      hline (List.mem_singleton.mp hin).symm
    rw [if_neg hline, if_pos (decide_eq_true hline), hcount]
    rfl

theorem advanceAll_behind (before chars : List Char) :
    (behind before).advanceAll chars = behind (before ++ chars) := by
  induction chars generalizing before with
  | nil => rw [List.append_nil]; rfl
  | cons c chars ih =>
    show ((behind before).advance c).advanceAll chars = _
    rw [advance_behind, ih, List.append_assoc, List.singleton_append]

/-- Every character that has been read counts for the line or for the column. -/
theorem behind_le (before : List Char) : (behind before).line ≤ before.length + 1 ∧
    (behind before).column ≤ before.length + 1 := by
  have hlines : before.count '\n' ≤ before.length := List.count_le_length
  have hcolumn := (List.takeWhile_sublist (l := before.reverse) (· ≠ '\n')).length_le
  rw [List.length_reverse] at hcolumn
  rw [Nat.add_comm before.length 1]
  exact ⟨Nat.add_le_add_left hlines 1, Nat.add_le_add_left hcolumn 1⟩

/-- Behind a part of a text the counts are bounded by the length of the text. -/
theorem behind_le_length {c : Char} {after : List Char} (h : cs = before ++ c :: after) :
    (behind before).line ≤ cs.length ∧ (behind before).column ≤ cs.length := by
  have hlength : before.length + 1 ≤ cs.length := by
    rw [h, List.length_append, List.length_cons]
    omega
  exact ⟨(behind_le before).1.trans hlength, (behind_le before).2.trans hlength⟩

theorem byteLength_eq (cs : List Char) : Text.byteLength cs = (utf8 cs).length := by
  induction cs with
  | nil => rfl
  | cons c cs ih =>
    have hcons : utf8 (c :: cs) = String.utf8EncodeChar c ++ utf8 cs := rfl
    rw [Text.byteLength, ih, hcons, List.length_append, String.length_utf8EncodeChar]

theorem length_utf8_append (before chars : List Char) :
    (utf8 (before ++ chars)).length = (utf8 before).length + (utf8 chars).length := by
  rw [Url.utf8_append, List.length_append]

/-- The bytes between the two ends of a place are those of the text that stands there. -/
theorem bytes_between (before chars after : List Char) :
    ((utf8 (before ++ chars ++ after)).take (spanOf before chars).last).drop
      (spanOf before chars).first = utf8 chars := by
  rw [Url.utf8_append, spanOf]
  dsimp only
  rw [List.take_left, Url.utf8_append, List.drop_left]

/-! ## Reading from the front -/

/-- What the reading of a text leaves, where other text stands before it. -/
inductive Scans : List Char → List Char → Except Stray (List Placed) → Prop
  | ended {before : List Char} : Scans before [] (.ok [])
  | skip {before chars after : List Char} {r : Except Stray (List Placed)} :
      Longest (chars ++ after) (.skipped chars) → Scans (before ++ chars) after r →
      Scans before (chars ++ after) r
  | token {before chars after : List Char} {t : Token} {r : Except Stray (List Placed)} :
      Longest (chars ++ after) (.token t chars) → Scans (before ++ chars) after r →
      Scans before (chars ++ after) (r.map (⟨t, spanOf before chars⟩ :: ·))
  | stray {before after : List Char} {c : Char} :
      (∀ l, IsLexeme l → ¬ l.chars <+: c :: after) →
      Scans before (c :: after) (.error ⟨behind before, c⟩)

theorem tokensFrom_none {c : Char} (h : lexeme? (c :: cs) = none) (offset : Nat)
    (position : Position) : tokensFrom (c :: cs) offset position = .error ⟨position, c⟩ := by
  rw [tokensFrom]
  split
  next => rfl
  next l hl => cases h.symm.trans hl

theorem tokensFrom_skipped (h : lexeme? cs = some (.skipped chars)) (offset : Nat)
    (position : Position) : tokensFrom cs offset position =
      tokensFrom (cs.drop chars.length) (offset + Text.byteLength chars)
        (position.advanceAll chars) := by
  cases cs with
  | nil => cases h
  | cons c cs =>
    rw [tokensFrom]
    split
    next hnone => cases hnone.symm.trans h
    next l hl =>
      cases hl.symm.trans h
      rfl

theorem tokensFrom_token (h : lexeme? cs = some (.token t chars)) (offset : Nat)
    (position : Position) : tokensFrom cs offset position =
      (tokensFrom (cs.drop chars.length) (offset + Text.byteLength chars)
        (position.advanceAll chars)).map
          (⟨t, ⟨offset, offset + Text.byteLength chars, position⟩⟩ :: ·) := by
  cases cs with
  | nil => cases h
  | cons c cs =>
    rw [tokensFrom]
    split
    next hnone => cases hnone.symm.trans h
    next l hl =>
      cases hl.symm.trans h
      rfl

/-- The tokens of a text that stands behind another. -/
def tokensBehind (before cs : List Char) : Except Stray (List Placed) :=
  tokensFrom cs (utf8 before).length (behind before)

theorem tokensBehind_skipped {after : List Char} (h : Longest (chars ++ after) (.skipped chars)) :
    tokensBehind before (chars ++ after) = tokensBehind (before ++ chars) after := by
  unfold tokensBehind
  rw [tokensFrom_skipped (lexeme?_eq_some.mpr h), List.drop_left, byteLength_eq, advanceAll_behind,
    length_utf8_append]

theorem tokensBehind_token {after : List Char} (h : Longest (chars ++ after) (.token t chars)) :
    tokensBehind before (chars ++ after) =
      (tokensBehind (before ++ chars) after).map (⟨t, spanOf before chars⟩ :: ·) := by
  unfold tokensBehind spanOf
  rw [tokensFrom_token (lexeme?_eq_some.mpr h), List.drop_left, byteLength_eq, advanceAll_behind,
    length_utf8_append]

/-- What the reading leaves is the result. -/
theorem Scans.eq_tokensBehind (h : Scans before cs r) : tokensBehind before cs = r := by
  induction h with
  | ended => rw [tokensBehind, tokensFrom]
  | skip hlongest _ ih => rw [tokensBehind_skipped hlongest, ih]
  | token hlongest _ ih => rw [tokensBehind_token hlongest, ih]
  | stray hnone => exact tokensFrom_none (lexeme?_eq_none.mpr hnone) _ _

/-- The result is what the reading leaves. The induction is on the length of what is left to read. -/
theorem scans_tokensBehind (before cs : List Char) : Scans before cs (tokensBehind before cs) := by
  generalize hn : cs.length = n
  induction n using Nat.strongRecOn generalizing before cs with
  | ind n ih =>
    cases cs with
    | nil =>
      rw [tokensBehind, tokensFrom]
      exact .ended
    | cons c cs =>
      cases hl : lexeme? (c :: cs) with
      | none =>
        rw [tokensBehind, tokensFrom_none hl]
        exact .stray (lexeme?_eq_none.mp hl)
      | some l =>
        have hlongest := lexeme?_eq_some.mp hl
        have hsome := List.length_pos_iff.mpr (lexeme?_chars_ne_nil hl)
        obtain ⟨after, hafter⟩ := hlongest.here
        rw [← hafter] at hlongest hn ⊢
        rw [List.length_append] at hn
        have hrest := ih after.length (by omega) (before ++ l.chars) after rfl
        cases l with
        | skipped chars =>
          have hlongest : Longest (chars ++ after) (.skipped chars) := hlongest
          show Scans before (chars ++ after) (tokensBehind before (chars ++ after))
          rw [tokensBehind_skipped hlongest]
          exact .skip hlongest hrest
        | token t chars =>
          have hlongest : Longest (chars ++ after) (.token t chars) := hlongest
          show Scans before (chars ++ after) (tokensBehind before (chars ++ after))
          rw [tokensBehind_token hlongest]
          exact .token hlongest hrest

/-! ## What the tokens make up -/

/-- Blanks and comments, in any number. -/
def Skipped (gap : List Char) : Prop :=
  ∃ parts : List (List Char), gap = parts.flatten ∧ ∀ part ∈ parts, IsLexeme (.skipped part)

/-- A text that stands behind another is a row of these tokens, with nothing but blanks and comments
before, between and behind them. -/
inductive LaidOut : List Char → List Char → List Placed → Prop
  | ended {before gap : List Char} : Skipped gap → LaidOut before gap []
  | token {before gap chars rest : List Char} {t : Token} {ts : List Placed} :
      Skipped gap → IsLexeme (.token t chars) → LaidOut (before ++ gap ++ chars) rest ts →
      LaidOut before (gap ++ chars ++ rest) (⟨t, spanOf (before ++ gap) chars⟩ :: ts)

theorem Skipped.nil : Skipped [] := ⟨[], rfl, List.forall_mem_nil _⟩

theorem Skipped.cons {gap : List Char} (hchars : IsLexeme (.skipped chars)) (hgap : Skipped gap) :
    Skipped (chars ++ gap) := by
  obtain ⟨parts, rfl, hparts⟩ := hgap
  exact ⟨chars :: parts, rfl, List.forall_mem_cons.mpr ⟨hchars, hparts⟩⟩

/-- More to skip in front of a row makes its first gap longer. -/
theorem LaidOut.skip (hchars : IsLexeme (.skipped chars)) (h : LaidOut (before ++ chars) cs ts) :
    LaidOut before (chars ++ cs) ts := by
  cases h with
  | ended hgap => exact .ended (hgap.cons hchars)
  | @token _ gap text rest t ts hgap ht hrest =>
    have happend : before ++ chars ++ gap = before ++ (chars ++ gap) := List.append_assoc ..
    have htext : chars ++ (gap ++ text ++ rest) = chars ++ gap ++ text ++ rest := by
      simp only [List.append_assoc]
    rw [happend] at hrest ⊢
    rw [htext]
    exact .token (hgap.cons hchars) ht hrest

theorem Scans.laidOut (h : Scans before cs (.ok ts)) : LaidOut before cs ts := by
  generalize hr : Except.ok ts = r at h
  induction h generalizing ts with
  | ended =>
    cases hr
    exact .ended .nil
  | skip hlongest _ ih => exact (ih hr).skip hlongest.lexeme
  | @token before chars after t r hlongest _ ih =>
    cases r with
    | error s => cases hr
    | ok more =>
      cases hr
      have hrest := ih rfl
      have hrow : LaidOut before ([] ++ chars ++ after) (⟨t, spanOf (before ++ []) chars⟩ :: more) :=
        .token .nil hlongest.lexeme (by rwa [List.append_nil])
      rwa [List.append_nil, List.nil_append] at hrow
  | stray => cases hr

/-- Every token is where its place says. -/
theorem LaidOut.at_span {p : Placed} (h : LaidOut before cs ts) (hp : p ∈ ts) :
    ∃ front chars after, before ++ cs = before ++ front ++ chars ++ after ∧
      IsLexeme (.token p.token chars) ∧ p.span = spanOf (before ++ front) chars := by
  induction h with
  | ended => cases hp
  | @token before gap chars rest t ts _ ht _ ih =>
    rcases List.mem_cons.mp hp with rfl | hp
    · exact ⟨gap, chars, rest, by simp only [List.append_assoc], ht, rfl⟩
    · obtain ⟨front, found, after, htext, hlexeme, hspan⟩ := ih hp
      refine ⟨gap ++ chars ++ front, found, after, ?_, hlexeme, ?_⟩
      · simpa only [List.append_assoc] using htext
      · simpa only [List.append_assoc] using hspan

theorem LaidOut.le_first {p : Placed} (h : LaidOut before cs ts) (hp : p ∈ ts) :
    (utf8 before).length ≤ p.span.first := by
  obtain ⟨front, chars, after, -, -, hspan⟩ := h.at_span hp
  rw [hspan, spanOf]
  dsimp only
  rw [length_utf8_append]
  exact Nat.le_add_right _ _

/-- A token ends before the next ones begin. -/
theorem LaidOut.ordered (h : LaidOut before cs ts) :
    ts.Pairwise fun p q => p.span.last ≤ q.span.first := by
  induction h with
  | ended => exact .nil
  | token _ _ hrest ih => exact .cons (fun q hq => hrest.le_first hq) ih

/-- The reading ends early where no lexeme starts. -/
theorem Scans.stray_at (h : Scans before cs (.error s)) : ∃ front after,
    cs = front ++ s.char :: after ∧ s.position = behind (before ++ front) ∧
      ∀ l, IsLexeme l → ¬ l.chars <+: s.char :: after := by
  have hfurther : ∀ {before chars cs : List Char}, (∃ front after, cs = front ++ s.char :: after ∧
      s.position = behind (before ++ chars ++ front) ∧
        ∀ l, IsLexeme l → ¬ l.chars <+: s.char :: after) →
      ∃ front after, chars ++ cs = front ++ s.char :: after ∧
        s.position = behind (before ++ front) ∧
          ∀ l, IsLexeme l → ¬ l.chars <+: s.char :: after := by
    rintro before chars _ ⟨front, after, rfl, hposition, hnone⟩
    exact ⟨chars ++ front, after, (List.append_assoc ..).symm,
      by rw [hposition, List.append_assoc], hnone⟩
  generalize hr : Except.error s = r at h
  induction h with
  | ended => cases hr
  | skip _ _ ih => exact hfurther (ih hr)
  | @token before chars after t r _ _ ih =>
    cases r with
    | error found => exact hfurther (ih (by cases hr; rfl))
    | ok more => cases hr
  | @stray before after c hnone =>
    cases hr
    exact ⟨[], after, rfl, by rw [List.append_nil], hnone⟩

/-! ## Source texts -/

/-- The tokens of a source text are what is left when the text is read from its front, the longest
lexeme at each place, up to its end or up to the first place where no lexeme starts.

* The tokens, and the blanks and comments before, between and behind them, make up the text.
* A token stands where its span says: its first byte, the byte behind its last one, and the line and
  column of its first character.
* A token ends before the next ones begin.
* The error is at a place where no lexeme starts, with its line and column and its character.
* No line and no column is greater than the number of characters, so counters that hold this number
  hold them.
-/
theorem longest_match (source : String) :
    (∀ r, tokens source = r ↔ Scans [] source.toList r) ∧
      (∀ ts, tokens source = .ok ts →
        LaidOut [] source.toList ts ∧
        (∀ p ∈ ts, ∃ before chars after, source.toList = before ++ chars ++ after ∧
          IsLexeme (.token p.token chars) ∧ p.span = spanOf before chars ∧
          ((Text.utf8Bytes source).take p.span.last).drop p.span.first = utf8 chars ∧
          p.span.position.line ≤ source.toList.length ∧
          p.span.position.column ≤ source.toList.length) ∧
        ts.Pairwise fun p q => p.span.last ≤ q.span.first) ∧
      ∀ s, tokens source = .error s →
        ∃ before after, source.toList = before ++ s.char :: after ∧ s.position = behind before ∧
          (∀ l, IsLexeme l → ¬ l.chars <+: s.char :: after) ∧
          s.position.line ≤ source.toList.length ∧ s.position.column ≤ source.toList.length := by
  have hscans : ∀ r, tokens source = r ↔ Scans [] source.toList r := fun r =>
    ⟨fun h => h ▸ scans_tokensBehind [] source.toList, Scans.eq_tokensBehind⟩
  refine ⟨hscans, fun ts hts => ?_, fun s hs => ?_⟩
  · have hrow := ((hscans _).mp hts).laidOut
    refine ⟨hrow, fun p hp => ?_, hrow.ordered⟩
    obtain ⟨front, chars, after, htext, hlexeme, hspan⟩ := hrow.at_span hp
    have htext : source.toList = front ++ chars ++ after := htext
    refine ⟨front, chars, after, htext, hlexeme, hspan, ?_, ?_⟩
    · rw [Text.utf8Bytes, htext, hspan]
      exact bytes_between front chars after
    · obtain ⟨c, cs, rfl, -⟩ := hlexeme.token_cons
      rw [hspan]
      exact behind_le_length (by rw [htext, List.append_assoc, List.cons_append]; rfl)
  · obtain ⟨front, after, htext, hposition, hnone⟩ := ((hscans _).mp hs).stray_at
    have htext : source.toList = front ++ s.char :: after := htext
    have hposition : s.position = behind front := hposition
    exact ⟨front, after, htext, hposition, hnone, hposition ▸ behind_le_length htext⟩

end ModuleLoader.Script
