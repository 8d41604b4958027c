import Mathlib.Data.List.TakeWhile
import ModuleLoader.Script.Token

/-!
# The longest lexeme

What counts as a lexeme is a matter of the lexeme alone, one rule for each kind:

    blanks     := (" " | "\t" | "\r" | "\n")+
    comment    := "//" (any but "\n")*
    word       := "import" | "from" | "export" | "let" | "as" | "true" | "false" | "null"
    identifier := (letter | "_" | "$") (letter | digit | "_" | "$")*
    numeral    := digit+ ("." digit+)?
    string     := QUOTE (any but QUOTE, "\" and "\n" | "\" (any but "\n"))* QUOTE
    symbol     := one of { } ( ) , ; = + - * /

The rules overlap: `/` is the head of a comment, a reserved word is spelled like an identifier, and
most lexemes have a shorter one at their head. The longest one at the head of a text counts, and a
word before an identifier that is spelled the same.

Nothing in the rules goes through the functions that read a text: the words, the symbols, the classes
of characters and what each escape stands for are written out, and are shown to be what is read.

Results:
1. `IsLexeme.of_lexeme?`: what is read is a lexeme at the head of the text.
2. `IsLexeme.read`: where a lexeme stands, it is read or a longer one is.
3. `lexeme?_eq_some`, `lexeme?_eq_none`: what is read is the longest lexeme, and nothing is read only
   where there is none.
-/

namespace ModuleLoader.Script

/-! ## Rules -/

def IsBlank (c : Char) : Prop := c = ' ' ∨ c = '\t' ∨ c = '\r' ∨ c = '\n'

/-- What a name begins with. -/
def IsLetter (c : Char) : Prop := c.isAlpha ∨ c = '_' ∨ c = '$'

def IsQuote (c : Char) : Prop := c = '"' ∨ c = '\''

/-- The reserved words as they are written. -/
def reservedWords : List (String × Word) :=
  [("import", .importWord), ("from", .fromWord), ("export", .exportWord), ("let", .letWord),
    ("as", .asWord), ("true", .trueWord), ("false", .falseWord), ("null", .nullWord)]

/-- The characters that are tokens of their own. -/
def symbols : List (Char × Symbol) :=
  [('{', .leftBrace), ('}', .rightBrace), ('(', .leftParen), (')', .rightParen), (',', .comma),
    (';', .semicolon), ('=', .equal), ('+', .plus), ('-', .minus), ('*', .star), ('/', .slash)]

/-- What is written for one character of a string, and the character. Behind a backslash four
characters stand for another one, and the rest for themselves. -/
inductive Piece (quote : Char) : List Char → Char → Prop
  | plain {c : Char} : c ≠ quote → c ≠ '\\' → c ≠ '\n' → Piece quote [c] c
  | newline : Piece quote ['\\', 'n'] '\n'
  | carriageReturn : Piece quote ['\\', 'r'] '\r'
  | tab : Piece quote ['\\', 't'] '\t'
  | null : Piece quote ['\\', '0'] '\x00'
  | itself {c : Char} : c ∉ ['n', 'r', 't', '0', '\n'] → Piece quote ['\\', c] c

/-- What is written between the quotes, and the string. -/
inductive Quotes (quote : Char) : List Char → List Char → Prop
  | nil : Quotes quote [] []
  | cons {written body s : List Char} {c : Char} :
      Piece quote written c → Quotes quote body s → Quotes quote (written ++ body) (c :: s)

/-- The rules for lexemes. A string stands for what its pieces stand for, the other tokens for what is
written. -/
inductive IsLexeme : Lexeme → Prop
  | blanks {cs : List Char} : cs ≠ [] → (∀ c ∈ cs, IsBlank c) → IsLexeme (.skipped cs)
  | comment {cs : List Char} : '\n' ∉ cs → IsLexeme (.skipped ('/' :: '/' :: cs))
  | word {written : String} {w : Word} : (written, w) ∈ reservedWords →
      IsLexeme (.token (.word w) written.toList)
  | identifier {c : Char} {cs : List Char} : IsLetter c → (∀ d ∈ cs, IsLetter d ∨ d.isDigit) →
      IsLexeme (.token (.identifier (String.ofList (c :: cs))) (c :: cs))
  | whole {ds : List Char} : ds ≠ [] → (∀ d ∈ ds, d.isDigit) →
      IsLexeme (.token (.number (Decimal.ofNumeral ds [])) ds)
  | fraction {ds es : List Char} : ds ≠ [] → (∀ d ∈ ds, d.isDigit) → es ≠ [] →
      (∀ e ∈ es, e.isDigit) →
      IsLexeme (.token (.number (Decimal.ofNumeral ds es)) (ds ++ '.' :: es))
  | string {quote : Char} {body s : List Char} : IsQuote quote → Quotes quote body s →
      IsLexeme (.token (.string (String.ofList s)) (quote :: body ++ [quote]))
  | symbol {c : Char} {s : Symbol} : (c, s) ∈ symbols → IsLexeme (.token (.symbol s) [c])

/-- A word that is written like the lexeme is the lexeme. -/
def Reserving (l : Lexeme) : Prop :=
  ∀ entry ∈ reservedWords, l.chars = entry.1.toList → l = .token (.word entry.2) l.chars

/-- The lexeme at the head of a text that counts. -/
structure Longest (cs : List Char) (l : Lexeme) : Prop where
  lexeme : IsLexeme l
  here : l.chars <+: cs
  longest : ∀ other, IsLexeme other → other.chars <+: cs → other.chars.length ≤ l.chars.length
  reserving : Reserving l

variable {c quote : Char} {cs more body : List Char} {l : Lexeme}

/-! ## One kind at a time -/

theorem isBlank_iff : isBlank c = true ↔ IsBlank c := by
  simp [isBlank, IsBlank, or_assoc]

theorem isWordStart_iff : isWordStart c = true ↔ IsLetter c := by
  simp [isWordStart, IsLetter, or_assoc]

theorem isWordPart_iff : isWordPart c = true ↔ IsLetter c ∨ c.isDigit = true := by
  rw [isWordPart, Bool.or_eq_true, isWordStart_iff]

theorem not_blank_of_wordStart (h : isWordStart c = true) : isBlank c = false := by
  refine Bool.eq_false_iff.mpr fun hblank => ?_
  rcases isBlank_iff.mp hblank with rfl | rfl | rfl | rfl <;> exact absurd h (by decide)

theorem not_blank_of_digit (h : c.isDigit = true) : isBlank c = false := by
  refine Bool.eq_false_iff.mpr fun hblank => ?_
  rcases isBlank_iff.mp hblank with rfl | rfl | rfl | rfl <;> exact absurd h (by decide)

theorem not_wordStart_of_digit (h : c.isDigit = true) : isWordStart c = false := by
  have hrange : 48 ≤ c.toNat ∧ c.toNat ≤ 57 := by
    simpa [Char.isDigit, UInt32.le_iff_toNat_le] using h
  refine Bool.eq_false_iff.mpr fun hstart => ?_
  unfold isWordStart Char.isAlpha Char.isUpper Char.isLower at hstart
  simp only [Bool.or_eq_true, Bool.and_eq_true, decide_eq_true_eq, ge_iff_le,
    UInt32.le_iff_toNat_le] at hstart
  rcases hstart with ((⟨hlow, -⟩ | ⟨hlow, -⟩) | rfl) | rfl
  · exact absurd (Nat.le_trans hlow hrange.2) (by decide)
  · exact absurd (Nat.le_trans hlow hrange.2) (by decide)
  · exact absurd hrange.2 (by decide)
  · exact absurd hrange.1 (by decide)

theorem lexeme?_blank (h : isBlank c = true) :
    lexeme? (c :: cs) = some (.skipped (c :: cs.takeWhile isBlank)) := by
  rw [lexeme?, if_pos h]

theorem lexeme?_comment : lexeme? ('/' :: '/' :: cs) =
    some (.skipped ('/' :: '/' :: cs.takeWhile (· ≠ '\n'))) := rfl

theorem lexeme?_wordStart (h : isWordStart c = true) : lexeme? (c :: cs) =
    some (.token (.ofWord (c :: cs.takeWhile isWordPart)) (c :: cs.takeWhile isWordPart)) := by
  have hslash : ¬(c = '/' ∧ cs.head? = some '/') := by
    rintro ⟨rfl, -⟩
    exact absurd h (by decide)
  rw [lexeme?, if_neg (by simp [not_blank_of_wordStart h]), if_neg hslash, if_pos h]

theorem lexeme?_digit (h : c.isDigit = true) : lexeme? (c :: cs) = some (numeral (c :: cs)) := by
  have hslash : ¬(c = '/' ∧ cs.head? = some '/') := by
    rintro ⟨rfl, -⟩
    exact absurd h (by decide)
  rw [lexeme?, if_neg (by simp [not_blank_of_digit h]), if_neg hslash,
    if_neg (by simp [not_wordStart_of_digit h]), if_pos h]

theorem lexeme?_quote (h : IsQuote c) : lexeme? (c :: cs) = (stringBody? c cs).map fun body =>
    .token (.string (String.ofList (unescape body))) (c :: body ++ [c]) := by
  rcases h with rfl | rfl <;> rfl

theorem lexeme?_symbol (s : Symbol) (h : s = .slash → cs.head? ≠ some '/') :
    lexeme? (s.spelling :: cs) = some (.token (.symbol s) [s.spelling]) := by
  cases s with
  | slash =>
    have hslash : ¬('/' = '/' ∧ cs.head? = some '/') := fun hboth => h rfl hboth.2
    show lexeme? ('/' :: cs) = _
    rw [lexeme?, if_neg (by decide), if_neg hslash]
    rfl
  | _ => rfl

/-! ### Words -/

theorem Word.spelling_inj {v w : Word} (h : v.spelling = w.spelling) : v = w := by
  cases v <;> cases w <;> first | rfl | exact absurd h (by decide)

theorem Word.mem_all (w : Word) : w ∈ Word.all := by
  cases w <;> decide

theorem mem_reservedWords {written : String} {w : Word} :
    (written, w) ∈ reservedWords ↔ written = w.spelling := by
  refine ⟨fun h => ?_, ?_⟩
  · have hall : ∀ entry ∈ reservedWords, entry.1 = entry.2.spelling := by decide
    exact hall _ h
  · rintro rfl
    cases w <;> decide

theorem reserving_iff : Reserving l ↔
    ∀ w : Word, l.chars = w.spelling.toList → l = .token (.word w) l.chars :=
  ⟨fun h w => h (w.spelling, w) (mem_reservedWords.mpr rfl),
    fun h entry hentry hchars => h entry.2 (by rw [hchars, mem_reservedWords.mp hentry])⟩

theorem reserving_word (w : Word) : Reserving (.token (.word w) w.spelling.toList) :=
  reserving_iff.mpr fun v hv => by
    rw [Word.spelling_inj (String.toList_inj.mp hv)]
    rfl

theorem IsLexeme.reserved (w : Word) : IsLexeme (.token (.word w) w.spelling.toList) :=
  .word (mem_reservedWords.mpr rfl)

theorem Word.spelling_cons (w : Word) : ∃ c cs, w.spelling.toList = c :: cs ∧
    isWordStart c = true ∧ ∀ d ∈ cs, isWordPart d = true := by
  cases w <;> exact ⟨_, _, rfl, by decide, List.all_eq_true.mp (by decide)⟩

/-- The word that is spelled so, or an identifier. -/
theorem ofWord_cases (cs : List Char) :
    (∃ w : Word, cs = w.spelling.toList ∧ Token.ofWord cs = .word w) ∨
      (∀ w : Word, cs ≠ w.spelling.toList) ∧ Token.ofWord cs = .identifier (String.ofList cs) := by
  unfold Token.ofWord
  dsimp only
  split
  next w hw =>
    have hspelling : w.spelling = String.ofList cs := by simpa using List.find?_some hw
    exact .inl ⟨w, by rw [hspelling, String.toList_ofList], rfl⟩
  next hnone =>
    refine .inr ⟨fun w hw => ?_, rfl⟩
    have hne := List.find?_eq_none.mp hnone w w.mem_all
    rw [hw, String.ofList_toList] at hne
    exact hne (by simp)

theorem ofWord_spelling (w : Word) : Token.ofWord w.spelling.toList = .word w := by
  rcases ofWord_cases w.spelling.toList with ⟨v, hv, hword⟩ | ⟨hnone, -⟩
  · rw [hword, Word.spelling_inj (String.toList_inj.mp hv)]
  · exact absurd rfl (hnone w)

/-! ### Numerals -/

theorem numeralParts_fst (cs : List Char) : (numeralParts cs).1 = cs.takeWhile Char.isDigit := by
  unfold numeralParts
  dsimp only
  split <;> rfl

theorem takeWhile_digit_point {ds : List Char} (hds : ∀ d ∈ ds, d.isDigit) (cs : List Char) :
    (ds ++ '.' :: cs).takeWhile Char.isDigit = ds := by
  have hpoint : ('.' :: cs).takeWhile Char.isDigit = [] := rfl
  rw [List.takeWhile_append_of_pos hds, hpoint, List.append_nil]

theorem numeralParts_point {ds : List Char} (hds : ∀ d ∈ ds, d.isDigit) (cs : List Char) :
    numeralParts (ds ++ '.' :: cs) = (ds, cs.takeWhile Char.isDigit) := by
  unfold numeralParts
  dsimp only
  rw [takeWhile_digit_point hds, List.drop_left]
  rfl

/-- A fraction stands behind the whole part and a point. -/
theorem numeralParts_snd (h : (numeralParts cs).2 ≠ []) : ∃ rest,
    cs = cs.takeWhile Char.isDigit ++ '.' :: rest ∧
      (numeralParts cs).2 = rest.takeWhile Char.isDigit := by
  unfold numeralParts at h ⊢
  dsimp only at h ⊢
  split at h
  next rest hrest =>
    refine ⟨rest, ?_, rfl⟩
    have hsplit := List.prefix_iff_eq_append.mp (List.takeWhile_prefix (l := cs) Char.isDigit)
    exact (hrest ▸ hsplit).symm
  next => exact absurd rfl h

theorem numeral_eq (cs : List Char) : numeral cs =
    .token (.number (Decimal.ofNumeral (numeralParts cs).1 (numeralParts cs).2))
      (if (numeralParts cs).2.isEmpty then (numeralParts cs).1
        else (numeralParts cs).1 ++ '.' :: (numeralParts cs).2) := rfl

theorem IsLexeme.of_numeral (hc : c.isDigit = true) :
    IsLexeme (numeral (c :: cs)) ∧ (numeral (c :: cs)).chars <+: c :: cs := by
  have hwhole : (c :: cs).takeWhile Char.isDigit ≠ [] := by
    rw [List.takeWhile_cons, hc]
    exact List.cons_ne_nil _ _
  have hdigits : ∀ d ∈ (c :: cs).takeWhile Char.isDigit, d.isDigit := fun d => List.mem_takeWhile_imp
  rw [numeral_eq, numeralParts_fst]
  by_cases hnone : (numeralParts (c :: cs)).2 = []
  · rw [hnone]
    exact ⟨.whole hwhole hdigits, List.takeWhile_prefix _⟩
  · obtain ⟨rest, hcs, hfraction⟩ := numeralParts_snd hnone
    rw [if_neg (by simpa using hnone)]
    refine ⟨.fraction hwhole hdigits hnone fun e he => List.mem_takeWhile_imp (hfraction ▸ he), ?_⟩
    obtain ⟨behind, hbehind⟩ := List.takeWhile_prefix (l := rest) Char.isDigit
    refine ⟨behind, ?_⟩
    show (_ ++ '.' :: (numeralParts (c :: cs)).2) ++ behind = c :: cs
    rw [hfraction, List.append_assoc, List.cons_append, hbehind, ← hcs]

/-! ### Strings -/

/-- A backslash and what `escaped` says about the character behind it. -/
theorem Piece.escape (h : c ≠ '\n') : Piece quote ['\\', c] (escaped c) := by
  unfold escaped
  split
  · exact .newline
  · exact .carriageReturn
  · exact .tab
  · exact .null
  next hn hr ht hnull =>
    have hnone : ∀ d ∈ ['n', 'r', 't', '0', '\n'], c ≠ d := by
      simp only [List.forall_mem_cons]
      exact ⟨hn, hr, ht, hnull, h, List.forall_mem_nil _⟩
    exact .itself fun hin => hnone c hin rfl

theorem Piece.plain_or_escape {written : List Char} (h : Piece quote written c) :
    (written = [c] ∧ c ≠ quote ∧ c ≠ '\\' ∧ c ≠ '\n') ∨
      ∃ d, d ≠ '\n' ∧ written = ['\\', d] ∧ c = escaped d := by
  cases h with
  | plain hquote hslash hline => exact .inl ⟨rfl, hquote, hslash, hline⟩
  | newline => exact .inr ⟨'n', by decide, rfl, rfl⟩
  | carriageReturn => exact .inr ⟨'r', by decide, rfl, rfl⟩
  | tab => exact .inr ⟨'t', by decide, rfl, rfl⟩
  | null => exact .inr ⟨'0', by decide, rfl, rfl⟩
  | itself hc =>
    simp only [List.mem_cons, List.not_mem_nil, or_false, not_or] at hc
    obtain ⟨hn, hr, ht, hnull, hline⟩ := hc
    exact .inr ⟨c, hline, rfl, by unfold escaped; split <;> first | contradiction | rfl⟩

/-- Pieces are read up to the quote behind them. -/
theorem stringBody?_quotes {s : List Char} (hquote : IsQuote quote) (h : Quotes quote body s)
    (rest : List Char) : stringBody? quote (body ++ quote :: rest) = some body := by
  induction h with
  | nil =>
    show stringBody? quote (quote :: rest) = _
    unfold stringBody?
    rw [if_pos rfl]
  | @cons written body s c hpiece _ ih =>
    rcases hpiece.plain_or_escape with ⟨rfl, hnot, hslash, hline⟩ | ⟨d, hline, rfl, -⟩
    · show stringBody? quote (c :: (body ++ quote :: rest)) = _
      unfold stringBody?
      rw [if_neg hnot, if_neg hline, if_neg hslash, ih]
      rfl
    · have hslash : '\\' ≠ quote := by
        rcases hquote with rfl | rfl <;> decide
      show stringBody? quote ('\\' :: d :: (body ++ quote :: rest)) = _
      unfold stringBody?
      rw [if_neg hslash, if_neg (by decide), if_pos rfl]
      dsimp only
      rw [if_neg hline, ih]
      rfl

/-- The part between the quotes is made of pieces, and the quote stands behind it. -/
theorem quotes_of_stringBody? (h : stringBody? quote cs = some body) :
    (∃ s, Quotes quote body s) ∧ body ++ [quote] <+: cs := by
  induction cs using stringBody?.induct quote generalizing body with
  | case1 => cases h
  | case2 cs =>
    unfold stringBody? at h
    rw [if_pos rfl] at h
    cases h
    exact ⟨⟨[], .nil⟩, List.prefix_append [quote] cs⟩
  | case3 cs hquote =>
    unfold stringBody? at h
    rw [if_neg hquote, if_pos rfl] at h
    cases h
  | case4 hquote hline =>
    unfold stringBody? at h
    rw [if_neg hquote, if_neg hline, if_pos rfl] at h
    cases h
  | case5 cs hquote hline =>
    unfold stringBody? at h
    rw [if_neg hquote, if_neg hline, if_pos rfl] at h
    cases h
  | case6 d cs hd hquote hline ih =>
    unfold stringBody? at h
    rw [if_neg hquote, if_neg hline, if_pos rfl] at h
    dsimp only at h
    rw [if_neg hd] at h
    obtain ⟨rest, hrest, rfl⟩ := Option.map_eq_some_iff.1 h
    obtain ⟨⟨s, hs⟩, hbegins⟩ := ih hrest
    exact ⟨⟨_, .cons (.escape hd) hs⟩,
      List.cons_prefix_cons.2 ⟨rfl, List.cons_prefix_cons.2 ⟨rfl, hbegins⟩⟩⟩
  | case7 c cs hquote hline hslash ih =>
    unfold stringBody? at h
    rw [if_neg hquote, if_neg hline, if_neg hslash] at h
    obtain ⟨rest, hrest, rfl⟩ := Option.map_eq_some_iff.1 h
    obtain ⟨⟨s, hs⟩, hbegins⟩ := ih hrest
    exact ⟨⟨_, .cons (.plain hquote hslash hline) hs⟩, List.cons_prefix_cons.2 ⟨rfl, hbegins⟩⟩

theorem unescape_cons (h : c ≠ '\\') (cs : List Char) : unescape (c :: cs) = c :: unescape cs := by
  rw [unescape]
  · exact fun hc => absurd hc h
  · exact fun _ _ hc => absurd hc h

theorem unescape_quotes {s : List Char} (h : Quotes quote body s) : unescape body = s := by
  induction h with
  | nil => rfl
  | @cons written body s c hpiece _ ih =>
    rcases hpiece.plain_or_escape with ⟨rfl, -, hslash, -⟩ | ⟨d, -, rfl, rfl⟩
    · rw [List.singleton_append, unescape_cons hslash, ih]
    · show unescape ('\\' :: d :: body) = _
      rw [unescape, ih]

/-! ## What is read is a lexeme -/

theorem mem_symbols {s : Symbol} : (c, s) ∈ symbols ↔ c = s.spelling := by
  refine ⟨fun h => ?_, ?_⟩
  · have hall : ∀ entry ∈ symbols, entry.1 = entry.2.spelling := by decide
    exact hall _ h
  · rintro rfl
    cases s <;> decide

theorem symbol_of_ofChar? {s : Symbol} (h : Symbol.ofChar? c = some s) : s.spelling = c := by
  simpa using List.find?_some h

theorem IsLexeme.of_lexeme? (h : lexeme? cs = some l) : IsLexeme l ∧ l.chars <+: cs := by
  cases cs with
  | nil => cases h
  | cons c cs =>
    by_cases hblank : isBlank c = true
    · rw [lexeme?_blank hblank] at h
      cases h
      refine ⟨.blanks (List.cons_ne_nil _ _) ?_, List.cons_prefix_cons.2 ⟨rfl, List.takeWhile_prefix _⟩⟩
      refine List.forall_mem_cons.mpr ⟨isBlank_iff.mp hblank, fun d hd => ?_⟩
      exact isBlank_iff.mp (List.mem_takeWhile_imp hd)
    by_cases hstart : isWordStart c = true
    · rw [lexeme?_wordStart hstart] at h
      cases h
      refine ⟨?_, List.cons_prefix_cons.2 ⟨rfl, List.takeWhile_prefix _⟩⟩
      rcases ofWord_cases (c :: cs.takeWhile isWordPart) with ⟨w, hw, hword⟩ | ⟨-, hname⟩
      · rw [hword, hw]
        exact .reserved w
      · rw [hname]
        refine .identifier (isWordStart_iff.mp hstart) fun d hd => ?_
        exact isWordPart_iff.mp (List.mem_takeWhile_imp hd)
    by_cases hdigit : c.isDigit = true
    · rw [lexeme?_digit hdigit] at h
      cases h
      exact of_numeral hdigit
    by_cases hquote : IsQuote c
    · rw [lexeme?_quote hquote] at h
      obtain ⟨body, hbody, rfl⟩ := Option.map_eq_some_iff.1 h
      obtain ⟨⟨s, hs⟩, hbegins⟩ := quotes_of_stringBody? hbody
      rw [unescape_quotes hs]
      exact ⟨.string hquote hs, List.cons_prefix_cons.2 ⟨rfl, hbegins⟩⟩
    rw [lexeme?, if_neg hblank] at h
    split at h
    next hcomment =>
      obtain ⟨rfl, hhead⟩ := hcomment
      cases cs with
      | nil => cases hhead
      | cons d cs =>
        cases hhead
        cases h
        refine ⟨.comment fun hin => ?_, ?_⟩
        · have hline := List.mem_takeWhile_imp hin
          exact absurd rfl (of_decide_eq_true hline)
        · exact List.cons_prefix_cons.2 ⟨rfl, List.cons_prefix_cons.2 ⟨rfl, List.takeWhile_prefix _⟩⟩
    next =>
      have hquote : ¬(c = '"' ∨ c = '\'') := hquote
      rw [if_neg hquote] at h
      obtain ⟨s, hs, rfl⟩ := Option.map_eq_some_iff.1 h
      have hsymbol := mem_symbols.mpr (symbol_of_ofChar? hs).symm
      exact ⟨.symbol hsymbol, List.prefix_append [c] cs⟩

/-- A token begins with a character that is not blank. -/
theorem IsLexeme.token_cons {t : Token} {chars : List Char} (h : IsLexeme (.token t chars)) :
    ∃ c cs, chars = c :: cs ∧ isBlank c = false := by
  generalize hl : Lexeme.token t chars = l at h
  cases h with
  | blanks => cases hl
  | comment => cases hl
  | @word _ w hw =>
    cases hl
    obtain ⟨c, cs, hspelling, hc, -⟩ := w.spelling_cons
    exact ⟨c, cs, mem_reservedWords.mp hw ▸ hspelling, not_blank_of_wordStart hc⟩
  | identifier hc =>
    cases hl
    exact ⟨_, _, rfl, not_blank_of_wordStart (isWordStart_iff.mpr hc)⟩
  | @whole ds hds hdigits =>
    cases hl
    obtain ⟨d, more, rfl⟩ := List.exists_cons_of_ne_nil hds
    exact ⟨d, more, rfl, not_blank_of_digit (hdigits d List.mem_cons_self)⟩
  | @fraction ds es hds hdigits =>
    cases hl
    obtain ⟨d, more, rfl⟩ := List.exists_cons_of_ne_nil hds
    exact ⟨d, _, rfl, not_blank_of_digit (hdigits d List.mem_cons_self)⟩
  | string hquote =>
    cases hl
    rcases hquote with rfl | rfl
    · exact ⟨_, _, rfl, by decide⟩
    · exact ⟨_, _, rfl, by decide⟩
  | @symbol _ s hs =>
    cases hl
    exact ⟨_, _, rfl, mem_symbols.mp hs ▸ (by cases s <;> decide)⟩

/-! ## What is a lexeme is read -/

/-- At the head of the text a lexeme is read that goes on from `l`, and it is `l` if it is as long. -/
def Gives (cs : List Char) (l : Lexeme) : Prop :=
  ∃ found, lexeme? cs = some found ∧ l.chars <+: found.chars ∧
    (found.chars = l.chars → Reserving l → found = l)

theorem gives_blanks (hc : isBlank c = true) (hcs : ∀ d ∈ cs, isBlank d) :
    Gives (c :: cs ++ more) (.skipped (c :: cs)) := by
  refine ⟨_, lexeme?_blank hc, ?_, fun hsame _ => congrArg Lexeme.skipped hsame⟩
  show c :: cs <+: c :: (cs ++ more).takeWhile isBlank
  rw [List.takeWhile_append_of_pos hcs]
  exact List.prefix_append (c :: cs) _

theorem gives_comment (hcs : '\n' ∉ cs) :
    Gives ('/' :: '/' :: cs ++ more) (.skipped ('/' :: '/' :: cs)) := by
  refine ⟨_, lexeme?_comment, ?_, fun hsame _ => congrArg Lexeme.skipped hsame⟩
  have hline : ∀ d ∈ cs, decide (d ≠ '\n') = true := fun d hd =>
    decide_eq_true fun heq => hcs (heq ▸ hd)
  show '/' :: '/' :: cs <+: '/' :: '/' :: (cs ++ more).takeWhile (· ≠ '\n')
  rw [List.takeWhile_append_of_pos hline]
  exact List.prefix_append ('/' :: '/' :: cs) _

/-- A word and an identifier are read as far as their characters go. -/
theorem gives_ofWord (hc : isWordStart c = true) (hcs : ∀ d ∈ cs, isWordPart d) {t : Token}
    (ht : Reserving (.token t (c :: cs)) → Token.ofWord (c :: cs) = t) :
    Gives (c :: cs ++ more) (.token t (c :: cs)) := by
  refine ⟨_, lexeme?_wordStart hc, ?_, fun hsame hreserving => ?_⟩
  · show c :: cs <+: c :: (cs ++ more).takeWhile isWordPart
    rw [List.takeWhile_append_of_pos hcs]
    exact List.prefix_append (c :: cs) _
  · have hchars : c :: (cs ++ more).takeWhile isWordPart = c :: cs := hsame
    show Lexeme.token (.ofWord (c :: (cs ++ more).takeWhile isWordPart))
      (c :: (cs ++ more).takeWhile isWordPart) = _
    rw [hchars, ht hreserving]

theorem gives_word (w : Word) :
    Gives (w.spelling.toList ++ more) (.token (.word w) w.spelling.toList) := by
  obtain ⟨c, cs, hspelling, hc, hcs⟩ := w.spelling_cons
  rw [hspelling]
  refine gives_ofWord hc hcs fun _ => ?_
  rw [← hspelling, ofWord_spelling]

theorem gives_identifier (hc : isWordStart c = true) (hcs : ∀ d ∈ cs, isWordPart d) :
    Gives (c :: cs ++ more) (.token (.identifier (String.ofList (c :: cs))) (c :: cs)) := by
  refine gives_ofWord hc hcs fun hreserving => ?_
  rcases ofWord_cases (c :: cs) with ⟨w, hw, -⟩ | ⟨-, hname⟩
  · cases reserving_iff.mp hreserving w hw
  · exact hname

theorem lexeme?_digits {ds : List Char} (hds : ds ≠ []) (hdigits : ∀ d ∈ ds, d.isDigit) :
    lexeme? (ds ++ more) = some (numeral (ds ++ more)) := by
  cases ds with
  | nil => exact absurd rfl hds
  | cons d ds => exact lexeme?_digit (hdigits d List.mem_cons_self)

theorem gives_whole {ds : List Char} (hds : ds ≠ []) (hdigits : ∀ d ∈ ds, d.isDigit) :
    Gives (ds ++ more) (.token (.number (Decimal.ofNumeral ds [])) ds) := by
  refine ⟨_, lexeme?_digits hds hdigits, ?_⟩
  rw [numeral_eq, numeralParts_fst, List.takeWhile_append_of_pos hdigits]
  by_cases hnone : (numeralParts (ds ++ more)).2 = []
  · rw [hnone]
    refine ⟨List.prefix_append ds _, fun hsame _ => ?_⟩
    have hds : ds ++ more.takeWhile Char.isDigit = ds := hsame
    show Lexeme.token _ (ds ++ more.takeWhile Char.isDigit) = _
    rw [hds]
  · rw [if_neg (by simpa using hnone), List.append_assoc]
    refine ⟨List.prefix_append ds _, fun hsame _ => ?_⟩
    have hlength := congrArg List.length hsame
    simp only [Lexeme.chars, List.length_append, List.length_cons] at hlength
    omega

theorem gives_fraction {ds es : List Char} (hds : ds ≠ []) (hdigits : ∀ d ∈ ds, d.isDigit)
    (hes : es ≠ []) (hfraction : ∀ e ∈ es, e.isDigit) :
    Gives (ds ++ '.' :: es ++ more)
      (.token (.number (Decimal.ofNumeral ds es)) (ds ++ '.' :: es)) := by
  have happend : ds ++ '.' :: es ++ more = ds ++ '.' :: (es ++ more) := by simp
  rw [happend]
  refine ⟨_, lexeme?_digits hds hdigits, ?_⟩
  rw [numeral_eq, numeralParts_point hdigits]
  dsimp only
  rw [List.takeWhile_append_of_pos hfraction, if_neg (by simp [hes])]
  refine ⟨?_, fun hsame _ => ?_⟩
  · show ds ++ '.' :: es <+: ds ++ '.' :: (es ++ _)
    exact (List.prefix_append_right_inj ds).mpr (List.prefix_append ('.' :: es) _)
  · have hsame : ds ++ '.' :: (es ++ more.takeWhile Char.isDigit) = ds ++ '.' :: es := hsame
    obtain ⟨-, hes⟩ := List.cons.inj (List.append_cancel_left hsame)
    rw [hes]

theorem gives_string {s : List Char} (hquote : IsQuote quote) (h : Quotes quote body s) :
    Gives (quote :: body ++ [quote] ++ more)
      (.token (.string (String.ofList s)) (quote :: body ++ [quote])) := by
  have hbody := stringBody?_quotes hquote h more
  refine ⟨_, ?_, List.prefix_rfl, fun _ _ => rfl⟩
  rw [List.append_assoc, List.cons_append, List.singleton_append, lexeme?_quote hquote, hbody,
    Option.map_some, unescape_quotes h]

theorem gives_symbol (s : Symbol) : Gives (s.spelling :: more) (.token (.symbol s) [s.spelling]) := by
  by_cases hcomment : s = .slash ∧ more.head? = some '/'
  · obtain ⟨rfl, hhead⟩ := hcomment
    cases more with
    | nil => cases hhead
    | cons d more =>
      cases hhead
      exact ⟨_, lexeme?_comment, List.prefix_append ['/'] _, fun hsame => by cases hsame⟩
  · exact ⟨_, lexeme?_symbol s fun hslash hhead => hcomment ⟨hslash, hhead⟩, List.prefix_rfl,
      fun _ _ => rfl⟩

/-- Where a lexeme stands, it is read, or a longer one that starts with it. -/
theorem IsLexeme.read (h : IsLexeme l) (more : List Char) : Gives (l.chars ++ more) l := by
  cases h with
  | @blanks cs hne hcs =>
    cases cs with
    | nil => exact absurd rfl hne
    | cons c cs =>
      exact gives_blanks (isBlank_iff.mpr (hcs c List.mem_cons_self)) fun d hd =>
        isBlank_iff.mpr (hcs d (List.mem_cons_of_mem _ hd))
  | comment hcs => exact gives_comment hcs
  | @word _ w hw =>
    rw [mem_reservedWords.mp hw]
    exact gives_word w
  | identifier hc hcs =>
    exact gives_identifier (isWordStart_iff.mpr hc) fun d hd => isWordPart_iff.mpr (hcs d hd)
  | whole hds hdigits => exact gives_whole hds hdigits
  | fraction hds hdigits hes hfraction => exact gives_fraction hds hdigits hes hfraction
  | string hquote hs => exact gives_string hquote hs
  | @symbol c s hs =>
    rw [mem_symbols.mp hs]
    exact gives_symbol s

/-! ## The longest lexeme -/

theorem Longest.of_lexeme? (h : lexeme? cs = some l) : Longest cs l := by
  obtain ⟨hlexeme, hhere⟩ := IsLexeme.of_lexeme? h
  have hread : ∀ other, IsLexeme other → other.chars <+: cs → other.chars <+: l.chars ∧
      (l.chars = other.chars → Reserving other → l = other) := by
    rintro other hother ⟨more, rfl⟩
    obtain ⟨found, hfound, hbegins, hsame⟩ := hother.read more
    cases hfound.symm.trans h
    exact ⟨hbegins, hsame⟩
  refine ⟨hlexeme, hhere, fun other hother hbegins => (hread other hother hbegins).1.length_le, ?_⟩
  refine reserving_iff.mpr fun w hw => ?_
  have hword := hread (.token (.word w) w.spelling.toList) (.reserved w) (by
    show w.spelling.toList <+: cs
    rw [← hw]
    exact hhere)
  have hsame := hword.2 hw (reserving_word w)
  rw [hsame]
  rfl

theorem lexeme?_eq_some : lexeme? cs = some l ↔ Longest cs l := by
  refine ⟨Longest.of_lexeme?, fun h => ?_⟩
  obtain ⟨more, rfl⟩ := h.here
  obtain ⟨found, hfound, hbegins, hsame⟩ := h.lexeme.read more
  have hfoundHere := IsLexeme.of_lexeme? hfound
  have hlength := h.longest found hfoundHere.1 hfoundHere.2
  rw [hfound, hsame (hbegins.eq_of_length_le hlength).symm h.reserving]

theorem lexeme?_eq_none : lexeme? cs = none ↔ ∀ l, IsLexeme l → ¬ l.chars <+: cs := by
  refine ⟨?_, fun h => ?_⟩
  · rintro hnone l hl ⟨more, rfl⟩
    obtain ⟨found, hfound, -⟩ := hl.read more
    cases hnone.symm.trans hfound
  · refine Option.eq_none_iff_forall_ne_some.mpr fun l hl => ?_
    obtain ⟨hlexeme, hhere⟩ := IsLexeme.of_lexeme? hl
    exact h l hlexeme hhere

end ModuleLoader.Script
