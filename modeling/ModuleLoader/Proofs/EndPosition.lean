import ModuleLoader.Proofs.Scanning
import ModuleLoader.Script.Error

/-!
# The position of the end of a text

Two ways of counting give the end of a source text a position. A position that is carried along from
the first character to the last one ends behind all of them. Splitting the text into lines gives the
place behind the last line instead. A newline at the end of the text opens no line, so the two part
there.

Results:
1. `pieces_eq`, `pieces_newline`: the pieces between the newlines of a text, and the last of them.
2. `endPosition_of_open`, `endPosition_of_newline`, `endPosition_behind`: the place behind the last
   line.
3. `end_position`: when it is the end of the text, and where it is otherwise.
4. `end_before_newline`: a text whose end is told a line too early.
-/

namespace ModuleLoader.Text

open Script (behind advanceAll_behind)

variable {cs before : List Char}

/-! ## Pieces -/

/-- What stands behind the last newline. -/
def lastPiece (cs : List Char) : List Char := (cs.reverse.takeWhile (· ≠ '\n')).reverse

theorem behind_eq (cs : List Char) :
    behind cs = ⟨1 + cs.count '\n', 1 + (lastPiece cs).length⟩ := by
  unfold behind lastPiece
  rw [List.length_reverse]

theorem takeWhile_reverse_of_not_mem (h : '\n' ∉ cs) (more : List Char) :
    (cs.reverse ++ more).takeWhile (· ≠ '\n') = cs.reverse ++ more.takeWhile (· ≠ '\n') := by
  refine List.takeWhile_append_of_pos fun c hc => decide_eq_true fun heq => ?_
  exact h (heq ▸ List.mem_reverse.mp hc)

theorem lastPiece_of_not_mem (h : '\n' ∉ cs) : lastPiece cs = cs := by
  unfold lastPiece
  have hall := takeWhile_reverse_of_not_mem h []
  rw [List.append_nil, List.takeWhile_nil, List.append_nil] at hall
  rw [hall, List.reverse_reverse]

theorem lastPiece_newline (before : List Char) (h : '\n' ∉ cs) :
    lastPiece (before ++ '\n' :: cs) = cs := by
  unfold lastPiece
  rw [List.reverse_append, List.reverse_cons, List.append_assoc, takeWhile_reverse_of_not_mem h]
  simp

/-- A text is its last piece, or that stands behind a newline. -/
theorem lastPiece_cases (cs : List Char) :
    cs = lastPiece cs ∨ ∃ before, cs = before ++ '\n' :: lastPiece cs := by
  by_cases hin : '\n' ∈ cs
  · obtain ⟨after, before, hsplit, hafter⟩ := List.eq_append_cons_of_mem (List.mem_reverse.mpr hin)
    have hcs : cs = before.reverse ++ '\n' :: after.reverse := by
      rw [← List.reverse_reverse cs, hsplit, List.reverse_append, List.reverse_cons,
        List.append_assoc]
      rfl
    have hlast : lastPiece cs = after.reverse := by
      rw [hcs]
      exact lastPiece_newline _ fun h => hafter (List.mem_reverse.mp h)
    exact .inr ⟨before.reverse, hlast ▸ hcs⟩
  · exact .inl (lastPiece_of_not_mem hin).symm

theorem not_mem_lastPiece (cs : List Char) : '\n' ∉ lastPiece cs := by
  unfold lastPiece
  intro hin
  have hne := List.mem_takeWhile_imp (List.mem_reverse.mp hin)
  simp at hne

theorem lastPiece_cons (h : '\n' ∈ cs) (c : Char) : lastPiece (c :: cs) = lastPiece cs := by
  rcases lastPiece_cases cs with hall | ⟨before, hbefore⟩
  · exact absurd (hall ▸ h) (not_mem_lastPiece cs)
  · rw [hbefore, ← List.cons_append, lastPiece_newline _ (not_mem_lastPiece cs), ← hbefore]

theorem lastPiece_snoc {c : Char} (h : c ≠ '\n') (before : List Char) :
    lastPiece (before ++ [c]) = lastPiece before ++ [c] := by
  unfold lastPiece
  simp [h]

/-- There is one piece before each newline, and one behind the last of them. -/
theorem pieces_eq (cs : List Char) :
    ∃ ended, pieces cs = ended ++ [lastPiece cs] ∧ ended.length = cs.count '\n' := by
  induction cs with
  | nil => exact ⟨[], rfl, rfl⟩
  | cons c cs ih =>
    obtain ⟨ended, hpieces, hlength⟩ := ih
    unfold pieces
    rw [hpieces]
    by_cases hin : '\n' ∈ cs
    · rw [lastPiece_cons hin]
      have hpos : 0 < ended.length := hlength ▸ List.count_pos_iff.mpr hin
      obtain ⟨piece, more, rfl⟩ := List.exists_cons_of_length_pos hpos
      by_cases hline : c = '\n'
      · subst hline
        exact ⟨[] :: piece :: more, rfl, by rw [List.count_cons_self, ← hlength]; rfl⟩
      · refine ⟨(c :: piece) :: more, if_neg hline, ?_⟩
        rw [List.count_cons_of_ne hline, ← hlength]
        rfl
    · have hnone : ended = [] := by
        rw [← List.length_eq_zero_iff, hlength]
        exact List.count_eq_zero_of_not_mem hin
      rw [hnone, lastPiece_of_not_mem hin]
      by_cases hline : c = '\n'
      · subst hline
        refine ⟨[[]], ?_, by rw [List.count_cons_self, List.count_eq_zero_of_not_mem hin]; rfl⟩
        rw [if_pos rfl, show lastPiece ('\n' :: cs) = cs from lastPiece_newline [] hin]
        rfl
      · have hout : '\n' ∉ c :: cs := List.not_mem_cons_of_ne_of_not_mem (Ne.symm hline) hin
        refine ⟨[], ?_, (List.count_eq_zero_of_not_mem hout).symm⟩
        rw [if_neg hline, lastPiece_of_not_mem hout]
        rfl

theorem pieces_newline (before : List Char) : pieces (before ++ ['\n']) = pieces before ++ [[]] := by
  induction before with
  | nil => rfl
  | cons c before ih =>
    rw [List.cons_append, pieces, pieces, ih]
    by_cases hline : c = '\n'
    · rw [if_pos hline, if_pos hline]
      rfl
    · rw [if_neg hline, if_neg hline]
      obtain ⟨ended, hpieces, -⟩ := pieces_eq before
      rw [hpieces]
      cases ended <;> rfl

/-! ## The place behind the last line -/

/-- Where the last line is open it ends with the text. -/
theorem endPosition_of_open (h : cs.getLast? ≠ some '\n') : endPosition cs = behind cs := by
  obtain ⟨ended, hpieces, hlength⟩ := pieces_eq cs
  cases hlast : lastPiece cs with
  | nil =>
    rcases lastPiece_cases cs with hall | ⟨before, hbefore⟩
    · rw [hall, hlast]
      rfl
    · rw [hbefore, hlast, List.getLast?_concat] at h
      exact absurd rfl h
  | cons c piece =>
    have hlines : lines cs = ended.map dropCarriageReturn ++ [lastPiece cs] := by
      unfold lines
      rw [hpieces, hlast]
      simp
    unfold endPosition
    rw [hlines, List.getLast?_concat, behind_eq]
    simp [hlength, Nat.add_comm]

theorem getLast?_lastPiece {c : Char} (h : (lastPiece cs).getLast? = some c) :
    cs.getLast? = some c := by
  rcases lastPiece_cases cs with hall | ⟨before, hbefore⟩
  · rwa [hall]
  · rw [hbefore, List.getLast?_append, List.getLast?_cons, h]
    rfl

theorem behind_dropCarriageReturn (before : List Char) : behind (dropCarriageReturn before) =
    ⟨1 + before.count '\n', 1 + (dropCarriageReturn (lastPiece before)).length⟩ := by
  by_cases hreturn : before.getLast? = some '\r'
  · obtain ⟨front, rfl⟩ := List.getLast?_eq_some_iff.mp hreturn
    have hdrop : ∀ cs : List Char, dropCarriageReturn (cs ++ ['\r']) = cs := by
      intro cs
      unfold dropCarriageReturn
      simp
    rw [hdrop, lastPiece_snoc (by decide), hdrop, behind_eq, List.count_append]
    rfl
  · have hkept : dropCarriageReturn (lastPiece before) = lastPiece before :=
      if_neg fun hlast => hreturn (getLast?_lastPiece hlast)
    rw [hkept, ← behind_eq]
    unfold dropCarriageReturn
    rw [if_neg hreturn]

/-- A newline at the end opens no line. -/
theorem endPosition_of_newline (before : List Char) :
    endPosition (before ++ ['\n']) = behind (dropCarriageReturn before) := by
  obtain ⟨ended, hpieces, hlength⟩ := pieces_eq before
  have hlines : lines (before ++ ['\n']) =
      ended.map dropCarriageReturn ++ [dropCarriageReturn (lastPiece before)] := by
    unfold lines
    rw [pieces_newline, hpieces]
    simp
  unfold endPosition
  rw [hlines, List.getLast?_concat, behind_dropCarriageReturn]
  simp [hlength, Nat.add_comm]

end ModuleLoader.Text

namespace ModuleLoader.Script

open Text (endPosition dropCarriageReturn endPosition_of_open endPosition_of_newline)

/-- A position that is carried along from the first character of a text to the last one counts the
newlines, and the characters behind the last of them.
* The end of the input has that position exactly if the text does not end in a newline.
* If it does, the end of the input is told to be right before that newline, and before the carriage
  return that belongs to it.
* An error at the end of the input is told there. -/
theorem end_position (source : String) :
    Position.start.advanceAll source.toList =
      ⟨1 + source.toList.count '\n', 1 + (source.toList.reverse.takeWhile (· ≠ '\n')).length⟩ ∧
    (endPosition source.toList = Position.start.advanceAll source.toList ↔
      source.toList.getLast? ≠ some '\n') ∧
    (∀ before, source.toList = before ++ ['\n'] →
      endPosition source.toList = Position.start.advanceAll (dropCarriageReturn before)) ∧
    ∀ position expected, parse source = .error (.unexpected position expected none) →
      position = endPosition source.toList := by
  have hcarried : ∀ cs, Position.start.advanceAll cs = behind cs := advanceAll_behind []
  simp only [hcarried]
  refine ⟨rfl, ⟨fun hsame hlast => ?_, endPosition_of_open⟩, fun before hbefore => ?_,
    fun position expected herror => ?_⟩
  · obtain ⟨before, hbefore⟩ := List.getLast?_eq_some_iff.mp hlast
    rw [hbefore, endPosition_of_newline] at hsame
    -- the newline at the end is counted on one side only
    have hcount : (dropCarriageReturn before).count '\n' ≤ before.count '\n' := by
      unfold dropCarriageReturn
      split
      · exact (List.dropLast_sublist before).count_le '\n'
      · exact Nat.le_refl _
    have hline := congrArg Position.line hsame
    simp only [behind, List.count_append, List.count_singleton_self] at hline
    omega
  · rw [hbefore, endPosition_of_newline]
  · unfold parse at herror
    split at herror
    next => cases herror
    next ts hts =>
      split at herror
      next failure hfailure =>
        unfold Failure.toError at herror
        split at herror
        next => cases herror; rfl
        next => cases herror
      next => cases herror

/-- The three tokens of `let x =`, behind which an expression is missing. -/
def unfinished : Tokens :=
  [⟨.word .letWord, 0, 3, 1, 1⟩, ⟨.identifier "x", 4, 5, 1, 5⟩, ⟨.symbol .equal, 6, 7, 1, 7⟩]

theorem program_unfinished : program unfinished = .error ⟨.expression, []⟩ := by
  simp [unfinished, program, statements, statement, declaration, name, initializer, symbol,
    expression, term, unary, primary, bind, Except.bind, Except.map]

/-- The text ends at the beginning of its second line, and the error for what is missing there is
told at the end of the first one. -/
theorem end_before_newline :
    Position.start.advanceAll "let x =\n".toList = ⟨2, 1⟩ ∧
    endPosition "let x =\n".toList = ⟨1, 8⟩ ∧
    parse "let x =\n" = .error (.unexpected ⟨1, 8⟩ .expression none) := by
  have htokens : tokens "let x =\n" = .ok unfinished := by decide +kernel
  have hend : endPosition "let x =\n".toList = ⟨1, 8⟩ := by decide
  refine ⟨by decide, hend, ?_⟩
  rw [parse_eq htokens, program_unfinished]
  simp only [Except.mapError, Failure.toError, hend]

end ModuleLoader.Script
