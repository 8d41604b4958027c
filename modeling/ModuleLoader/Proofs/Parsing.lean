import ModuleLoader.Proofs.Grammar

/-!
# Recursive descent against the grammar

A parsing function that succeeds has read tokens that derive its result, and tokens that derive a
result are read, provided that what stands behind them cannot go on with it: behind a call no
opening parenthesis, behind a term also no `*` and `/`, behind an expression also no `+` and `-`.

Results:
1. `derives_expression` with its companions, and `derives_statement`: what is read derives. The
   induction follows the parser, on the number of tokens.
2. `IsExpression.reads` with its companions, and `IsStatement.reads`: what derives is read. The
   induction is on the derivation.
3. `parse_eq_ok`, `IsProgram.unique`: a text has a program if and only if its tokens derive one,
   and the tree of a token list is unique.
4. `IsStatement.assigns`: a statement that starts with a name and `=` is an assignment in every
   derivation, because no expression goes on with `=` (`IsExpression.not_assignment`).
5. `parse_derives`: these together.
-/

namespace ModuleLoader.Script

/-! ## Results that leave a rest -/

/-- The function reads `a` and leaves `rest`. -/
def Reads {α : Type} {n : Nat} (p : Parse α n) (a : α) (rest : Tokens) : Prop :=
  ∃ fits, p = .ok ⟨a, rest, fits⟩

section Reads
variable {α β : Type} {m n : Nat} {a : α} {rest : Tokens}

theorem Reads.lt {p : Parse α n} (h : Reads p a rest) : rest.length < n := h.1

theorem Reads.unique {p : Parse α n} {a' : α} {rest' : Tokens} (h : Reads p a rest)
    (h' : Reads p a' rest') : a = a' ∧ rest = rest' := by
  obtain ⟨fits, rfl⟩ := h
  obtain ⟨fits', h'⟩ := h'
  cases h'
  exact ⟨rfl, rfl⟩

@[simp] theorem reads_ok {r : Reading α n} :
    Reads (.ok r) a rest ↔ a = r.value ∧ rest = r.rest := by
  constructor
  · rintro ⟨fits, h⟩
    cases h
    exact ⟨rfl, rfl⟩
  · rintro ⟨rfl, rfl⟩
    exact ⟨r.fits, rfl⟩

@[simp] theorem reads_pure {r : Reading α n} :
    Reads (pure r) a rest ↔ a = r.value ∧ rest = r.rest := reads_ok

@[simp] theorem reads_error {f : Failure} : ¬ Reads (.error f : Parse α n) a rest := by
  rintro ⟨_, h⟩
  cases h

/-- One function after another. -/
theorem reads_bind {p : Parse α m} {f : Reading α m → Parse β n} {b : β} :
    Reads (p >>= f) b rest ↔
      ∃ a mid, ∃ h : Reads p a mid, Reads (f ⟨a, mid, h.lt⟩) b rest := by
  constructor
  · rintro ⟨fits, h⟩
    match p, h with
    | .ok r, h => exact ⟨r.value, r.rest, ⟨r.fits, rfl⟩, fits, h⟩
  · rintro ⟨a, mid, ⟨fits, rfl⟩, h⟩
    exact h

theorem reads_map {p : Parse α m} {f : Reading α m → Reading β n} {b : β} :
    Reads (f <$> p) b rest ↔
      ∃ a mid, ∃ h : Reads p a mid, b = (f ⟨a, mid, h.lt⟩).value ∧ rest = (f ⟨a, mid, h.lt⟩).rest := by
  rw [map_eq_pure_bind, reads_bind]
  simp only [reads_pure]

end Reads

/-! ## Single tokens -/

theorem startsWith_iff {s : Symbol} {ts : Tokens} :
    startsWith s ts = true ↔ ∃ span more, ts = ⟨.symbol s, span⟩ :: more := by
  unfold startsWith
  split
  next t span more => simp [eq_comm]
  next h =>
    simp only [Bool.false_eq_true, false_iff]
    rintro ⟨span, more, rfl⟩
    exact h _ _ _ rfl

theorem startsWith_eq_false {s : Symbol} {ts : Tokens}
    (h : ∀ span more, ts = ⟨.symbol s, span⟩ :: more → False) : startsWith s ts = false := by
  rw [Bool.eq_false_iff]
  intro hstarts
  obtain ⟨span, more, hts⟩ := startsWith_iff.1 hstarts
  exact h span more hts

theorem reads_symbol {s : Symbol} {ts rest : Tokens} {span : Span} :
    Reads (symbol s ts) span rest ↔ ts = ⟨.symbol s, span⟩ :: rest := by
  unfold symbol
  split
  next t other more =>
    split
    next h => simp [h, eq_comm]
    next h => simp [h]
  next h =>
    simp only [reads_error, false_iff]
    rintro rfl
    exact h _ _ _ rfl

theorem reads_word {w : Word} {ts rest : Tokens} {span : Span} :
    Reads (word w ts) span rest ↔ ts = ⟨.word w, span⟩ :: rest := by
  unfold word
  split
  next t other more =>
    split
    next h => simp [h, eq_comm]
    next h => simp [h]
  next h =>
    simp only [reads_error, false_iff]
    rintro rfl
    exact h _ _ _ rfl

theorem reads_name {ts rest : Tokens} {n : String} {span : Span} :
    Reads (name ts) (n, span) rest ↔ ts = ⟨.identifier n, span⟩ :: rest := by
  unfold name
  split
  next => simp [eq_comm, and_assoc]
  next h =>
    simp only [reads_error, false_iff]
    rintro rfl
    exact h _ _ _ rfl

theorem reads_specifier {ts rest : Tokens} {s : String} :
    Reads (specifier ts) s rest ↔ ∃ span, ts = ⟨.string s, span⟩ :: rest := by
  unfold specifier
  split
  next => simp [eq_comm]
  next h =>
    simp only [reads_error, false_iff]
    rintro ⟨span, rfl⟩
    exact h _ _ _ rfl

theorem additive?_eq_some {ts : Tokens} {op : Operator} :
    additive? ts = some op ↔
      op ∈ [.add, .subtract] ∧ ∃ span more, ts = ⟨.symbol op.symbol, span⟩ :: more := by
  unfold additive?
  split
  next => cases op <;> simp [Operator.symbol]
  next => cases op <;> simp [Operator.symbol]
  next hplus hminus =>
    simp only [reduceCtorEq, List.mem_cons, List.not_mem_nil, or_false, false_iff, not_and]
    rintro (rfl | rfl) ⟨span, more, rfl⟩
    · exact hplus _ _ rfl
    · exact hminus _ _ rfl

theorem multiplicative?_eq_some {ts : Tokens} {op : Operator} :
    multiplicative? ts = some op ↔
      op ∈ [.multiply, .divide] ∧ ∃ span more, ts = ⟨.symbol op.symbol, span⟩ :: more := by
  unfold multiplicative?
  split
  next => cases op <;> simp [Operator.symbol]
  next => cases op <;> simp [Operator.symbol]
  next hstar hslash =>
    simp only [reduceCtorEq, List.mem_cons, List.not_mem_nil, or_false, false_iff, not_and]
    rintro (rfl | rfl) ⟨span, more, rfl⟩
    · exact hstar _ _ rfl
    · exact hslash _ _ rfl

/-! ## What each function for expressions reads -/

section Equations
variable {ts more rest : Tokens} {left callee e : Expression} {es : List Expression}
  {op : Operator} {span : Span}

theorem reads_expression : Reads (expression ts) e rest ↔
    ∃ left mid, Reads (term ts) left mid ∧ Reads (sumTail left mid) e rest := by
  rw [expression]
  simp [reads_bind, reads_map, Reading.widen]

theorem reads_sumTail_none (h : additive? ts = none) :
    Reads (sumTail left ts) e rest ↔ e = left ∧ rest = ts := by
  rw [sumTail]
  simp [h]

theorem reads_sumTail_more (h : op ∈ [.add, .subtract]) :
    Reads (sumTail left (⟨.symbol op.symbol, span⟩ :: more)) e rest ↔
      ∃ right mid, Reads (term more) right mid ∧
        Reads (sumTail (.binary op left right) mid) e rest := by
  rw [sumTail]
  have hop : additive? (⟨.symbol op.symbol, span⟩ :: more) = some op :=
    additive?_eq_some.2 ⟨h, _, _, rfl⟩
  simp [hop, reads_bind, reads_map, Reading.widen]

theorem reads_term : Reads (term ts) e rest ↔
    ∃ left mid, Reads (unary ts) left mid ∧ Reads (productTail left mid) e rest := by
  rw [term]
  simp [reads_bind, reads_map, Reading.widen]

theorem reads_productTail_none (h : multiplicative? ts = none) :
    Reads (productTail left ts) e rest ↔ e = left ∧ rest = ts := by
  rw [productTail]
  simp [h]

theorem reads_productTail_more (h : op ∈ [.multiply, .divide]) :
    Reads (productTail left (⟨.symbol op.symbol, span⟩ :: more)) e rest ↔
      ∃ right mid, Reads (unary more) right mid ∧
        Reads (productTail (.binary op left right) mid) e rest := by
  rw [productTail]
  have hop : multiplicative? (⟨.symbol op.symbol, span⟩ :: more) = some op :=
    multiplicative?_eq_some.2 ⟨h, _, _, rfl⟩
  simp [hop, reads_bind, reads_map, Reading.widen]

theorem reads_unary_minus : Reads (unary (⟨.symbol .minus, span⟩ :: more)) e rest ↔
    ∃ operand, Reads (unary more) operand rest ∧ e = .negate operand := by
  rw [unary]
  simp [reads_map, Reading.widen, Reading.map, and_comm]

theorem reads_unary_call (h : startsWith .minus ts = false) : Reads (unary ts) e rest ↔
    ∃ callee mid, Reads (primary ts) callee mid ∧ Reads (callTail callee mid) e rest := by
  rw [unary.eq_def]
  split
  next => simp [startsWith] at h
  next => simp [reads_bind, reads_map, Reading.widen]

theorem reads_callTail_none (h : startsWith .leftParen ts = false) :
    Reads (callTail callee ts) e rest ↔ e = callee ∧ rest = ts := by
  rw [callTail.eq_def]
  split
  next => simp [startsWith] at h
  next => simp

theorem reads_callTail_more :
    Reads (callTail callee (⟨.symbol .leftParen, span⟩ :: more)) e rest ↔
      ∃ args closed behind,
        Reads (arguments more) args (⟨.symbol .rightParen, closed⟩ :: behind) ∧
        Reads (callTail (.call callee args span) behind) e rest := by
  rw [callTail]
  simp only [reads_bind, reads_symbol, bind_pure_comp, reads_map, Reading.widen]
  constructor
  · rintro ⟨args, mid, hargs, closed, behind, rfl, call, _, hcall, rfl, rfl⟩
    exact ⟨args, closed, behind, hargs, hcall⟩
  · rintro ⟨args, closed, behind, hargs, hcall⟩
    exact ⟨args, _, hargs, closed, behind, rfl, e, rest, hcall, rfl, rfl⟩

theorem reads_arguments_none (h : startsWith .rightParen ts = true) :
    Reads (arguments ts) es rest ↔ es = [] ∧ rest = ts := by
  rw [arguments]
  simp [h]

theorem reads_arguments_some (h : startsWith .rightParen ts = false) :
    Reads (arguments ts) es rest ↔ ∃ e mid, Reads (expression ts) e mid ∧
      ((startsWith .comma mid = false ∧ es = [e] ∧ rest = mid) ∨
       ∃ span more es', mid = ⟨.symbol .comma, span⟩ :: more ∧ Reads (arguments more) es' rest ∧
         es = e :: es') := by
  rw [arguments]
  simp only [h, Bool.false_eq_true, if_false, reads_bind]
  refine exists_congr fun e => exists_congr fun mid => ⟨?_, ?_⟩
  · rintro ⟨he, hmore⟩
    refine ⟨he, ?_⟩
    split at hmore
    next span more =>
      obtain ⟨es', rfl, hes⟩ := by simpa [reads_map, Reading.widen, Reading.map] using hmore
      exact .inr ⟨span, more, es', rfl, hes, rfl⟩
    next hcomma => exact .inl ⟨startsWith_eq_false hcomma, by simpa using hmore⟩
  · rintro ⟨he, ⟨hcomma, rfl, rfl⟩ | ⟨span, more, es', rfl, hes, rfl⟩⟩
    · refine ⟨he, ?_⟩
      split
      next => simp [startsWith] at hcomma
      next => simp
    · exact ⟨he, by simpa [reads_map, Reading.widen, Reading.map] using hes⟩

theorem reads_primary_group :
    Reads (primary (⟨.symbol .leftParen, span⟩ :: more)) e rest ↔
      ∃ closed, Reads (expression more) e (⟨.symbol .rightParen, closed⟩ :: rest) := by
  rw [primary]
  simp only [reads_bind, bind_pure_comp, reads_map, reads_symbol]
  constructor
  · rintro ⟨inner, mid, hinner, closed, behind, rfl, rfl, rfl⟩
    exact ⟨closed, hinner⟩
  · rintro ⟨closed, hinner⟩
    exact ⟨e, _, hinner, closed, rest, rfl, rfl, rfl⟩

end Equations

/-! ## What is read derives -/

mutual

theorem derives_expression {ts rest : Tokens} {e : Expression} (h : Reads (expression ts) e rest) :
    ∃ front, ts = front ++ rest ∧ IsExpression front e := by
  obtain ⟨left, mid, hleft, hsum⟩ := reads_expression.1 h
  have hlt := hleft.lt
  obtain ⟨first, rfl, hfirst⟩ := derives_term hleft
  obtain ⟨more, es, rfl, hmore, rfl⟩ := derives_sumTail hsum
  exact ⟨first ++ more, by simp, .sum hfirst hmore⟩
termination_by (ts.length, 5)

theorem derives_sumTail {left : Expression} {ts rest : Tokens} {e : Expression}
    (h : Reads (sumTail left ts) e rest) :
    ∃ front es, ts = front ++ rest ∧ Chain [.add, .subtract] IsTerm front es ∧ e = left.joined es := by
  cases hop : additive? ts with
  | none =>
    obtain ⟨rfl, rfl⟩ := (reads_sumTail_none hop).1 h
    exact ⟨[], [], rfl, .none, rfl⟩
  | some op =>
    obtain ⟨hmem, span, more, rfl⟩ := additive?_eq_some.1 hop
    obtain ⟨right, mid, hright, hsum⟩ := (reads_sumTail_more hmem).1 h
    have hlt := hright.lt
    obtain ⟨first, rfl, hfirst⟩ := derives_term hright
    obtain ⟨back, es, rfl, hback, rfl⟩ := derives_sumTail hsum
    exact ⟨⟨.symbol op.symbol, span⟩ :: (first ++ back), (op, right) :: es, by simp,
      .more hmem hfirst hback, rfl⟩
termination_by (ts.length, 4)

theorem derives_term {ts rest : Tokens} {e : Expression} (h : Reads (term ts) e rest) :
    ∃ front, ts = front ++ rest ∧ IsTerm front e := by
  obtain ⟨left, mid, hleft, hproduct⟩ := reads_term.1 h
  have hlt := hleft.lt
  obtain ⟨first, rfl, hfirst⟩ := derives_unary hleft
  obtain ⟨more, es, rfl, hmore, rfl⟩ := derives_productTail hproduct
  exact ⟨first ++ more, by simp, .product hfirst hmore⟩
termination_by (ts.length, 3)

theorem derives_productTail {left : Expression} {ts rest : Tokens} {e : Expression}
    (h : Reads (productTail left ts) e rest) :
    ∃ front es, ts = front ++ rest ∧ Chain [.multiply, .divide] IsUnary front es ∧
      e = left.joined es := by
  cases hop : multiplicative? ts with
  | none =>
    obtain ⟨rfl, rfl⟩ := (reads_productTail_none hop).1 h
    exact ⟨[], [], rfl, .none, rfl⟩
  | some op =>
    obtain ⟨hmem, span, more, rfl⟩ := multiplicative?_eq_some.1 hop
    obtain ⟨right, mid, hright, hproduct⟩ := (reads_productTail_more hmem).1 h
    have hlt := hright.lt
    obtain ⟨first, rfl, hfirst⟩ := derives_unary hright
    obtain ⟨back, es, rfl, hback, rfl⟩ := derives_productTail hproduct
    exact ⟨⟨.symbol op.symbol, span⟩ :: (first ++ back), (op, right) :: es, by simp,
      .more hmem hfirst hback, rfl⟩
termination_by (ts.length, 2)

theorem derives_unary {ts rest : Tokens} {e : Expression} (h : Reads (unary ts) e rest) :
    ∃ front, ts = front ++ rest ∧ IsUnary front e := by
  cases hminus : startsWith .minus ts with
  | true =>
    obtain ⟨span, more, rfl⟩ := startsWith_iff.1 hminus
    obtain ⟨operand, hoperand, rfl⟩ := reads_unary_minus.1 h
    obtain ⟨front, rfl, hfront⟩ := derives_unary hoperand
    exact ⟨_, rfl, .negate hfront⟩
  | false =>
    obtain ⟨callee, mid, hcallee, hcalls⟩ := (reads_unary_call hminus).1 h
    have hlt := hcallee.lt
    obtain ⟨first, rfl, hfirst⟩ := derives_primary hcallee
    obtain ⟨more, calls, rfl, hmore, rfl⟩ := derives_callTail hcalls
    exact ⟨first ++ more, by simp, .call (.applied hfirst hmore)⟩
termination_by (ts.length, 2)

theorem derives_callTail {callee : Expression} {ts rest : Tokens} {e : Expression}
    (h : Reads (callTail callee ts) e rest) :
    ∃ front calls, ts = front ++ rest ∧ AreCalls front calls ∧ e = callee.called calls := by
  cases hparen : startsWith .leftParen ts with
  | false =>
    obtain ⟨rfl, rfl⟩ := (reads_callTail_none hparen).1 h
    exact ⟨[], [], rfl, .none, rfl⟩
  | true =>
    obtain ⟨span, more, rfl⟩ := startsWith_iff.1 hparen
    obtain ⟨args, closed, behind, hargs, hcalls⟩ := reads_callTail_more.1 h
    have hlt := hargs.lt
    obtain ⟨inner, rfl, hinner⟩ := derives_arguments hargs
    obtain ⟨back, calls, rfl, hback, rfl⟩ := derives_callTail hcalls
    exact ⟨⟨.symbol .leftParen, span⟩ :: (inner ++ ⟨.symbol .rightParen, closed⟩ :: back),
      (args, span) :: calls, by simp, .more hinner hback, rfl⟩
termination_by (ts.length, 1)

theorem derives_arguments {ts rest : Tokens} {es : List Expression}
    (h : Reads (arguments ts) es rest) : ∃ front, ts = front ++ rest ∧ AreArguments front es := by
  cases hparen : startsWith .rightParen ts with
  | true =>
    obtain ⟨rfl, rfl⟩ := (reads_arguments_none hparen).1 h
    exact ⟨[], rfl, .none⟩
  | false =>
    obtain ⟨e, mid, he, ⟨-, rfl, rfl⟩ | ⟨span, more, es', rfl, hes, rfl⟩⟩ :=
      (reads_arguments_some hparen).1 h
    · obtain ⟨front, rfl, hfront⟩ := derives_expression he
      exact ⟨front, rfl, by simpa using AreArguments.some (.one hfront) .absent⟩
    · have hlt := he.lt
      obtain ⟨first, rfl, hfirst⟩ := derives_expression he
      obtain ⟨back, rfl, hback⟩ := derives_arguments hes
      cases hback with
      | none => exact ⟨first ++ [⟨.symbol .comma, span⟩], by simp, .some (.one hfirst) .present⟩
      | @some items ended _ hlist hended =>
        exact ⟨(first ++ ⟨.symbol .comma, span⟩ :: items) ++ ended, by simp,
          .some (.more hfirst hlist) hended⟩
termination_by (ts.length, 6)

theorem derives_primary {ts rest : Tokens} {e : Expression} (h : Reads (primary ts) e rest) :
    ∃ front, ts = front ++ rest ∧ IsPrimary front e := by
  cases hparen : startsWith .leftParen ts with
  | true =>
    obtain ⟨span, more, rfl⟩ := startsWith_iff.1 hparen
    obtain ⟨closed, hinner⟩ := reads_primary_group.1 h
    obtain ⟨front, rfl, hfront⟩ := derives_expression hinner
    exact ⟨⟨.symbol .leftParen, span⟩ :: (front ++ [⟨.symbol .rightParen, closed⟩]), by simp,
      .group hfront⟩
  | false =>
    rw [primary.eq_def] at h
    split at h
    next => obtain ⟨rfl, rfl⟩ := reads_pure.1 h; exact ⟨[_], rfl, .number⟩
    next => obtain ⟨rfl, rfl⟩ := reads_pure.1 h; exact ⟨[_], rfl, .string⟩
    next => obtain ⟨rfl, rfl⟩ := reads_pure.1 h; exact ⟨[_], rfl, .trueWord⟩
    next => obtain ⟨rfl, rfl⟩ := reads_pure.1 h; exact ⟨[_], rfl, .falseWord⟩
    next => obtain ⟨rfl, rfl⟩ := reads_pure.1 h; exact ⟨[_], rfl, .nullWord⟩
    next => obtain ⟨rfl, rfl⟩ := reads_pure.1 h; exact ⟨[_], rfl, .identifier⟩
    next => simp [startsWith] at hparen
    next => exact absurd h reads_error
termination_by (ts.length, 1)

end

/-! ## What derives is read -/

theorem IsPrimary.startsWith {ts : Tokens} {e : Expression} {s : Symbol} (h : IsPrimary ts e)
    (hs : s ≠ .leftParen) (rest : Tokens) : startsWith s (ts ++ rest) = false := by
  cases h <;> simp [Script.startsWith, hs.symm]

theorem IsUnary.startsWith {ts : Tokens} {e : Expression} {s : Symbol} (h : IsUnary ts e)
    (hs : s ≠ .leftParen) (hminus : s ≠ .minus) (rest : Tokens) :
    startsWith s (ts ++ rest) = false := by
  cases h with
  | negate => simp [Script.startsWith, hminus.symm]
  | call h =>
    obtain ⟨hfirst, -⟩ := h
    rw [List.append_assoc]
    exact hfirst.startsWith hs _

theorem IsExpression.startsWith {ts : Tokens} {e : Expression} {s : Symbol} (h : IsExpression ts e)
    (hs : s ≠ .leftParen) (hminus : s ≠ .minus) (rest : Tokens) :
    startsWith s (ts ++ rest) = false := by
  obtain ⟨⟨hfirst, -⟩, -⟩ := h
  simp only [List.append_assoc]
  exact hfirst.startsWith hs hminus _

/-- Nothing follows that a term could go on with. -/
structure EndsTerm (rest : Tokens) : Prop where
  call : startsWith .leftParen rest = false
  product : multiplicative? rest = none

/-- Nothing follows that an expression could go on with. -/
structure EndsSum (rest : Tokens) : Prop extends EndsTerm rest where
  sum : additive? rest = none

theorem endsSum_of_mem {s : Symbol} {span : Span} {rest : Tokens}
    (h : s ∈ [.comma, .semicolon, .rightParen, .equal]) : EndsSum (⟨.symbol s, span⟩ :: rest) := by
  simp only [List.mem_cons, List.not_mem_nil, or_false] at h
  rcases h with rfl | rfl | rfl | rfl <;> exact ⟨⟨rfl, rfl⟩, rfl⟩

theorem Chain.endsTerm {item : Tokens → Expression → Prop} {more rest : Tokens}
    {es : List (Operator × Expression)} (h : Chain [.add, .subtract] item more es)
    (hrest : EndsSum rest) : EndsTerm (more ++ rest) := by
  cases h with
  | none => exact hrest.toEndsTerm
  | more hop =>
    simp only [List.mem_cons, List.not_mem_nil, or_false] at hop
    rcases hop with rfl | rfl <;> exact ⟨rfl, rfl⟩

theorem Chain.endsCall {item : Tokens → Expression → Prop} {more rest : Tokens}
    {es : List (Operator × Expression)} (h : Chain [.multiply, .divide] item more es)
    (hrest : EndsTerm rest) : startsWith .leftParen (more ++ rest) = false := by
  cases h with
  | none => exact hrest.call
  | more hop =>
    simp only [List.mem_cons, List.not_mem_nil, or_false] at hop
    rcases hop with rfl | rfl <;> rfl

mutual

theorem IsExpression.reads {ts rest : Tokens} {e : Expression} (hrest : EndsSum rest) :
    IsExpression ts e → Reads (expression (ts ++ rest)) e rest
  | .sum hfirst hmore => by
    rw [List.append_assoc]
    exact reads_expression.2 ⟨_, _, hfirst.reads (hmore.endsTerm hrest), sum_reads _ hrest hmore⟩

theorem sum_reads {ts rest : Tokens} {es : List (Operator × Expression)} (left : Expression)
    (hrest : EndsSum rest) :
    Chain [.add, .subtract] IsTerm ts es → Reads (sumTail left (ts ++ rest)) (left.joined es) rest
  | .none => (reads_sumTail_none hrest.sum).2 ⟨rfl, rfl⟩
  | .more hop hfirst hmore => by
    rw [List.cons_append, List.append_assoc]
    exact (reads_sumTail_more hop).2
      ⟨_, _, hfirst.reads (hmore.endsTerm hrest), sum_reads _ hrest hmore⟩

theorem IsTerm.reads {ts rest : Tokens} {e : Expression} (hrest : EndsTerm rest) :
    IsTerm ts e → Reads (term (ts ++ rest)) e rest
  | .product hfirst hmore => by
    rw [List.append_assoc]
    exact reads_term.2 ⟨_, _, hfirst.reads (hmore.endsCall hrest), product_reads _ hrest hmore⟩

theorem product_reads {ts rest : Tokens} {es : List (Operator × Expression)} (left : Expression)
    (hrest : EndsTerm rest) :
    Chain [.multiply, .divide] IsUnary ts es →
      Reads (productTail left (ts ++ rest)) (left.joined es) rest
  | .none => (reads_productTail_none hrest.product).2 ⟨rfl, rfl⟩
  | .more hop hfirst hmore => by
    rw [List.cons_append, List.append_assoc]
    exact (reads_productTail_more hop).2
      ⟨_, _, hfirst.reads (hmore.endsCall hrest), product_reads _ hrest hmore⟩

theorem IsUnary.reads {ts rest : Tokens} {e : Expression}
    (hrest : startsWith .leftParen rest = false) : IsUnary ts e → Reads (unary (ts ++ rest)) e rest
  | .negate h => reads_unary_minus.2 ⟨_, h.reads hrest, rfl⟩
  | .call (.applied hfirst hmore) => by
    rw [List.append_assoc]
    exact (reads_unary_call (hfirst.startsWith (by decide) _)).2
      ⟨_, _, hfirst.reads _, calls_reads _ hrest hmore⟩

theorem calls_reads {ts rest : Tokens} {calls : List (List Expression × Span)}
    (callee : Expression) (hrest : startsWith .leftParen rest = false) :
    AreCalls ts calls → Reads (callTail callee (ts ++ rest)) (callee.called calls) rest
  | .none => (reads_callTail_none hrest).2 ⟨rfl, rfl⟩
  | .more hargs hmore => by
    rw [List.cons_append, List.append_assoc]
    exact reads_callTail_more.2 ⟨_, _, _, hargs.reads, calls_reads _ hrest hmore⟩

theorem AreArguments.reads {ts rest : Tokens} {es : List Expression} {closed : Span} :
    AreArguments ts es → Reads (arguments (ts ++ ⟨.symbol .rightParen, closed⟩ :: rest)) es
      (⟨.symbol .rightParen, closed⟩ :: rest)
  | .none => (reads_arguments_none rfl).2 ⟨rfl, rfl⟩
  | .some hlist hended => by
    rw [List.append_assoc]
    exact list_reads hended hlist

theorem list_reads {ts ended rest : Tokens} {es : List Expression} {closed : Span}
    (hended : OptionalComma ended) :
    Listed IsExpression ts es →
      Reads (arguments (ts ++ (ended ++ ⟨.symbol .rightParen, closed⟩ :: rest))) es
        (⟨.symbol .rightParen, closed⟩ :: rest)
  | .one he => by
    have hopen := he.startsWith (s := .rightParen) (by decide) (by decide)
    cases hended with
    | absent =>
      exact (reads_arguments_some (hopen _)).2
        ⟨_, _, he.reads (endsSum_of_mem (by simp)), .inl ⟨rfl, rfl, rfl⟩⟩
    | present =>
      exact (reads_arguments_some (hopen _)).2 ⟨_, _, he.reads (endsSum_of_mem (by simp)),
        .inr ⟨_, _, [], rfl, (reads_arguments_none rfl).2 ⟨rfl, rfl⟩, rfl⟩⟩
  | .more he hmore => by
    rw [List.append_assoc, List.cons_append]
    have hopen := he.startsWith (s := .rightParen) (by decide) (by decide)
    exact (reads_arguments_some (hopen _)).2 ⟨_, _, he.reads (endsSum_of_mem (by simp)),
      .inr ⟨_, _, _, rfl, list_reads hended hmore, rfl⟩⟩

theorem IsPrimary.reads {ts : Tokens} {e : Expression} (rest : Tokens) :
    IsPrimary ts e → Reads (primary (ts ++ rest)) e rest
  | .number => by simp [primary]
  | .string => by simp [primary]
  | .trueWord => by simp [primary]
  | .falseWord => by simp [primary]
  | .nullWord => by simp [primary]
  | .identifier => by simp [primary]
  | .group h => by
    rw [List.cons_append, List.append_assoc]
    exact reads_primary_group.2 ⟨_, h.reads (endsSum_of_mem (by simp))⟩

end

/-! ## Bindings -/

theorem derives_binding {ts rest : Tokens} {b : String × String × Span}
    (h : Reads (binding ts) b rest) : ∃ front, ts = front ++ rest ∧ IsBinding front b := by
  unfold binding at h
  obtain ⟨⟨n, span⟩, mid, hname, h⟩ := reads_bind.1 h
  obtain rfl := reads_name.1 hname
  split at h
  next asWord more hmid =>
    cases hmid
    obtain ⟨⟨m, other⟩, behind, hother, h⟩ := reads_bind.1 h
    obtain rfl := reads_name.1 hother
    obtain ⟨rfl, rfl⟩ := reads_pure.1 h
    exact ⟨[_, _, _], rfl, .renamed⟩
  next =>
    obtain ⟨rfl, rfl⟩ := reads_pure.1 h
    exact ⟨[_], rfl, .plain⟩

theorem IsBinding.reads {ts rest : Tokens} {b : String × String × Span} {s : Symbol} {span : Span}
    (h : IsBinding ts b) :
    Reads (binding (ts ++ ⟨.symbol s, span⟩ :: rest)) b (⟨.symbol s, span⟩ :: rest) := by
  unfold binding
  cases h with
  | plain => exact reads_bind.2 ⟨_, _, reads_name.2 rfl, by simp⟩
  | renamed =>
    refine reads_bind.2 ⟨_, _, reads_name.2 rfl, ?_⟩
    exact reads_bind.2 ⟨_, _, reads_name.2 rfl, by simp⟩


theorem derives_bindings {ts rest : Tokens} {bs : List (String × String × Span)}
    (h : Reads (bindings ts) bs rest) : ∃ front, ts = front ++ rest ∧ AreBindings front bs := by
  rw [bindings] at h
  obtain ⟨b, mid, hb, h⟩ := reads_bind.1 h
  have hlt := hb.lt
  obtain ⟨first, rfl, hfirst⟩ := derives_binding hb
  split at h
  next comma more hmid =>
    cases hmid
    split at h
    next =>
      obtain ⟨rfl, rfl⟩ := reads_pure.1 h
      exact ⟨first ++ [⟨.symbol .comma, comma⟩], by simp, .listed (.one hfirst) .present⟩
    next =>
      obtain ⟨bs', rfl, hbs⟩ := by simpa [reads_map, Reading.widen, Reading.map] using h
      obtain ⟨_, rfl, @⟨back, ended, _, hback, hended⟩⟩ := derives_bindings hbs
      exact ⟨(first ++ ⟨.symbol .comma, comma⟩ :: back) ++ ended, by simp,
        .listed (.more hfirst hback) hended⟩
  next =>
    obtain ⟨rfl, rfl⟩ := reads_pure.1 h
    exact ⟨first, rfl, by simpa using AreBindings.listed (.one hfirst) .absent⟩
termination_by ts.length

theorem Listed.startsWith {ts : Tokens} {bs : List (String × String × Span)} {s : Symbol}
    (h : Listed IsBinding ts bs) (rest : Tokens) : startsWith s (ts ++ rest) = false := by
  cases h with
  | one hb => cases hb <;> rfl
  | more hb => cases hb <;> rfl

theorem bindings_reads {ts ended rest : Tokens} {bs : List (String × String × Span)} {span : Span}
    (hended : OptionalComma ended) (h : Listed IsBinding ts bs) :
    Reads (bindings (ts ++ (ended ++ ⟨.symbol .rightBrace, span⟩ :: rest))) bs
      (⟨.symbol .rightBrace, span⟩ :: rest) := by
  induction h with
  | one hb =>
    rw [bindings]
    cases hended with
    | absent => exact reads_bind.2 ⟨_, _, hb.reads, by simp⟩
    | present => exact reads_bind.2 ⟨_, _, hb.reads, by simp [startsWith]⟩
  | more hb hmore ih =>
    rw [List.append_assoc, List.cons_append, bindings]
    have hopen := hmore.startsWith (s := .rightBrace) (ended ++ ⟨.symbol .rightBrace, span⟩ :: rest)
    refine reads_bind.2 ⟨_, _, hb.reads, ?_⟩
    simpa [hopen, reads_map, Reading.widen, Reading.map] using ih


theorem AreBindings.reads {ts rest : Tokens} {bs : List (String × String × Span)} {span : Span}
    (h : AreBindings ts bs) :
    Reads (bindings (ts ++ ⟨.symbol .rightBrace, span⟩ :: rest)) bs
      (⟨.symbol .rightBrace, span⟩ :: rest) := by
  obtain ⟨hlist, hended⟩ := h
  rw [List.append_assoc]
  exact bindings_reads hended hlist

theorem AreBindings.reads? {ts rest : Tokens} {bs : List (String × String × Span)} {span : Span}
    (h : AreBindings ts bs) :
    Reads (bindings? (ts ++ ⟨.symbol .rightBrace, span⟩ :: rest)) bs
      (⟨.symbol .rightBrace, span⟩ :: rest) := by
  obtain ⟨hlist, hended⟩ := h
  unfold bindings?
  have hopen := hlist.startsWith (s := .rightBrace)
  rw [List.append_assoc]
  simp only [hopen]
  refine reads_bind.2 ⟨_, _, bindings_reads hended hlist, by simp [Reading.widen]⟩

/-! ## Statements -/

section Statements
variable {ts rest : Tokens} {e : Expression} {s : Statement}

theorem derives_initializer (h : Reads (initializer ts) e rest) :
    ∃ front, ts = front ++ rest ∧ IsInitializer front e := by
  unfold initializer at h
  obtain ⟨equal, mid, hequal, h⟩ := reads_bind.1 h
  obtain rfl := reads_symbol.1 hequal
  obtain ⟨value, mid, hvalue, h⟩ := reads_bind.1 h
  obtain ⟨front, rfl, hfront⟩ := derives_expression hvalue
  obtain ⟨ended, behind, hended, h⟩ := reads_bind.1 h
  obtain rfl := reads_symbol.1 hended
  obtain ⟨rfl, rfl⟩ := reads_pure.1 h
  exact ⟨⟨.symbol .equal, equal⟩ :: (front ++ [⟨.symbol .semicolon, ended⟩]), by simp, .of hfront⟩

theorem IsInitializer.reads (h : IsInitializer ts e) (rest : Tokens) :
    Reads (initializer (ts ++ rest)) e rest := by
  obtain ⟨he⟩ := h
  rw [List.cons_append, List.append_assoc]
  unfold initializer
  refine reads_bind.2 ⟨_, _, reads_symbol.2 rfl, ?_⟩
  refine reads_bind.2 ⟨_, _, he.reads (endsSum_of_mem (by simp)), ?_⟩
  exact reads_bind.2 ⟨_, _, reads_symbol.2 rfl, by simp⟩

theorem reads_declaration {exported : Bool} :
    Reads (declaration exported ts) s rest ↔ ∃ n span more e, ts = ⟨.identifier n, span⟩ :: more ∧
      Reads (initializer more) e rest ∧ s = .declare n e exported span := by
  unfold declaration
  simp only [reads_bind]
  constructor
  · rintro ⟨⟨n, span⟩, more, hname, e, behind, he, h⟩
    obtain ⟨rfl, rfl⟩ := reads_pure.1 h
    exact ⟨n, span, more, e, reads_name.1 hname, he, rfl⟩
  · rintro ⟨n, span, more, e, rfl, he, rfl⟩
    exact ⟨⟨n, span⟩, more, reads_name.2 rfl, e, rest, he, by simp [Reading.widen, Reading.map]⟩

theorem reads_importSource {bs : List ImportBinding} {span : Span} :
    Reads (importSource bs span ts) s rest ↔ ∃ source place ended,
      ts = ⟨.string source, place⟩ :: ⟨.symbol .semicolon, ended⟩ :: rest ∧
        s = .importFrom ⟨source, bs, span⟩ := by
  unfold importSource
  simp only [reads_bind]
  constructor
  · rintro ⟨source, mid, hsource, ended, behind, hended, h⟩
    obtain ⟨place, rfl⟩ := reads_specifier.1 hsource
    obtain rfl := reads_symbol.1 hended
    obtain ⟨rfl, rfl⟩ := reads_pure.1 h
    exact ⟨source, place, ended, rfl, rfl⟩
  · rintro ⟨source, place, ended, rfl, rfl⟩
    exact ⟨source, _, reads_specifier.2 ⟨place, rfl⟩, ended, rest, reads_symbol.2 rfl, by simp⟩

/-- What follows the keyword of an import statement. -/
theorem derives_importRest {span : Span} (h : Reads (importRest span ts) s rest) :
    ∃ front, ts = front ++ rest ∧ IsStatement (⟨.word .importWord, span⟩ :: front) s := by
  unfold importRest at h
  split at h
  next opened more =>
    obtain ⟨bs, mid, hbs, h⟩ := reads_bind.1 h
    obtain ⟨names, rfl, hnames⟩ := derives_bindings hbs
    obtain ⟨closed, mid, hclosed, h⟩ := reads_bind.1 h
    obtain rfl := reads_symbol.1 hclosed
    obtain ⟨fromWord, mid, hfrom, h⟩ := reads_bind.1 h
    obtain rfl := reads_word.1 hfrom
    obtain ⟨decl, behind, hdecl, h⟩ := reads_bind.1 h
    obtain ⟨source, place, ended, rfl, rfl⟩ := reads_importSource.1 hdecl
    obtain ⟨rfl, rfl⟩ := reads_pure.1 h
    exact ⟨⟨.symbol .leftBrace, opened⟩ :: (names ++ [⟨.symbol .rightBrace, closed⟩,
      ⟨.word .fromWord, fromWord⟩, ⟨.string source, place⟩, ⟨.symbol .semicolon, ended⟩]),
      by simp, .importNames hnames⟩
  next =>
    obtain ⟨source, place, ended, rfl, rfl⟩ := reads_importSource.1 h
    exact ⟨[_, _], rfl, .importBare⟩

/-- What follows the keyword of an export statement. -/
theorem derives_exportRest {exportWord : Span} (h : Reads (exportRest ts) s rest) :
    ∃ front, ts = front ++ rest ∧ IsStatement (⟨.word .exportWord, exportWord⟩ :: front) s := by
  unfold exportRest at h
  split at h
  next letWord more =>
    obtain ⟨decl, behind, hdecl, h⟩ := reads_bind.1 h
    obtain ⟨rfl, rfl⟩ := reads_pure.1 h
    obtain ⟨n, span, more, e, rfl, he, rfl⟩ := reads_declaration.1 hdecl
    obtain ⟨front, rfl, hfront⟩ := derives_initializer he
    exact ⟨⟨.word .letWord, letWord⟩ :: ⟨.identifier n, span⟩ :: front, rfl, .exportLet hfront⟩
  next =>
    obtain ⟨opened, mid, hopened, h⟩ := reads_bind.1 h
    obtain rfl := reads_symbol.1 hopened
    obtain ⟨bs, mid, hbs, h⟩ := reads_bind.1 h
    obtain ⟨closed, mid, hclosed, h⟩ := reads_bind.1 h
    obtain rfl := reads_symbol.1 hclosed
    obtain ⟨ended, mid, hended, h⟩ := reads_bind.1 h
    obtain rfl := reads_symbol.1 hended
    obtain ⟨rfl, rfl⟩ := reads_pure.1 h
    unfold bindings? at hbs
    split at hbs
    next =>
      obtain ⟨rfl, hmid⟩ := reads_pure.1 hbs
      cases hmid
      exact ⟨[_, _, _], rfl, .exportNone⟩
    next =>
      obtain ⟨bs', mid, hbs, h⟩ := reads_bind.1 hbs
      obtain ⟨rfl, rfl⟩ := reads_pure.1 h
      obtain ⟨names, rfl, hnames⟩ := derives_bindings hbs
      exact ⟨⟨.symbol .leftBrace, opened⟩ :: (names ++ [⟨.symbol .rightBrace, closed⟩,
        ⟨.symbol .semicolon, ended⟩]), by simp, .exportNames hnames⟩

theorem derives_statement (h : Reads (statement ts) s rest) :
    ∃ front, ts = front ++ rest ∧ IsStatement front s := by
  unfold statement at h
  split at h
  next span more =>
    obtain ⟨decl, behind, hdecl, h⟩ := reads_bind.1 h
    obtain ⟨rfl, rfl⟩ := reads_pure.1 h
    obtain ⟨front, rfl, hfront⟩ := derives_importRest hdecl
    exact ⟨_, rfl, hfront⟩
  next exportWord more =>
    obtain ⟨decl, behind, hdecl, h⟩ := reads_bind.1 h
    obtain ⟨rfl, rfl⟩ := reads_pure.1 h
    obtain ⟨front, rfl, hfront⟩ := derives_exportRest hdecl
    exact ⟨_, rfl, hfront⟩
  next letWord more =>
    obtain ⟨decl, behind, hdecl, h⟩ := reads_bind.1 h
    obtain ⟨rfl, rfl⟩ := reads_pure.1 h
    obtain ⟨n, span, more, e, rfl, he, rfl⟩ := reads_declaration.1 hdecl
    obtain ⟨front, rfl, hfront⟩ := derives_initializer he
    exact ⟨⟨.word .letWord, letWord⟩ :: ⟨.identifier n, span⟩ :: front, rfl, .declare hfront⟩
  next n span equal more =>
    obtain ⟨e, behind, he, h⟩ := reads_bind.1 h
    obtain ⟨rfl, rfl⟩ := reads_pure.1 h
    obtain ⟨front, hfront, hinit⟩ := derives_initializer he
    exact ⟨⟨.identifier n, span⟩ :: front, by simpa using hfront, .assign hinit⟩
  next =>
    obtain ⟨e, mid, he, h⟩ := reads_bind.1 h
    obtain ⟨ended, behind, hended, h⟩ := reads_bind.1 h
    obtain rfl := reads_symbol.1 hended
    obtain ⟨rfl, rfl⟩ := reads_pure.1 h
    obtain ⟨front, rfl, hfront⟩ := derives_expression he
    exact ⟨front ++ [⟨.symbol .semicolon, ended⟩], by simp, .expression hfront⟩

theorem IsPrimary.isExpression (h : IsPrimary ts e) : IsExpression ts e := by
  simpa [Expression.joined, Expression.called] using
    IsExpression.sum (.product (.call (.applied h .none)) .none) .none

/-- No expression goes on with `=` behind its first name. -/
theorem IsExpression.not_assignment {n : String} {span equal ended : Span} {more : Tokens}
    (h : IsExpression ts e) :
    ts ++ ⟨.symbol .semicolon, ended⟩ :: rest ≠
      ⟨.identifier n, span⟩ :: ⟨.symbol .equal, equal⟩ :: more := by
  intro hts
  have hwhole : Reads (expression (ts ++ ⟨.symbol .semicolon, ended⟩ :: rest)) e
      (⟨.symbol .semicolon, ended⟩ :: rest) := h.reads (endsSum_of_mem (by simp))
  have hname : Reads (expression ([⟨.identifier n, span⟩] ++ ⟨.symbol .equal, equal⟩ :: more))
      (.identifier n span) (⟨.symbol .equal, equal⟩ :: more) :=
    IsPrimary.identifier.isExpression.reads (endsSum_of_mem (by simp))
  rw [hts] at hwhole
  have hrest := (hwhole.unique hname).2
  simp at hrest

/-- The words that an expression can start with. -/
theorem IsExpression.word_mem {w : Word} {span : Span} {more : Tokens} (h : IsExpression ts e)
    (hts : ts ++ rest = ⟨.word w, span⟩ :: more) : w ∈ [.trueWord, .falseWord, .nullWord] := by
  obtain ⟨⟨hfirst, -⟩, -⟩ := h
  cases hfirst with
  | negate => simp at hts
  | call h =>
    obtain ⟨hprimary, -⟩ := h
    cases hprimary <;> simp_all

theorem statement_of_expression {ended : Span} (h : IsExpression ts e) :
    Reads (statement (ts ++ ⟨.symbol .semicolon, ended⟩ :: rest)) (.expression e) rest := by
  have hwhole : Reads (expression (ts ++ ⟨.symbol .semicolon, ended⟩ :: rest)) e
      (⟨.symbol .semicolon, ended⟩ :: rest) := h.reads (endsSum_of_mem (by simp))
  have hword : ∀ w span more, ts ++ ⟨.symbol .semicolon, ended⟩ :: rest = ⟨.word w, span⟩ :: more →
      w ∈ [.trueWord, .falseWord, .nullWord] := fun _ _ _ => h.word_mem
  have hassign : ∀ n span equal more, ts ++ ⟨.symbol .semicolon, ended⟩ :: rest ≠
      ⟨.identifier n, span⟩ :: ⟨.symbol .equal, equal⟩ :: more := fun _ _ _ _ => h.not_assignment
  generalize ts ++ ⟨.symbol .semicolon, ended⟩ :: rest = whole at hwhole hword hassign
  unfold statement
  split
  next => simpa using hword _ _ _ rfl
  next => simpa using hword _ _ _ rfl
  next => simpa using hword _ _ _ rfl
  next => exact absurd rfl (hassign _ _ _ _)
  next =>
    refine reads_bind.2 ⟨_, _, hwhole, ?_⟩
    exact reads_bind.2 ⟨_, _, reads_symbol.2 rfl, by simp⟩

theorem IsStatement.reads (h : IsStatement ts s) (rest : Tokens) :
    Reads (statement (ts ++ rest)) s rest := by
  cases h with
  | importBare =>
    refine reads_bind.2 ⟨_, _, reads_importSource.2 ⟨_, _, _, rfl, rfl⟩, ?_⟩
    simp [Reading.widen]
  | importNames hnames =>
    rw [List.cons_append, List.cons_append, List.append_assoc]
    refine reads_bind.2 ⟨_, rest, ?_, reads_pure.2 ⟨rfl, rfl⟩⟩
    refine reads_bind.2 ⟨_, _, hnames.reads, ?_⟩
    refine reads_bind.2 ⟨_, _, reads_symbol.2 rfl, ?_⟩
    refine reads_bind.2 ⟨_, _, reads_word.2 rfl, ?_⟩
    exact reads_bind.2 ⟨_, _, reads_importSource.2 ⟨_, _, _, rfl, rfl⟩, by simp [Reading.widen]⟩
  | exportLet hinit =>
    refine reads_bind.2 ⟨_, rest, ?_, reads_pure.2 ⟨rfl, rfl⟩⟩
    refine reads_bind.2 ⟨_, rest, reads_declaration.2 ⟨_, _, _, _, rfl, hinit.reads rest, rfl⟩, ?_⟩
    simp [Reading.widen]
  | exportNone =>
    refine reads_bind.2 ⟨_, rest, ?_, reads_pure.2 ⟨rfl, rfl⟩⟩
    refine reads_bind.2 ⟨_, _, reads_symbol.2 rfl, ?_⟩
    refine reads_bind.2 ⟨[], _, reads_pure.2 ⟨rfl, rfl⟩, ?_⟩
    refine reads_bind.2 ⟨_, _, reads_symbol.2 rfl, ?_⟩
    exact reads_bind.2 ⟨_, _, reads_symbol.2 rfl, by simp⟩
  | exportNames hnames =>
    rw [List.cons_append, List.cons_append, List.append_assoc]
    refine reads_bind.2 ⟨_, rest, ?_, reads_pure.2 ⟨rfl, rfl⟩⟩
    refine reads_bind.2 ⟨_, _, reads_symbol.2 rfl, ?_⟩
    refine reads_bind.2 ⟨_, _, hnames.reads?, ?_⟩
    refine reads_bind.2 ⟨_, _, reads_symbol.2 rfl, ?_⟩
    exact reads_bind.2 ⟨_, _, reads_symbol.2 rfl, by simp⟩
  | declare hinit =>
    refine reads_bind.2 ⟨_, rest, reads_declaration.2 ⟨_, _, _, _, rfl, hinit.reads rest, rfl⟩, ?_⟩
    simp [Reading.widen]
  | assign hinit =>
    obtain ⟨he⟩ := hinit
    refine reads_bind.2 ⟨_, rest, (IsInitializer.of he).reads rest, ?_⟩
    simp [Reading.widen, Reading.map]
  | expression he =>
    rw [List.append_assoc]
    exact statement_of_expression he

end Statements

/-! ## Programs -/

theorem derives_statements {ts : Tokens} {ss : List Statement} (h : statements ts = .ok ss) :
    AreStatements ts ss := by
  rw [statements] at h
  cases ts with
  | nil =>
    cases h
    exact .none
  | cons head more =>
    cases hfirst : statement (head :: more) with
    | error f => simp [hfirst, bind, Except.bind] at h
    | ok first =>
      cases hmore : statements first.rest with
      | error f => simp [hfirst, hmore, bind, Except.bind] at h
      | ok ss' =>
        have hlt := first.fits
        obtain ⟨front, hfront, hstatement⟩ := derives_statement ⟨first.fits, hfirst⟩
        obtain rfl : first.value :: ss' = ss := by
          simpa [hfirst, hmore, bind, Except.bind, pure, Except.pure] using h
        have hall := AreStatements.more hstatement (derives_statements hmore)
        rwa [← hfront] at hall
termination_by ts.length

theorem AreStatements.reads {ts : Tokens} {ss : List Statement} (h : AreStatements ts ss) :
    statements ts = .ok ss := by
  induction h with
  | none => simp [statements]
  | @more first rest s ss hfirst hmore ih =>
    obtain ⟨fits, hread⟩ := hfirst.reads rest
    have hnonempty : (first ++ rest).isEmpty = false := by
      cases hts : first ++ rest with
      | nil => simp [hts] at fits
      | cons head more => rfl
    rw [statements]
    simp [hnonempty, hread, ih, bind, Except.bind, pure, Except.pure]

theorem program_eq_ok {ts : Tokens} {p : Program} : program ts = .ok p ↔ IsProgram ts p := by
  unfold program IsProgram
  constructor
  · intro h
    cases hss : statements ts with
    | error f => simp [hss, Except.map] at h
    | ok ss =>
      obtain rfl : Program.mk ss = p := by simpa [hss, Except.map] using h
      exact derives_statements hss
  · intro h
    rw [h.reads]
    rfl

theorem parse_eq_ok {source : String} {p : Program} :
    parse source = .ok p ↔ ∃ ts, tokens source = .ok ts ∧ IsProgram ts p := by
  unfold parse
  cases tokens source with
  | error stray => simp
  | ok ts =>
    simp only [Except.ok.injEq, exists_eq_left', ← program_eq_ok]
    cases program ts with
    | error f => simp
    | ok q => simp

theorem IsProgram.unique {ts : Tokens} {p q : Program} (hp : IsProgram ts p) (hq : IsProgram ts q) :
    p = q := by
  have hboth := (program_eq_ok.2 hp).symm.trans (program_eq_ok.2 hq)
  exact Except.ok.inj hboth

theorem IsStatement.assigns {ts : Tokens} {s : Statement} {n : String} {span equal : Span}
    (h : IsStatement (⟨.identifier n, span⟩ :: ⟨.symbol .equal, equal⟩ :: ts) s) :
    ∃ e, IsInitializer (⟨.symbol .equal, equal⟩ :: ts) e ∧ s = .assign n e span := by
  generalize hts : Placed.mk (.identifier n) span :: ⟨.symbol .equal, equal⟩ :: ts = whole at h
  cases h with
  | assign hinit =>
    cases hts
    exact ⟨_, hinit, rfl⟩
  | expression he => exact absurd hts.symm he.not_assignment
  | importBare => cases hts
  | importNames => cases hts
  | exportLet => cases hts
  | exportNone => cases hts
  | exportNames => cases hts
  | declare => cases hts

/-- The parser accepts exactly the texts whose tokens, all of them, derive from the grammar, and
returns the tree of the derivation, of which there is one for each list of tokens. A statement
that starts with a name and `=` is an assignment in every derivation. -/
theorem parse_derives (source : String) :
    (∀ p, parse source = .ok p ↔ ∃ ts, tokens source = .ok ts ∧ IsProgram ts p) ∧
    ((∃ p, parse source = .ok p) ↔ ∃ ts, tokens source = .ok ts ∧ ∃ p, IsProgram ts p) ∧
    (∀ ts p q, IsProgram ts p → IsProgram ts q → p = q) ∧
    ∀ n span equal ts s, IsStatement (⟨.identifier n, span⟩ :: ⟨.symbol .equal, equal⟩ :: ts) s →
      ∃ e, IsInitializer (⟨.symbol .equal, equal⟩ :: ts) e ∧ s = .assign n e span := by
  refine ⟨fun p => parse_eq_ok, ?_, fun ts p q => IsProgram.unique,
    fun _ _ _ _ _ => IsStatement.assigns⟩
  constructor
  · rintro ⟨p, hp⟩
    obtain ⟨ts, hts, hp⟩ := parse_eq_ok.1 hp
    exact ⟨ts, hts, p, hp⟩
  · rintro ⟨ts, hts, p, hp⟩
    exact ⟨p, parse_eq_ok.2 ⟨ts, hts, hp⟩⟩

end ModuleLoader.Script
