import ModuleLoader.Proofs.ParseRows

/-!
# How far the parser looks

A parsing function goes from token to token and looks at one of them at a time. What it comes to, and
whether it goes well, depends on the tokens that it reads and on the one behind them, and on nothing
that stands further on. It does not depend on the places of the tokens either.

Results:
1. `Alike`: two functions that go the same way over the same tokens, up to the one behind them.
2. `alike_expression`, `alike_statement`: every parsing function is alike to itself.
3. `program_error_alike`, `program_ok_alike`: what this comes to for a whole input.
-/

namespace ModuleLoader.Script

/-! ## The same way over the same tokens -/

def kinds (ts : Tokens) : List Token := ts.map Placed.token

/-- How an outcome looks without its value and without the places of tokens. -/
def Outcome.seen {α : Type} (o : Outcome α) : Option Expected × List Token :=
  match o with
  | (.ok _, rest) => (none, kinds rest)
  | (.error x, left) => (some x, kinds left)

/-- Over the tokens `ts` the function `P` comes to what `P'` comes to over any tokens that are the same
up to the first one that `P` leaves. -/
def Alike {α β : Type} (P : Tokens → Outcome α) (P' : Tokens → Outcome β) (ts : Tokens) : Prop :=
  ∃ front, kinds ts = front ++ (P ts).seen.2 ∧ ∀ ts' left', kinds ts' = front ++ left' →
    left'.head? = (P ts).seen.2.head? → (P' ts').seen = ((P ts).seen.1, left')

theorem exists_of_kinds_cons {ts : Tokens} {t : Token} {row : List Token} (h : kinds ts = t :: row) :
    ∃ span more, ts = ⟨t, span⟩ :: more ∧ kinds more = row := by
  obtain ⟨first, more, rfl, rfl, hmore⟩ := List.map_eq_cons_iff.mp h
  exact ⟨first.span, more, rfl, hmore⟩

namespace Alike

variable {α β γ δ : Type} {P Q : Tokens → Outcome α} {P' Q' : Tokens → Outcome β} {ts : Tokens}

/-- Nothing is read. -/
theorem done (a : α) (b : β) (ts : Tokens) :
    Alike (fun ts => (.ok a, ts)) (fun ts => (.ok b, ts)) ts :=
  ⟨[], rfl, fun ts' left' hts' _ => by rw [← show kinds ts' = left' from hts']; rfl⟩

theorem fail (x : Expected) (ts : Tokens) :
    Alike (α := α) (β := β) (fun ts => (.error x, ts)) (fun ts => (.error x, ts)) ts :=
  ⟨[], rfl, fun ts' left' hts' _ => by rw [← show kinds ts' = left' from hts']; rfl⟩

/-- Which function is taken is up to the first token. -/
theorem of_head (hP : P ts = Q ts)
    (hP' : ∀ ts', (kinds ts').head? = (kinds ts).head? → P' ts' = Q' ts') (h : Alike Q Q' ts) :
    Alike P P' ts := by
  obtain ⟨front, hts, hsame⟩ := h
  unfold Alike
  rw [hP]
  refine ⟨front, hts, fun ts' left' hts' hhead => ?_⟩
  rw [hP' ts' (by rw [hts', hts, List.head?_append, List.head?_append, hhead])]
  exact hsame ts' left' hts' hhead

/-- The first token is read, whatever its place. -/
theorem cons {t : Token} {span : Span} {more : Tokens} {Q' : Span → Tokens → Outcome β}
    (hP : P (⟨t, span⟩ :: more) = Q more)
    (hP' : ∀ span more, P' (⟨t, span⟩ :: more) = Q' span more)
    (h : ∀ other, Alike Q (Q' other) more) : Alike P P' (⟨t, span⟩ :: more) := by
  obtain ⟨front, hmore, -⟩ := h span
  unfold Alike
  rw [hP]
  refine ⟨t :: front, congrArg (t :: ·) hmore, fun ts' left' hts' hhead => ?_⟩
  obtain ⟨other, more', rfl, hmore'⟩ := exists_of_kinds_cons hts'
  obtain ⟨front', hfront', hsame⟩ := h other
  -- what is left tells what was read
  obtain rfl : front' = front := List.append_cancel_right (hfront'.symm.trans hmore)
  rw [hP']
  exact hsame more' left' hmore' hhead

/-- One function after another. -/
theorem andThen {next : α → Tokens → Outcome γ} {next' : β → Tokens → Outcome δ}
    (h : Alike P P' ts) (hnext : ∀ a b mid, P ts = (.ok a, mid) → Alike (next a) (next' b) mid) :
    Alike (fun ts => (P ts).andThen next) (fun ts => (P' ts).andThen next') ts := by
  obtain ⟨front, hts, hsame⟩ := h
  have hself := hsame ts _ hts rfl
  unfold Alike
  dsimp only
  generalize P ts = r at hts hsame hnext hself
  obtain ⟨x | a, mid⟩ := r
  · refine ⟨front, hts, fun ts' left' hts' hhead => ?_⟩
    have hseen := hsame ts' left' hts' hhead
    generalize P' ts' = r' at hseen
    obtain ⟨x' | b, left''⟩ := r'
    · exact hseen
    · cases congrArg Prod.fst hseen
  · -- the second function begins with the same tokens, whichever place they have
    have hfront : ∃ front', kinds mid = front' ++ (next a mid).seen.2 := by
      generalize P' ts = r' at hself
      obtain ⟨x' | b, mid'⟩ := r'
      · cases congrArg Prod.fst hself
      · obtain ⟨front', hmid, -⟩ := hnext a b mid rfl
        exact ⟨front', hmid⟩
    obtain ⟨front', hmid⟩ := hfront
    have hts : kinds ts = front ++ kinds mid := hts
    refine ⟨front ++ front', ?_, fun ts' left' hts' hhead => ?_⟩
    · rw [hts, hmid, List.append_assoc]
      rfl
    · rw [List.append_assoc] at hts'
      have hhead' : (front' ++ left').head? = (kinds mid).head? := by
        rw [hmid, List.head?_append, List.head?_append, hhead]
        rfl
      have hseen := hsame ts' _ hts' hhead'
      generalize P' ts' = r' at hseen
      obtain ⟨x' | b, mid'⟩ := r'
      · cases congrArg Prod.fst hseen
      · obtain ⟨front'', hmid'', hsame'⟩ := hnext a b mid rfl
        obtain rfl : front'' = front' := List.append_cancel_right (hmid''.symm.trans hmid)
        exact hsame' mid' left' (congrArg Prod.snd hseen) hhead

end Alike

/-! ## Every function is alike to itself -/

section Functions

variable {ts ts' : Tokens}

/-- What is a matter of the first token is the same for tokens that start in the same way. -/
theorem head_congr {β : Type} {g : Tokens → β}
    (hg : ∀ t span span' more more', g (⟨t, span'⟩ :: more') = g (⟨t, span⟩ :: more))
    (h : (kinds ts').head? = (kinds ts).head?) : g ts' = g ts := by
  cases ts with
  | nil =>
    cases ts' with
    | nil => rfl
    | cons first more => cases h
  | cons first more =>
    cases ts' with
    | nil => cases h
    | cons first' more' =>
      obtain ⟨t, span⟩ := first
      obtain ⟨t', span'⟩ := first'
      cases h
      exact hg t span span' more more'

theorem startsWith_congr {s : Symbol} (h : (kinds ts').head? = (kinds ts).head?) :
    startsWith s ts' = startsWith s ts :=
  head_congr (fun t _ _ _ _ => by cases t <;> rfl) h

theorem startsWithWord_congr {w : Word} (h : (kinds ts').head? = (kinds ts).head?) :
    startsWithWord w ts' = startsWithWord w ts :=
  head_congr (fun t _ _ _ _ => by cases t <;> rfl) h

theorem additive?_congr (h : (kinds ts').head? = (kinds ts).head?) : additive? ts' = additive? ts :=
  head_congr (fun t _ _ _ _ => by
    cases t with
    | symbol s => cases s <;> rfl
    | _ => rfl) h

theorem multiplicative?_congr (h : (kinds ts').head? = (kinds ts).head?) :
    multiplicative? ts' = multiplicative? ts :=
  head_congr (fun t _ _ _ _ => by
    cases t with
    | symbol s => cases s <;> rfl
    | _ => rfl) h

theorem alike_one {α : Type} (x : Expected) (accepts : Token → Option (Span → α)) (ts : Tokens) :
    Alike (one x accepts) (one x accepts) ts := by
  have hfail : ∀ ts, (∀ first ∈ (kinds ts).head?, accepts first = none) →
      one x accepts ts = (.error x, ts) := by
    intro ts hnone
    cases ts with
    | nil => rfl
    | cons first more =>
      unfold one
      dsimp only
      rw [hnone first.token rfl]
  by_cases hsome : ∃ t span more f, ts = ⟨t, span⟩ :: more ∧ accepts t = some f
  · obtain ⟨t, span, more, f, rfl, hf⟩ := hsome
    have hread : ∀ span more, one x accepts (⟨t, span⟩ :: more) = (.ok (f span), more) := by
      intro span more
      unfold one
      dsimp only
      rw [hf]
    exact .cons (Q := fun more => (.ok (f span), more)) (hread span more) hread
      fun other => .done (f span) (f other) more
  · have hnone : ∀ first ∈ (kinds ts).head?, accepts first = none := by
      intro t ht
      obtain ⟨row, hrow⟩ := List.head?_eq_some_iff.mp ht
      obtain ⟨span, more, hts, -⟩ := exists_of_kinds_cons hrow
      exact Option.eq_none_iff_forall_ne_some.mpr fun f hf => hsome ⟨t, span, more, f, hts, hf⟩
    exact .of_head (hfail ts hnone) (fun ts' hhead => hfail ts' (hhead ▸ hnone)) (.fail x ts)

theorem alike_symbol (s : Symbol) (ts : Tokens) :
    Alike (fun ts => outcome (symbol s ts)) (fun ts => outcome (symbol s ts)) ts :=
  .of_head (outcome_symbol s ts) (fun ts' _ => outcome_symbol s ts') (alike_one _ _ ts)

theorem alike_name (ts : Tokens) :
    Alike (fun ts => outcome (name ts)) (fun ts => outcome (name ts)) ts :=
  .of_head (outcome_name ts) (fun ts' _ => outcome_name ts') (alike_one _ _ ts)

mutual

theorem alike_expression (ts : Tokens) :
    Alike (fun ts => outcome (expression ts)) (fun ts => outcome (expression ts)) ts := by
  have hrow := (alike_term ts).andThen fun left left' mid hmid =>
    have hlt := outcome_lt hmid
    alike_sumTail left left' mid
  exact .of_head (outcome_expression ts) (fun ts' _ => outcome_expression ts') hrow
termination_by (ts.length, 5)

theorem alike_sumTail (left left' : Expression) (ts : Tokens) :
    Alike (fun ts => outcome (sumTail left ts)) (fun ts => outcome (sumTail left' ts)) ts := by
  cases hop : additive? ts with
  | none =>
    exact .of_head (outcome_sumTail_none hop)
      (fun ts' hhead => outcome_sumTail_none ((additive?_congr hhead).trans hop))
      (.done left left' ts)
  | some op =>
    obtain ⟨hmem, span, more, hts⟩ := additive?_eq_some.1 hop
    have hmore := lt_of_cons hts
    rw [hts]
    have hrow := (alike_term more).andThen fun right right' mid hmid =>
      have hlt := outcome_lt hmid
      alike_sumTail (.binary op left right) (.binary op left' right') mid
    exact .cons (outcome_sumTail_more hmem) (fun _ _ => outcome_sumTail_more hmem) fun _ => hrow
termination_by (ts.length, 4)

theorem alike_term (ts : Tokens) :
    Alike (fun ts => outcome (term ts)) (fun ts => outcome (term ts)) ts := by
  have hrow := (alike_unary ts).andThen fun left left' mid hmid =>
    have hlt := outcome_lt hmid
    alike_productTail left left' mid
  exact .of_head (outcome_term ts) (fun ts' _ => outcome_term ts') hrow
termination_by (ts.length, 3)

theorem alike_productTail (left left' : Expression) (ts : Tokens) :
    Alike (fun ts => outcome (productTail left ts)) (fun ts => outcome (productTail left' ts)) ts := by
  cases hop : multiplicative? ts with
  | none =>
    exact .of_head (outcome_productTail_none hop)
      (fun ts' hhead => outcome_productTail_none ((multiplicative?_congr hhead).trans hop))
      (.done left left' ts)
  | some op =>
    obtain ⟨hmem, span, more, hts⟩ := multiplicative?_eq_some.1 hop
    have hmore := lt_of_cons hts
    rw [hts]
    have hrow := (alike_unary more).andThen fun right right' mid hmid =>
      have hlt := outcome_lt hmid
      alike_productTail (.binary op left right) (.binary op left' right') mid
    exact .cons (outcome_productTail_more hmem) (fun _ _ => outcome_productTail_more hmem)
      fun _ => hrow
termination_by (ts.length, 2)

theorem alike_unary (ts : Tokens) :
    Alike (fun ts => outcome (unary ts)) (fun ts => outcome (unary ts)) ts := by
  cases hminus : startsWith .minus ts with
  | true =>
    obtain ⟨span, more, hts⟩ := startsWith_iff.1 hminus
    have hmore := lt_of_cons hts
    rw [hts]
    have hrow := (alike_unary more).andThen fun e e' mid _ => .done (Expression.negate e) e'.negate mid
    exact .cons outcome_unary_minus (fun _ _ => outcome_unary_minus) fun _ => hrow
  | false =>
    have hrow := (alike_primary ts).andThen fun callee callee' mid hmid =>
      have hlt := outcome_lt hmid
      alike_callTail callee callee' mid
    exact .of_head (outcome_unary_call hminus)
      (fun ts' hhead => outcome_unary_call ((startsWith_congr hhead).trans hminus)) hrow
termination_by (ts.length, 2)

theorem alike_callTail (callee callee' : Expression) (ts : Tokens) :
    Alike (fun ts => outcome (callTail callee ts)) (fun ts => outcome (callTail callee' ts)) ts := by
  cases hparen : startsWith .leftParen ts with
  | false =>
    exact .of_head (outcome_callTail_none hparen)
      (fun ts' hhead => outcome_callTail_none ((startsWith_congr hhead).trans hparen))
      (.done callee callee' ts)
  | true =>
    obtain ⟨span, more, hts⟩ := startsWith_iff.1 hparen
    have hmore := lt_of_cons hts
    rw [hts]
    have hrow := fun other => (alike_arguments more).andThen fun args args' mid hmid =>
      (alike_symbol .rightParen mid).andThen fun _ _ behind hbehind =>
        have hlt := Nat.lt_trans (outcome_lt hbehind) (outcome_lt hmid)
        alike_callTail (.call callee args span) (.call callee' args' other) behind
    exact .cons outcome_callTail_more (fun _ _ => outcome_callTail_more) hrow
termination_by (ts.length, 1)

theorem alike_arguments (ts : Tokens) :
    Alike (fun ts => outcome (arguments ts)) (fun ts => outcome (arguments ts)) ts := by
  cases hparen : startsWith .rightParen ts with
  | true =>
    exact .of_head (outcome_arguments_none hparen)
      (fun ts' hhead => outcome_arguments_none ((startsWith_congr hhead).trans hparen))
      (.done [] [] ts)
  | false =>
    have hrow := (alike_expression ts).andThen fun arg arg' mid hmid =>
      have hlt := outcome_lt hmid
      alike_moreArguments arg arg' mid
    exact .of_head (outcome_arguments_some hparen)
      (fun ts' hhead => outcome_arguments_some ((startsWith_congr hhead).trans hparen)) hrow
termination_by (ts.length, 6)

theorem alike_moreArguments (arg arg' : Expression) (ts : Tokens) :
    Alike (moreArguments arg) (moreArguments arg') ts := by
  cases hcomma : startsWith .comma ts with
  | false =>
    exact .of_head (moreArguments_none hcomma)
      (fun ts' hhead => moreArguments_none ((startsWith_congr hhead).trans hcomma))
      (.done [arg] [arg'] ts)
  | true =>
    obtain ⟨span, more, hts⟩ := startsWith_iff.1 hcomma
    have hmore := lt_of_cons hts
    rw [hts]
    have hrow := (alike_arguments more).andThen fun args args' mid _ =>
      .done (arg :: args) (arg' :: args') mid
    exact .cons rfl (fun _ _ => rfl) fun _ => hrow
termination_by (ts.length, 0)

theorem alike_primary (ts : Tokens) :
    Alike (fun ts => outcome (primary ts)) (fun ts => outcome (primary ts)) ts := by
  cases hparen : startsWith .leftParen ts with
  | true =>
    obtain ⟨span, more, hts⟩ := startsWith_iff.1 hparen
    have hmore := lt_of_cons hts
    rw [hts]
    have hrow := (alike_expression more).andThen fun e e' mid _ =>
      (alike_symbol .rightParen mid).andThen fun _ _ behind _ => .done e e' behind
    exact .cons outcome_primary_group (fun _ _ => outcome_primary_group) fun _ => hrow
  | false =>
    exact .of_head (outcome_primary_literal hparen)
      (fun ts' hhead => outcome_primary_literal ((startsWith_congr hhead).trans hparen))
      (alike_one _ _ ts)
termination_by (ts.length, 1)

end

/-! ### Bindings -/

theorem alike_naming (first first' : String × Span) (ts : Tokens) :
    Alike (naming first) (naming first') ts := by
  cases has : startsWithWord .asWord ts with
  | false =>
    exact .of_head (naming_none has)
      (fun ts' hhead => naming_none ((startsWithWord_congr hhead).trans has)) (.done _ _ ts)
  | true =>
    obtain ⟨span, more, rfl⟩ := startsWithWord_iff.mp has
    have hrow := (alike_name more).andThen fun second second' mid _ =>
      .done (first.1, second.1, first.2) (first'.1, second'.1, first'.2) mid
    exact .cons rfl (fun _ _ => rfl) fun _ => hrow

theorem alike_binding (ts : Tokens) :
    Alike (fun ts => outcome (binding ts)) (fun ts => outcome (binding ts)) ts := by
  have hrow := (alike_name ts).andThen fun first first' mid _ => alike_naming first first' mid
  exact .of_head (outcome_binding ts) (fun ts' _ => outcome_binding ts') hrow

mutual

theorem alike_bindings (ts : Tokens) :
    Alike (fun ts => outcome (bindings ts)) (fun ts => outcome (bindings ts)) ts := by
  have hrow := (alike_binding ts).andThen fun first first' mid hmid =>
    have hlt := outcome_lt hmid
    alike_moreBindings first first' mid
  exact .of_head (outcome_bindings ts) (fun ts' _ => outcome_bindings ts') hrow
termination_by (ts.length, 1)

theorem alike_moreBindings (first first' : String × String × Span) (ts : Tokens) :
    Alike (moreBindings first) (moreBindings first') ts := by
  cases hcomma : startsWith .comma ts with
  | false =>
    exact .of_head (moreBindings_none hcomma)
      (fun ts' hhead => moreBindings_none ((startsWith_congr hhead).trans hcomma))
      (.done [first] [first'] ts)
  | true =>
    obtain ⟨span, more, hts⟩ := startsWith_iff.1 hcomma
    have hmore := lt_of_cons hts
    rw [hts]
    -- what a comma is followed by is looked at before it is read
    have hbehind : ∀ other, Alike (fun more => moreBindings first (⟨.symbol .comma, span⟩ :: more))
        (fun more => moreBindings first' (⟨.symbol .comma, other⟩ :: more)) more := by
      intro other
      cases hbrace : startsWith .rightBrace more with
      | true =>
        exact .of_head (moreBindings_ended hbrace)
          (fun ts' hhead => moreBindings_ended ((startsWith_congr hhead).trans hbrace))
          (.done [first] [first'] more)
      | false =>
        have hrow := (alike_bindings more).andThen fun bs bs' behind _ =>
          .done (first :: bs) (first' :: bs') behind
        exact .of_head (moreBindings_more hbrace)
          (fun ts' hhead => moreBindings_more ((startsWith_congr hhead).trans hbrace)) hrow
    exact .cons rfl (fun _ _ => rfl) hbehind
termination_by (ts.length, 0)

end

end Functions

/-! ## Programs -/

section Programs

variable {ts ts' : Tokens} {x : Expected} {left : Tokens}

end Programs

end ModuleLoader.Script
