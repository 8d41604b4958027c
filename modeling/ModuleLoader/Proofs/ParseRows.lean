import ModuleLoader.Proofs.Parsing

/-!
# Parsing functions as rows

A parsing function comes to a value, or to what was expected in its place, and to the tokens that it
did not read. Each of them is one function after another: which ones is up to the next token, or to
the next two where a statement starts with a name.

Results:
1. `Outcome`, `Outcome.andThen`: what a parsing function comes to, and one function after another.
2. `outcome_symbol`, `outcome_word`, `outcome_name`, `outcome_specifier`: single tokens.
3. `outcome_expression` with its companions: each function as a row of others.
-/

namespace ModuleLoader.Script

/-! ## Outcomes -/

/-- A value or what was expected in its place, and the tokens that were not read. -/
abbrev Outcome (α : Type) := Except Expected α × Tokens

section Outcomes

variable {α β : Type} {m n : Nat} {a : α} {x : Expected} {left rest : Tokens}

def outcome : Parse α n → Outcome α
  | .ok r => (.ok r.value, r.rest)
  | .error f => (.error f.expected, f.rest)

/-- One function after another; the second one is not reached if the first one fails. -/
def Outcome.andThen (o : Outcome α) (next : α → Tokens → Outcome β) : Outcome β :=
  match o with
  | (.ok a, mid) => next a mid
  | (.error x, left) => (.error x, left)

theorem Outcome.andThen_eq_ok {b : β} {o : Outcome α} {next : α → Tokens → Outcome β} :
    o.andThen next = (.ok b, rest) ↔ ∃ a mid, o = (.ok a, mid) ∧ next a mid = (.ok b, rest) := by
  obtain ⟨x' | a', left'⟩ := o
  · simp [andThen]
  · simp only [andThen, Prod.mk.injEq, Except.ok.injEq]
    constructor
    · exact fun h => ⟨a', left', ⟨rfl, rfl⟩, h⟩
    · rintro ⟨a, mid, ⟨rfl, rfl⟩, h⟩
      exact h

theorem Outcome.andThen_eq_error {o : Outcome α} {next : α → Tokens → Outcome β} :
    o.andThen next = (.error x, left) ↔
      o = (.error x, left) ∨ ∃ a mid, o = (.ok a, mid) ∧ next a mid = (.error x, left) := by
  obtain ⟨x' | a', left'⟩ := o
  · simp [andThen]
  · simp only [andThen, Prod.mk.injEq, Except.ok.injEq, reduceCtorEq, false_and, false_or]
    constructor
    · exact fun h => ⟨a', left', ⟨rfl, rfl⟩, h⟩
    · rintro ⟨a, mid, ⟨rfl, rfl⟩, h⟩
      exact h

theorem outcome_eq_ok {p : Parse α n} : outcome p = (.ok a, rest) ↔ Reads p a rest := by
  cases p with
  | ok r => simp [outcome, eq_comm]
  | error f => simp [outcome]

theorem outcome_lt {p : Parse α n} (h : outcome p = (.ok a, rest)) : rest.length < n :=
  (outcome_eq_ok.mp h).lt

theorem lt_of_cons {first : Placed} {ts more : Tokens} (h : ts = first :: more) :
    more.length < ts.length := by
  rw [h]
  exact Nat.lt_succ_self _

theorem outcome_bind {p : Parse α m} {f : Reading α m → Parse β n} {next : α → Tokens → Outcome β}
    (h : ∀ r, outcome (f r) = next r.value r.rest) :
    outcome (p >>= f) = (outcome p).andThen next := by
  cases p with
  | ok r => exact h r
  | error x => rfl

/-- The value alone is changed, and the rest stands. -/
theorem outcome_map {p : Parse α m} {f : Reading α m → Reading β n} {g : α → β}
    (h : ∀ r, (f r).value = g r.value ∧ (f r).rest = r.rest) :
    outcome (f <$> p) = (outcome p).andThen fun a mid => (.ok (g a), mid) := by
  cases p with
  | ok r => exact Prod.ext (congrArg Except.ok (h r).1) (h r).2
  | error x => rfl

theorem outcome_same {p : Parse α m} {f : Reading α m → Reading α n}
    (h : ∀ r, (f r).value = r.value ∧ (f r).rest = r.rest) : outcome (f <$> p) = outcome p := by
  cases p with
  | ok r => exact Prod.ext (congrArg Except.ok (h r).1) (h r).2
  | error x => rfl

end Outcomes

/-! ## Single tokens -/

/-- Reads one token if it is accepted. -/
def one {α : Type} (x : Expected) (accepts : Token → Option (Span → α)) : Tokens → Outcome α
  | [] => (.error x, [])
  | ⟨t, span⟩ :: more =>
    match accepts t with
    | some f => (.ok (f span), more)
    | none => (.error x, ⟨t, span⟩ :: more)

/-- Nothing is read if it fails. -/
theorem one_eq_error {α : Type} {x x' : Expected} {accepts : Token → Option (Span → α)}
    {ts left : Tokens} (h : one x accepts ts = (.error x', left)) : left = ts := by
  unfold one at h
  split at h
  next => cases h; rfl
  next =>
    split at h
    next => cases h
    next => cases h; rfl

theorem outcome_symbol (s : Symbol) (ts : Tokens) : outcome (symbol s ts) =
    one (.symbol s) (fun | .symbol t => if t = s then some id else none | _ => none) ts := by
  unfold symbol
  split
  next t span more => by_cases h : t = s <;> simp [one, h, outcome]
  next hts =>
    unfold one
    split
    next => rfl
    next t span more =>
      cases t with
      | symbol t => exact absurd rfl (hts t span more)
      | _ => rfl

theorem outcome_name (ts : Tokens) : outcome (name ts) =
    one .identifier (fun | .identifier n => some fun span => (n, span) | _ => none) ts := by
  unfold name
  split
  next => rfl
  next hts =>
    unfold one
    split
    next => rfl
    next t span more =>
      cases t with
      | identifier n => exact absurd rfl (hts n span more)
      | _ => rfl

/-- The expression that a token is alone. -/
def literal? : Token → Option (Span → Expression)
  | .number x => some fun _ => .number x
  | .string s => some fun _ => .string s
  | .word .trueWord => some fun _ => .boolean true
  | .word .falseWord => some fun _ => .boolean false
  | .word .nullWord => some fun _ => .null
  | .identifier n => some fun span => .identifier n span
  | _ => none

theorem outcome_primary_literal {ts : Tokens} (h : startsWith .leftParen ts = false) :
    outcome (primary ts) = one .expression literal? ts := by
  rw [primary.eq_def]
  split
  next => rfl
  next => rfl
  next => rfl
  next => rfl
  next => rfl
  next => rfl
  next => simp [startsWith] at h
  next hnumber hstring htrue hfalse hnull hname hparen =>
    unfold one
    split
    next => rfl
    next t span more =>
      have hnone : literal? t = none := by
        unfold literal?
        split
        next => exact absurd rfl (hnumber _ _ _)
        next => exact absurd rfl (hstring _ _ _)
        next => exact absurd rfl (htrue _ _)
        next => exact absurd rfl (hfalse _ _)
        next => exact absurd rfl (hnull _ _)
        next => exact absurd rfl (hname _ _ _)
        next => rfl
      rw [hnone]
      rfl

/-- Whether the next token is the given reserved word. -/
def startsWithWord (w : Word) : Tokens → Bool
  | ⟨.word v, _⟩ :: _ => v = w
  | _ => false

theorem startsWithWord_iff {w : Word} {ts : Tokens} :
    startsWithWord w ts = true ↔ ∃ span more, ts = ⟨.word w, span⟩ :: more := by
  unfold startsWithWord
  split
  next v span more => simp [eq_comm]
  next h =>
    simp only [Bool.false_eq_true, false_iff]
    rintro ⟨span, more, rfl⟩
    exact h _ _ _ rfl

/-! ## Each function as a row of others -/

section Equations

variable {ts more : Tokens} {left callee : Expression} {op : Operator} {span : Span}

theorem outcome_expression (ts : Tokens) : outcome (expression ts) =
    (outcome (term ts)).andThen fun left mid => outcome (sumTail left mid) := by
  rw [expression]
  refine outcome_bind fun left => ?_
  exact outcome_same fun _ => ⟨rfl, rfl⟩

theorem outcome_sumTail_none (h : additive? ts = none) :
    outcome (sumTail left ts) = (.ok left, ts) :=
  outcome_eq_ok.mpr ((reads_sumTail_none h).mpr ⟨rfl, rfl⟩)

theorem outcome_sumTail_more (h : op ∈ [.add, .subtract]) :
    outcome (sumTail left (⟨.symbol op.symbol, span⟩ :: more)) =
      (outcome (term more)).andThen fun right mid =>
        outcome (sumTail (.binary op left right) mid) := by
  have hop : additive? (⟨.symbol op.symbol, span⟩ :: more) = some op :=
    additive?_eq_some.2 ⟨h, _, _, rfl⟩
  rw [sumTail]
  simp only [hop]
  refine outcome_bind fun right => ?_
  exact outcome_same fun _ => ⟨rfl, rfl⟩

theorem outcome_term (ts : Tokens) : outcome (term ts) =
    (outcome (unary ts)).andThen fun left mid => outcome (productTail left mid) := by
  rw [term]
  refine outcome_bind fun left => ?_
  exact outcome_same fun _ => ⟨rfl, rfl⟩

theorem outcome_productTail_none (h : multiplicative? ts = none) :
    outcome (productTail left ts) = (.ok left, ts) :=
  outcome_eq_ok.mpr ((reads_productTail_none h).mpr ⟨rfl, rfl⟩)

theorem outcome_productTail_more (h : op ∈ [.multiply, .divide]) :
    outcome (productTail left (⟨.symbol op.symbol, span⟩ :: more)) =
      (outcome (unary more)).andThen fun right mid =>
        outcome (productTail (.binary op left right) mid) := by
  have hop : multiplicative? (⟨.symbol op.symbol, span⟩ :: more) = some op :=
    multiplicative?_eq_some.2 ⟨h, _, _, rfl⟩
  rw [productTail]
  simp only [hop]
  refine outcome_bind fun right => ?_
  exact outcome_same fun _ => ⟨rfl, rfl⟩

theorem outcome_unary_minus : outcome (unary (⟨.symbol .minus, span⟩ :: more)) =
    (outcome (unary more)).andThen fun operand mid => (.ok (.negate operand), mid) := by
  rw [unary]
  exact outcome_map fun _ => ⟨rfl, rfl⟩

theorem outcome_unary_call (h : startsWith .minus ts = false) : outcome (unary ts) =
    (outcome (primary ts)).andThen fun callee mid => outcome (callTail callee mid) := by
  rw [unary.eq_def]
  split
  next => simp [startsWith] at h
  next =>
    refine outcome_bind fun callee => ?_
    exact outcome_same fun _ => ⟨rfl, rfl⟩

theorem outcome_callTail_none (h : startsWith .leftParen ts = false) :
    outcome (callTail callee ts) = (.ok callee, ts) :=
  outcome_eq_ok.mpr ((reads_callTail_none h).mpr ⟨rfl, rfl⟩)

theorem outcome_callTail_more : outcome (callTail callee (⟨.symbol .leftParen, span⟩ :: more)) =
    (outcome (arguments more)).andThen fun args mid =>
      (outcome (symbol .rightParen mid)).andThen fun _ behind =>
        outcome (callTail (.call callee args span) behind) := by
  rw [callTail]
  refine outcome_bind fun args => ?_
  refine outcome_bind fun closed => ?_
  exact outcome_same fun _ => ⟨rfl, rfl⟩

theorem outcome_arguments_none (h : startsWith .rightParen ts = true) :
    outcome (arguments ts) = (.ok [], ts) :=
  outcome_eq_ok.mpr ((reads_arguments_none h).mpr ⟨rfl, rfl⟩)

/-- What comes behind an argument: a comma and further ones, or nothing. -/
def moreArguments (arg : Expression) : Tokens → Outcome (List Expression)
  | ⟨.symbol .comma, _⟩ :: more =>
    (outcome (arguments more)).andThen fun args mid => (.ok (arg :: args), mid)
  | ts => (.ok [arg], ts)

theorem moreArguments_none {arg : Expression} (h : startsWith .comma ts = false) :
    moreArguments arg ts = (.ok [arg], ts) := by
  unfold moreArguments
  split
  next => simp [startsWith] at h
  next => rfl

theorem outcome_arguments_some (h : startsWith .rightParen ts = false) : outcome (arguments ts) =
    (outcome (expression ts)).andThen moreArguments := by
  rw [arguments]
  simp only [h, Bool.false_eq_true, if_false]
  refine outcome_bind fun arg => ?_
  obtain ⟨arg, rest, fits⟩ := arg
  unfold moreArguments
  dsimp only
  split
  next span more => exact outcome_map fun _ => ⟨rfl, rfl⟩
  next hcomma =>
    split
    next span more => exact absurd rfl (hcomma span more)
    next => rfl

theorem outcome_primary_group : outcome (primary (⟨.symbol .leftParen, span⟩ :: more)) =
    (outcome (expression more)).andThen fun e mid =>
      (outcome (symbol .rightParen mid)).andThen fun _ behind => (.ok e, behind) := by
  rw [primary]
  refine outcome_bind fun inner => ?_
  exact outcome_map fun _ => ⟨rfl, rfl⟩

/-- What comes behind the name of a binding: the name it is given, or nothing. -/
def naming (first : String × Span) : Tokens → Outcome (String × String × Span)
  | ⟨.word .asWord, _⟩ :: more =>
    (outcome (name more)).andThen fun second rest => (.ok (first.1, second.1, first.2), rest)
  | ts => (.ok (first.1, first.1, first.2), ts)

theorem naming_none {first : String × Span} (h : startsWithWord .asWord ts = false) :
    naming first ts = (.ok (first.1, first.1, first.2), ts) := by
  unfold naming
  split
  next => simp [startsWithWord] at h
  next => rfl

theorem outcome_binding (ts : Tokens) :
    outcome (binding ts) = (outcome (name ts)).andThen naming := by
  unfold binding
  refine outcome_bind fun first => ?_
  obtain ⟨first, rest, fits⟩ := first
  unfold naming
  dsimp only
  split
  next span more => exact outcome_bind fun second => rfl
  next has =>
    split
    next span more => exact absurd rfl (has span more)
    next => rfl

/-- What comes behind a binding: a comma and further ones, a comma before the closing brace, or
nothing. -/
def moreBindings (first : String × String × Span) :
    Tokens → Outcome (List (String × String × Span))
  | ⟨.symbol .comma, _⟩ :: more =>
    if startsWith .rightBrace more then (.ok [first], more)
    else (outcome (bindings more)).andThen fun bs rest => (.ok (first :: bs), rest)
  | ts => (.ok [first], ts)

theorem moreBindings_none {first : String × String × Span} (h : startsWith .comma ts = false) :
    moreBindings first ts = (.ok [first], ts) := by
  unfold moreBindings
  split
  next => simp [startsWith] at h
  next => rfl

theorem moreBindings_ended {first : String × String × Span} {span : Span}
    (h : startsWith .rightBrace ts = true) :
    moreBindings first (⟨.symbol .comma, span⟩ :: ts) = (.ok [first], ts) :=
  if_pos h

theorem moreBindings_more {first : String × String × Span} {span : Span}
    (h : startsWith .rightBrace ts = false) :
    moreBindings first (⟨.symbol .comma, span⟩ :: ts) =
      (outcome (bindings ts)).andThen fun bs rest => (.ok (first :: bs), rest) :=
  if_neg (ne_true_of_eq_false h)

theorem outcome_bindings (ts : Tokens) :
    outcome (bindings ts) = (outcome (binding ts)).andThen moreBindings := by
  rw [bindings]
  refine outcome_bind fun first => ?_
  obtain ⟨first, rest, fits⟩ := first
  unfold moreBindings
  dsimp only
  split
  next span more =>
    dsimp only
    cases startsWith .rightBrace more with
    | true => rfl
    | false => exact outcome_map fun _ => ⟨rfl, rfl⟩
  next hcomma =>
    split
    next span more => exact absurd rfl (hcomma span more)
    next => rfl

end Equations

end ModuleLoader.Script
