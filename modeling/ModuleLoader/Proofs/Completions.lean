import ModuleLoader.Proofs.Lexemes
import ModuleLoader.Proofs.ParseRows

/-!
# What the parser has read can be completed

A parsing function reads a sentence of its nonterminal. If it fails, what it has read is the beginning
of one: there are further tokens, all of which can be spelled, that complete it. So no function goes
past a token behind which nothing can follow.

Results:
1. `Completable`: the beginnings of sentences.
2. `Follows`: a function that reads sentences, or beginnings of them where it fails.
3. `follows_expression`, `follows_statement` and their companions: every parsing function does.
4. `program_completable`: what a program that fails has read is the beginning of a program.
-/

namespace ModuleLoader.Script

/-! ## Beginnings of sentences -/

/-- A token that a text can hold. -/
def Spelled (t : Token) : Prop :=
  ∃ chars, IsLexeme (.token t chars) ∧ Reserving (.token t chars)

@[simp] theorem spelled_symbol (s : Symbol) : Spelled (.symbol s) := by
  refine ⟨_, .symbol (mem_symbols.mpr rfl), reserving_iff.mpr fun w hw => ?_⟩
  -- every reserved word has more than one character
  have hlength : 1 = w.spelling.toList.length := congrArg List.length hw
  cases w <;> exact absurd hlength (by decide)

@[simp] theorem spelled_word (w : Word) : Spelled (.word w) := by
  exact ⟨_, .reserved w, reserving_word w⟩

@[simp] theorem spelled_string : Spelled (.string "") := by
  refine ⟨['"', '"'], .string (.inl rfl) .nil, reserving_iff.mpr fun w hw => ?_⟩
  exact absurd hw (by cases w <;> decide)

@[simp] theorem spelled_identifier : Spelled (.identifier "x") := by
  have hletter : IsLetter 'x' := .inl rfl
  refine ⟨['x'], .identifier hletter (List.forall_mem_nil _), reserving_iff.mpr fun w hw => ?_⟩
  exact absurd hw (by cases w <;> decide)

/-- Tokens that stand nowhere in particular. -/
def loose (row : List Token) : Tokens := row.map fun t => ⟨t, 0, 0, .start⟩

/-- What becomes a sentence with further tokens behind it. -/
def Completable (L : Tokens → Prop) (front : Tokens) : Prop :=
  ∃ row : List Token, (∀ t ∈ row, Spelled t) ∧ L (front ++ loose row)

namespace Completable

variable {L M : Tokens → Prop} {front : Tokens}

theorem with_nothing (h : L (front ++ [])) : Completable L front :=
  ⟨[], List.forall_mem_nil _, h⟩

theorem here (h : L front) : Completable L front :=
  with_nothing ((List.append_nil front).symm ▸ h)

theorem by_adding (row : List Token) (hrow : ∀ t ∈ row, Spelled t) (h : L (front ++ loose row)) :
    Completable L front :=
  ⟨row, hrow, h⟩

theorem mono (h : Completable L front) (hsub : ∀ ts, L ts → M ts) : Completable M front := by
  obtain ⟨row, hrow, hfront⟩ := h
  exact ⟨row, hrow, hsub _ hfront⟩

end Completable

/-! ## Reading sentences -/

/-- Over the tokens `ts` the function reads a sentence, or the beginning of one if it fails. -/
structure Follows {α : Type} (P : Tokens → Outcome α) (L : Tokens → Prop) (ts : Tokens) : Prop where
  reads : ∀ a rest, P ts = (.ok a, rest) → ∃ front, ts = front ++ rest ∧ L front
  fails : ∀ x left, P ts = (.error x, left) → ∃ front, ts = front ++ left ∧ Completable L front

namespace Follows

variable {α β ι : Type} {P Q : Tokens → Outcome α} {L M N : Tokens → Prop} {ts : Tokens}

theorem of_eq (heq : P ts = Q ts) (h : Follows Q L ts) : Follows P L ts :=
  ⟨heq ▸ h.reads, heq ▸ h.fails⟩

theorem mono (h : Follows P L ts) (hsub : ∀ front, L front → M front) : Follows P M ts where
  reads := by
    intro a rest hP
    obtain ⟨front, hts, hfront⟩ := h.reads a rest hP
    exact ⟨front, hts, hsub front hfront⟩
  fails := by
    intro x left hP
    obtain ⟨front, hts, hfront⟩ := h.fails x left hP
    exact ⟨front, hts, hfront.mono hsub⟩

/-- Nothing is read. -/
theorem done (a : α) (h : L []) : Follows (fun ts => (.ok a, ts)) L ts where
  reads := by
    rintro _ rest ⟨⟩
    exact ⟨[], rfl, h⟩
  fails := by
    rintro x left ⟨⟩

/-- The first token is read. -/
theorem cons {t : Token} {span : Span} {more : Tokens} (hP : P (⟨t, span⟩ :: more) = Q more)
    (h : Follows Q (fun back => L (⟨t, span⟩ :: back)) more) : Follows P L (⟨t, span⟩ :: more) where
  reads := by
    intro a rest hread
    obtain ⟨back, hmore, hback⟩ := h.reads a rest (hP ▸ hread)
    exact ⟨_ :: back, congrArg _ hmore, hback⟩
  fails := by
    intro x left hfail
    obtain ⟨back, hmore, hback⟩ := h.fails x left (hP ▸ hfail)
    exact ⟨_ :: back, congrArg _ hmore, hback⟩

/-- One function after another. What the first one reads can be completed, and the second one reads
what completes it. -/
theorem andThen {next : α → Tokens → Outcome β} (h : Follows P L ts)
    (hmin : ∀ front, L front → Completable N front)
    (hnext : ∀ a mid front, P ts = (.ok a, mid) → L front →
      Follows (next a) (fun back => N (front ++ back)) mid) :
    Follows (fun ts => (P ts).andThen next) N ts where
  reads := by
    intro b rest hread
    obtain ⟨a, mid, hP, hb⟩ := Outcome.andThen_eq_ok.mp hread
    obtain ⟨front, hts, hfront⟩ := h.reads a mid hP
    obtain ⟨back, hmid, hback⟩ := (hnext a mid front hP hfront).reads b rest hb
    exact ⟨front ++ back, by rw [hts, hmid, List.append_assoc], hback⟩
  fails := by
    intro x left hfail
    rcases Outcome.andThen_eq_error.mp hfail with hP | ⟨a, mid, hP, hx⟩
    · obtain ⟨front, hts, row, hrow, hfront⟩ := h.fails x left hP
      obtain ⟨more, hmore, hwhole⟩ := hmin _ hfront
      refine ⟨front, hts, row ++ more, List.forall_mem_append.mpr ⟨hrow, hmore⟩, ?_⟩
      rwa [loose, List.map_append, ← List.append_assoc]
    · obtain ⟨front, hts, hfront⟩ := h.reads a mid hP
      obtain ⟨back, hmid, row, hrow, hwhole⟩ := (hnext a mid front hP hfront).fails x left hx
      exact ⟨front ++ back, by rw [hts, hmid, List.append_assoc], row, hrow,
        by rwa [List.append_assoc]⟩

/-- The value alone is changed. -/
theorem map (h : Follows P L ts) (g : α → β) :
    Follows (fun ts => (P ts).andThen fun a mid => (.ok (g a), mid)) L ts :=
  h.andThen (fun _ => .here) fun a _ front _ hfront =>
    .done (g a) ((List.append_nil front).symm ▸ hfront)

end Follows

/-! ### Single tokens -/

/-- One token, of which `g` gives the possible ones. -/
def Alone {ι : Type} (g : ι → Placed) (front : Tokens) : Prop := ∃ i, front = [g i]

section Single

variable {α β ι : Type} {P : Tokens → Outcome α} {N : Tokens → Prop} {ts : Tokens} {g : ι → Placed}

theorem Follows.andThen_alone {next : α → Tokens → Outcome β} (h : Follows P (Alone g) ts)
    (hmin : ∀ i, Completable N [g i])
    (hnext : ∀ a i mid, P ts = (.ok a, mid) →
      Follows (next a) (fun back => N (g i :: back)) mid) :
    Follows (fun ts => (P ts).andThen next) N ts := by
  refine h.andThen ?_ ?_
  · rintro _ ⟨i, rfl⟩
    exact hmin i
  · rintro a mid _ hP ⟨i, rfl⟩
    exact hnext a i mid hP

theorem follows_one {L : Tokens → Prop} {x : Expected} {accepts : Token → Option (Span → α)}
    (hmin : Completable L []) (haccepts : ∀ t f span, accepts t = some f → L [⟨t, span⟩])
    (ts : Tokens) : Follows (one x accepts) L ts where
  reads := by
    intro a rest hread
    unfold one at hread
    split at hread
    next => cases hread
    next t span more =>
      split at hread
      next f hf =>
        cases hread
        exact ⟨[⟨t, span⟩], rfl, haccepts t f span hf⟩
      next => cases hread
  fails := by
    intro x' left hfail
    obtain rfl := one_eq_error hfail
    exact ⟨[], rfl, hmin⟩

theorem follows_symbol (s : Symbol) (ts : Tokens) :
    Follows (fun ts => outcome (symbol s ts)) (Alone fun span => ⟨.symbol s, span⟩) ts := by
  refine .of_eq (outcome_symbol s ts) (follows_one ?_ ?_ ts)
  · exact .by_adding [.symbol s] (by simp) ⟨_, rfl⟩
  · intro t f span hf
    split at hf
    next t =>
      split at hf
      next h => exact ⟨span, h ▸ rfl⟩
      next => cases hf
    next => cases hf

theorem follows_name (ts : Tokens) : Follows (fun ts => outcome (name ts))
    (Alone fun i : String × Span => ⟨.identifier i.1, i.2⟩) ts := by
  refine .of_eq (outcome_name ts) (follows_one ?_ ?_ ts)
  · exact .by_adding [.identifier "x"] (by simp) ⟨(_, _), rfl⟩
  · intro t f span hf
    split at hf
    next n => exact ⟨(n, span), rfl⟩
    next => cases hf

end Single

/-! ## Sentences -/

/-- The tokens of a derivation, whichever its tree is. -/
def Sentence {α : Type} (derives : Tokens → α → Prop) (ts : Tokens) : Prop := ∃ a, derives ts a

namespace Sentence

variable {first more ts : Tokens} {span : Span}

theorem chain_none {ops : List Operator} {item : Tokens → Expression → Prop} :
    Sentence (Chain ops item) [] :=
  ⟨_, .none⟩

theorem chain_more {ops : List Operator} {op : Operator} {item : Tokens → Expression → Prop}
    (hop : op ∈ ops) (hfirst : Sentence item first) (hmore : Sentence (Chain ops item) more) :
    Sentence (Chain ops item) (⟨.symbol op.symbol, span⟩ :: (first ++ more)) := by
  obtain ⟨e, he⟩ := hfirst
  obtain ⟨es, hes⟩ := hmore
  exact ⟨_, .more hop he hes⟩

theorem sum (hfirst : Sentence IsTerm first) (hmore : Sentence (Chain [.add, .subtract] IsTerm) more) :
    Sentence IsExpression (first ++ more) := by
  obtain ⟨e, he⟩ := hfirst
  obtain ⟨es, hes⟩ := hmore
  exact ⟨_, .sum he hes⟩

theorem product (hfirst : Sentence IsUnary first)
    (hmore : Sentence (Chain [.multiply, .divide] IsUnary) more) : Sentence IsTerm (first ++ more) := by
  obtain ⟨e, he⟩ := hfirst
  obtain ⟨es, hes⟩ := hmore
  exact ⟨_, .product he hes⟩

theorem negate (h : Sentence IsUnary ts) : Sentence IsUnary (⟨.symbol .minus, span⟩ :: ts) := by
  obtain ⟨e, he⟩ := h
  exact ⟨_, .negate he⟩

theorem call (hfirst : Sentence IsPrimary first) (hmore : Sentence AreCalls more) :
    Sentence IsUnary (first ++ more) := by
  obtain ⟨e, he⟩ := hfirst
  obtain ⟨calls, hcalls⟩ := hmore
  exact ⟨_, .call (.applied he hcalls)⟩

theorem calls_more {closed : Span} (hargs : Sentence AreArguments first)
    (hmore : Sentence AreCalls more) : Sentence AreCalls
      (⟨.symbol .leftParen, span⟩ :: (first ++ ⟨.symbol .rightParen, closed⟩ :: more)) := by
  obtain ⟨es, hes⟩ := hargs
  obtain ⟨calls, hcalls⟩ := hmore
  exact ⟨_, .more hes hcalls⟩

theorem argument (h : Sentence IsExpression ts) : Sentence AreArguments ts := by
  obtain ⟨e, he⟩ := h
  exact ⟨[e], List.append_nil ts ▸ .some (.one he) .absent⟩

theorem argument_more (hfirst : Sentence IsExpression first) (hmore : Sentence AreArguments more) :
    Sentence AreArguments (first ++ ⟨.symbol .comma, span⟩ :: more) := by
  obtain ⟨e, he⟩ := hfirst
  obtain ⟨es, hes⟩ := hmore
  cases hes with
  | none => exact ⟨[e], .some (.one he) .present⟩
  | @some items ended _ hitems hended =>
    refine ⟨e :: es, ?_⟩
    rw [← List.cons_append, ← List.append_assoc]
    exact .some (.more he hitems) hended

theorem group {closed : Span} (h : Sentence IsExpression ts) :
    Sentence IsPrimary (⟨.symbol .leftParen, span⟩ :: (ts ++ [⟨.symbol .rightParen, closed⟩])) := by
  obtain ⟨e, he⟩ := h
  exact ⟨_, .group he⟩

theorem literal {t : Token} {f : Span → Expression} (h : literal? t = some f) :
    Sentence IsPrimary [⟨t, span⟩] := by
  unfold literal? at h
  split at h
  next => exact ⟨_, .number⟩
  next => exact ⟨_, .string⟩
  next => exact ⟨_, .trueWord⟩
  next => exact ⟨_, .falseWord⟩
  next => exact ⟨_, .nullWord⟩
  next => exact ⟨_, .identifier⟩
  next => cases h

theorem bindings_one (h : Sentence IsBinding ts) : Sentence AreBindings ts := by
  obtain ⟨b, hb⟩ := h
  exact ⟨[b], List.append_nil ts ▸ .listed (.one hb) .absent⟩

theorem bindings_ended (h : Sentence IsBinding ts) :
    Sentence AreBindings (ts ++ [⟨.symbol .comma, span⟩]) := by
  obtain ⟨b, hb⟩ := h
  exact ⟨[b], .listed (.one hb) .present⟩

theorem bindings_more (hfirst : Sentence IsBinding first) (hmore : Sentence AreBindings more) :
    Sentence AreBindings (first ++ ⟨.symbol .comma, span⟩ :: more) := by
  obtain ⟨b, hb⟩ := hfirst
  obtain ⟨bs, @⟨items, ended, _, hitems, hended⟩⟩ := hmore
  refine ⟨b :: bs, ?_⟩
  rw [← List.cons_append, ← List.append_assoc]
  exact .listed (.more hb hitems) hended

theorem initializer {ended : Span} (h : Sentence IsExpression ts) :
    Sentence IsInitializer (⟨.symbol .equal, span⟩ :: (ts ++ [⟨.symbol .semicolon, ended⟩])) := by
  obtain ⟨e, he⟩ := h
  exact ⟨_, .of he⟩

theorem importNames {opened closed fromWord source ended : Span} {s : String}
    (h : Sentence AreBindings ts) : Sentence IsStatement
      (⟨.word .importWord, span⟩ :: ⟨.symbol .leftBrace, opened⟩ :: (ts ++
        [⟨.symbol .rightBrace, closed⟩, ⟨.word .fromWord, fromWord⟩, ⟨.string s, source⟩,
          ⟨.symbol .semicolon, ended⟩])) := by
  obtain ⟨bs, hbs⟩ := h
  exact ⟨_, .importNames hbs⟩

theorem exportNames {opened closed ended : Span} (h : ts = [] ∨ Sentence AreBindings ts) :
    Sentence IsStatement (⟨.word .exportWord, span⟩ :: ⟨.symbol .leftBrace, opened⟩ :: (ts ++
      [⟨.symbol .rightBrace, closed⟩, ⟨.symbol .semicolon, ended⟩])) := by
  rcases h with rfl | ⟨bs, hbs⟩
  · exact ⟨_, .exportNone⟩
  · exact ⟨_, .exportNames hbs⟩

theorem statements (hfirst : Sentence IsStatement first) (hmore : Sentence AreStatements more) :
    Sentence AreStatements (first ++ more) := by
  obtain ⟨s, hs⟩ := hfirst
  obtain ⟨ss, hss⟩ := hmore
  exact ⟨_, .more hs hss⟩

end Sentence

/-! ## Every function reads sentences -/

mutual

theorem follows_expression (ts : Tokens) :
    Follows (fun ts => outcome (expression ts)) (Sentence IsExpression) ts := by
  have hrow := (follows_term ts).andThen (N := Sentence IsExpression)
    (fun _ hfront => .with_nothing (hfront.sum .chain_none))
    fun left mid _ hmid hfront =>
      have hlt := outcome_lt hmid
      (follows_sumTail left mid).mono fun _ => hfront.sum
  exact .of_eq (outcome_expression ts) hrow
termination_by (ts.length, 5)

theorem follows_sumTail (left : Expression) (ts : Tokens) :
    Follows (fun ts => outcome (sumTail left ts)) (Sentence (Chain [.add, .subtract] IsTerm)) ts := by
  cases hop : additive? ts with
  | none => exact .of_eq (outcome_sumTail_none hop) (.done left .chain_none)
  | some op =>
    obtain ⟨hmem, span, more, hts⟩ := additive?_eq_some.1 hop
    have hmore := lt_of_cons hts
    rw [hts]
    have hrow := (follows_term more).andThen
      (N := fun back => Sentence (Chain [.add, .subtract] IsTerm) (⟨.symbol op.symbol, span⟩ :: back))
      (fun _ hfront => .with_nothing (.chain_more hmem hfront .chain_none))
      fun right mid _ hmid hfront =>
        have hlt := outcome_lt hmid
        (follows_sumTail (.binary op left right) mid).mono fun _ => .chain_more hmem hfront
    exact .cons (outcome_sumTail_more hmem) hrow
termination_by (ts.length, 4)

theorem follows_term (ts : Tokens) :
    Follows (fun ts => outcome (term ts)) (Sentence IsTerm) ts := by
  have hrow := (follows_unary ts).andThen (N := Sentence IsTerm)
    (fun _ hfront => .with_nothing (hfront.product .chain_none))
    fun left mid _ hmid hfront =>
      have hlt := outcome_lt hmid
      (follows_productTail left mid).mono fun _ => hfront.product
  exact .of_eq (outcome_term ts) hrow
termination_by (ts.length, 3)

theorem follows_productTail (left : Expression) (ts : Tokens) :
    Follows (fun ts => outcome (productTail left ts))
      (Sentence (Chain [.multiply, .divide] IsUnary)) ts := by
  cases hop : multiplicative? ts with
  | none => exact .of_eq (outcome_productTail_none hop) (.done left .chain_none)
  | some op =>
    obtain ⟨hmem, span, more, hts⟩ := multiplicative?_eq_some.1 hop
    have hmore := lt_of_cons hts
    rw [hts]
    have hrow := (follows_unary more).andThen
      (N := fun back => Sentence (Chain [.multiply, .divide] IsUnary)
        (⟨.symbol op.symbol, span⟩ :: back))
      (fun _ hfront => .with_nothing (.chain_more hmem hfront .chain_none))
      fun right mid _ hmid hfront =>
        have hlt := outcome_lt hmid
        (follows_productTail (.binary op left right) mid).mono fun _ => .chain_more hmem hfront
    exact .cons (outcome_productTail_more hmem) hrow
termination_by (ts.length, 2)

theorem follows_unary (ts : Tokens) :
    Follows (fun ts => outcome (unary ts)) (Sentence IsUnary) ts := by
  cases hminus : startsWith .minus ts with
  | true =>
    obtain ⟨span, more, hts⟩ := startsWith_iff.1 hminus
    have hmore := lt_of_cons hts
    rw [hts]
    have hrow := ((follows_unary more).map Expression.negate).mono
      (M := fun back => Sentence IsUnary (⟨.symbol .minus, span⟩ :: back)) fun _ => .negate
    exact .cons outcome_unary_minus hrow
  | false =>
    have hrow := (follows_primary ts).andThen (N := Sentence IsUnary)
      (fun _ hfront => .with_nothing (hfront.call ⟨[], .none⟩))
      fun callee mid _ hmid hfront =>
        have hlt := outcome_lt hmid
        (follows_callTail callee mid).mono fun _ => hfront.call
    exact .of_eq (outcome_unary_call hminus) hrow
termination_by (ts.length, 2)

theorem follows_callTail (callee : Expression) (ts : Tokens) :
    Follows (fun ts => outcome (callTail callee ts)) (Sentence AreCalls) ts := by
  cases hparen : startsWith .leftParen ts with
  | false => exact .of_eq (outcome_callTail_none hparen) (.done callee ⟨[], .none⟩)
  | true =>
    obtain ⟨span, more, hts⟩ := startsWith_iff.1 hparen
    have hmore := lt_of_cons hts
    rw [hts]
    have hrow := (follows_arguments more).andThen
      (N := fun back => Sentence AreCalls (⟨.symbol .leftParen, span⟩ :: back))
      (fun _ hargs => .by_adding [.symbol .rightParen] (by simp) (hargs.calls_more ⟨[], .none⟩))
      fun args mid _ hmid hargs =>
        (follows_symbol .rightParen mid).andThen_alone (fun _ => .here (hargs.calls_more ⟨[], .none⟩))
          fun _ _ behind hbehind =>
            have hlt := Nat.lt_trans (outcome_lt hbehind) (outcome_lt hmid)
            (follows_callTail (.call callee args span) behind).mono fun _ => hargs.calls_more
    exact .cons outcome_callTail_more hrow
termination_by (ts.length, 1)

theorem follows_arguments (ts : Tokens) :
    Follows (fun ts => outcome (arguments ts)) (Sentence AreArguments) ts := by
  cases hparen : startsWith .rightParen ts with
  | true => exact .of_eq (outcome_arguments_none hparen) (.done [] ⟨[], .none⟩)
  | false =>
    have hrow := (follows_expression ts).andThen (N := Sentence AreArguments)
      (fun _ hfront => .here hfront.argument)
      fun arg mid _ hmid hfront =>
        have hlt := outcome_lt hmid
        follows_moreArguments arg hfront mid
    exact .of_eq (outcome_arguments_some hparen) hrow
termination_by (ts.length, 6)

theorem follows_moreArguments {front : Tokens} (arg : Expression) (hfront : Sentence IsExpression front)
    (ts : Tokens) :
    Follows (moreArguments arg) (fun back => Sentence AreArguments (front ++ back)) ts := by
  cases hcomma : startsWith .comma ts with
  | false =>
    exact .of_eq (moreArguments_none hcomma)
      (.done [arg] ((List.append_nil front).symm ▸ hfront.argument))
  | true =>
    obtain ⟨span, more, hts⟩ := startsWith_iff.1 hcomma
    have hmore := lt_of_cons hts
    rw [hts]
    have hrow := ((follows_arguments more).map (arg :: ·)).mono
      (M := fun back => Sentence AreArguments (front ++ ⟨.symbol .comma, span⟩ :: back))
      fun _ => hfront.argument_more
    exact .cons rfl hrow
termination_by (ts.length, 0)

theorem follows_primary (ts : Tokens) :
    Follows (fun ts => outcome (primary ts)) (Sentence IsPrimary) ts := by
  cases hparen : startsWith .leftParen ts with
  | true =>
    obtain ⟨span, more, hts⟩ := startsWith_iff.1 hparen
    have hmore := lt_of_cons hts
    rw [hts]
    have hrow := (follows_expression more).andThen
      (N := fun back => Sentence IsPrimary (⟨.symbol .leftParen, span⟩ :: back))
      (fun _ hfront => .by_adding [.symbol .rightParen] (by simp) hfront.group)
      fun e mid _ _ hfront =>
        (follows_symbol .rightParen mid).andThen_alone (fun _ => .here hfront.group)
          fun _ _ _ _ => .done e hfront.group
    exact .cons outcome_primary_group hrow
  | false =>
    have hnull : Completable (Sentence IsPrimary) [] :=
      .by_adding [.word .nullWord] (by simp) ⟨_, .nullWord⟩
    exact .of_eq (outcome_primary_literal hparen)
      (follows_one hnull (fun _ _ _ => .literal) ts)
termination_by (ts.length, 1)

end

/-! ### Bindings -/

theorem follows_naming (first : String × Span) (n : String) (span : Span) (ts : Tokens) :
    Follows (naming first) (fun back => Sentence IsBinding (⟨.identifier n, span⟩ :: back)) ts := by
  cases has : startsWithWord .asWord ts with
  | false => exact .of_eq (naming_none has) (.done _ ⟨_, .plain⟩)
  | true =>
    obtain ⟨place, more, rfl⟩ := startsWithWord_iff.1 has
    have hrow := (follows_name more).andThen_alone
      (N := fun back => Sentence IsBinding
        (⟨.identifier n, span⟩ :: ⟨.word .asWord, place⟩ :: back))
      (fun _ => .here ⟨_, .renamed⟩)
      fun second _ _ _ => .done (first.1, second.1, first.2) ⟨_, .renamed⟩
    exact .cons rfl hrow

theorem follows_binding (ts : Tokens) :
    Follows (fun ts => outcome (binding ts)) (Sentence IsBinding) ts := by
  have hrow := (follows_name ts).andThen_alone (N := Sentence IsBinding)
    (fun _ => .here ⟨_, .plain⟩) fun first i mid _ => follows_naming first i.1 i.2 mid
  exact .of_eq (outcome_binding ts) hrow

mutual

theorem follows_bindings (ts : Tokens) :
    Follows (fun ts => outcome (bindings ts)) (Sentence AreBindings) ts := by
  have hrow := (follows_binding ts).andThen (N := Sentence AreBindings)
    (fun _ hfront => .here hfront.bindings_one)
    fun first mid _ hmid hfront =>
      have hlt := outcome_lt hmid
      follows_moreBindings first hfront mid
  exact .of_eq (outcome_bindings ts) hrow
termination_by (ts.length, 1)

theorem follows_moreBindings {front : Tokens} (first : String × String × Span)
    (hfront : Sentence IsBinding front) (ts : Tokens) :
    Follows (moreBindings first) (fun back => Sentence AreBindings (front ++ back)) ts := by
  cases hcomma : startsWith .comma ts with
  | false =>
    exact .of_eq (moreBindings_none hcomma)
      (.done [first] ((List.append_nil front).symm ▸ hfront.bindings_one))
  | true =>
    obtain ⟨span, more, hts⟩ := startsWith_iff.1 hcomma
    have hmore := lt_of_cons hts
    rw [hts]
    cases hbrace : startsWith .rightBrace more with
    | true => exact .cons (moreBindings_ended hbrace) (.done [first] hfront.bindings_ended)
    | false =>
      have hrow := ((follows_bindings more).map (first :: ·)).mono
        (M := fun back => Sentence AreBindings (front ++ ⟨.symbol .comma, span⟩ :: back))
        fun _ => hfront.bindings_more
      exact .cons (moreBindings_more hbrace) hrow
termination_by (ts.length, 0)

end

end ModuleLoader.Script
