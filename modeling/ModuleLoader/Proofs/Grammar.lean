import ModuleLoader.Script.Error

/-!
# The grammar of scripts as a relation

`IsProgram ts p`: the tokens `ts`, all of them, derive from the grammar and `p` is the tree of
that derivation. There is one relation per nonterminal and one constructor per alternative:

    program    := statement*
    statement  := "import" STRING ";"
                | "import" "{" binding ("," binding)* ","? "}" "from" STRING ";"
                | "export" "let" NAME "=" expression ";"
                | "export" "{" (binding ("," binding)* ","?)? "}" ";"
                | "let" NAME "=" expression ";"
                | NAME "=" expression ";"
                | expression ";"
    binding    := NAME ("as" NAME)?
    expression := term (("+" | "-") term)*
    term       := unary (("*" | "/") unary)*
    unary      := "-" unary | call
    call       := primary ("(" arguments ")")*
    arguments  := (expression ("," expression)* ","?)?
    primary    := NUMBER | STRING | "true" | "false" | "null" | NAME | "(" expression ")"

The relation says nothing about how tokens are read: no lookahead, no order of alternatives and no
longest match. A derivation splits its tokens wherever it likes.
-/

namespace ModuleLoader.Script

/-! ## Repetition -/

/-- One item, or several with a comma between neighbours. -/
inductive Listed {α : Type} (item : Tokens → α → Prop) : Tokens → List α → Prop
  | one {ts : Tokens} {a : α} : item ts a → Listed item ts [a]
  | more {first rest : Tokens} {a : α} {as : List α} {comma : Span} :
      item first a → Listed item rest as →
      Listed item (first ++ ⟨.symbol .comma, comma⟩ :: rest) (a :: as)

/-- `","?` -/
inductive OptionalComma : Tokens → Prop
  | absent : OptionalComma []
  | present {comma : Span} : OptionalComma [⟨.symbol .comma, comma⟩]

/-- How an operator is written. -/
def Operator.symbol : Operator → Symbol
  | add => .plus
  | subtract => .minus
  | multiply => .star
  | divide => .slash

/-- Items with one of the operators `ops` before each. -/
inductive Chain (ops : List Operator) (item : Tokens → Expression → Prop) :
    Tokens → List (Operator × Expression) → Prop
  | none : Chain ops item [] []
  | more {op : Operator} {first rest : Tokens} {e : Expression} {es : List (Operator × Expression)}
      {span : Span} : op ∈ ops → item first e → Chain ops item rest es →
      Chain ops item (⟨.symbol op.symbol, span⟩ :: (first ++ rest)) ((op, e) :: es)

/-- `a op b op c …`, which means `((a op b) op c) …`. -/
def Expression.joined (first : Expression) (more : List (Operator × Expression)) : Expression :=
  more.foldl (fun left (op, right) => .binary op left right) first

/-- `f(…)(…)…`: what a call returns is what the next argument list is applied to. -/
def Expression.called (callee : Expression) (calls : List (List Expression × Span)) : Expression :=
  calls.foldl (fun callee (args, span) => .call callee args span) callee

/-! ## Expressions -/

mutual

inductive IsExpression : Tokens → Expression → Prop
  | sum {first more : Tokens} {e : Expression} {es : List (Operator × Expression)} :
      IsTerm first e → Chain [.add, .subtract] IsTerm more es →
      IsExpression (first ++ more) (e.joined es)

inductive IsTerm : Tokens → Expression → Prop
  | product {first more : Tokens} {e : Expression} {es : List (Operator × Expression)} :
      IsUnary first e → Chain [.multiply, .divide] IsUnary more es →
      IsTerm (first ++ more) (e.joined es)

inductive IsUnary : Tokens → Expression → Prop
  | negate {ts : Tokens} {e : Expression} {minus : Span} :
      IsUnary ts e → IsUnary (⟨.symbol .minus, minus⟩ :: ts) (.negate e)
  | call {ts : Tokens} {e : Expression} : IsCall ts e → IsUnary ts e

inductive IsCall : Tokens → Expression → Prop
  | applied {first more : Tokens} {e : Expression} {calls : List (List Expression × Span)} :
      IsPrimary first e → AreCalls more calls → IsCall (first ++ more) (e.called calls)

/-- `("(" arguments ")")*`, each with the span of its opening parenthesis. -/
inductive AreCalls : Tokens → List (List Expression × Span) → Prop
  | none : AreCalls [] []
  | more {args rest : Tokens} {es : List Expression} {calls : List (List Expression × Span)}
      {opened closed : Span} : AreArguments args es → AreCalls rest calls →
      AreCalls (⟨.symbol .leftParen, opened⟩ :: (args ++ ⟨.symbol .rightParen, closed⟩ :: rest))
        ((es, opened) :: calls)

inductive AreArguments : Tokens → List Expression → Prop
  | none : AreArguments [] []
  | some {ts ended : Tokens} {es : List Expression} :
      Listed IsExpression ts es → OptionalComma ended → AreArguments (ts ++ ended) es

inductive IsPrimary : Tokens → Expression → Prop
  | number {x : Float} {span : Span} : IsPrimary [⟨.number x, span⟩] (.number x)
  | string {s : String} {span : Span} : IsPrimary [⟨.string s, span⟩] (.string s)
  | trueWord {span : Span} : IsPrimary [⟨.word .trueWord, span⟩] (.boolean true)
  | falseWord {span : Span} : IsPrimary [⟨.word .falseWord, span⟩] (.boolean false)
  | nullWord {span : Span} : IsPrimary [⟨.word .nullWord, span⟩] .null
  | identifier {n : String} {span : Span} : IsPrimary [⟨.identifier n, span⟩] (.identifier n span)
  /-- Parentheses group and leave no node of their own. -/
  | group {ts : Tokens} {e : Expression} {opened closed : Span} : IsExpression ts e →
      IsPrimary (⟨.symbol .leftParen, opened⟩ :: (ts ++ [⟨.symbol .rightParen, closed⟩])) e

end

/-! ## Statements -/

/-- A name, the name it is given (itself, if no other), and the span of the first. -/
inductive IsBinding : Tokens → String × String × Span → Prop
  | plain {n : String} {span : Span} : IsBinding [⟨.identifier n, span⟩] (n, n, span)
  | renamed {n m : String} {span asWord other : Span} :
      IsBinding [⟨.identifier n, span⟩, ⟨.word .asWord, asWord⟩, ⟨.identifier m, other⟩] (n, m, span)

/-- `binding ("," binding)* ","?` -/
inductive AreBindings : Tokens → List (String × String × Span) → Prop
  | listed {ts ended : Tokens} {bs : List (String × String × Span)} :
      Listed IsBinding ts bs → OptionalComma ended → AreBindings (ts ++ ended) bs

/-- `"=" expression ";"` -/
inductive IsInitializer : Tokens → Expression → Prop
  | of {ts : Tokens} {e : Expression} {equal ended : Span} : IsExpression ts e →
      IsInitializer (⟨.symbol .equal, equal⟩ :: (ts ++ [⟨.symbol .semicolon, ended⟩])) e

inductive IsStatement : Tokens → Statement → Prop
  | importBare {s : String} {span source ended : Span} :
      IsStatement [⟨.word .importWord, span⟩, ⟨.string s, source⟩, ⟨.symbol .semicolon, ended⟩]
        (.importFrom ⟨s, [], span⟩)
  | importNames {ts : Tokens} {bs : List (String × String × Span)} {s : String}
      {span opened closed fromWord source ended : Span} : AreBindings ts bs →
      IsStatement (⟨.word .importWord, span⟩ :: ⟨.symbol .leftBrace, opened⟩ :: (ts ++
          [⟨.symbol .rightBrace, closed⟩, ⟨.word .fromWord, fromWord⟩, ⟨.string s, source⟩,
            ⟨.symbol .semicolon, ended⟩]))
        (.importFrom ⟨s, bs.map fun (imported, here, span) => ⟨imported, here, span⟩, span⟩)
  | exportLet {ts : Tokens} {n : String} {e : Expression} {exportWord letWord span : Span} :
      IsInitializer ts e →
      IsStatement (⟨.word .exportWord, exportWord⟩ :: ⟨.word .letWord, letWord⟩ ::
        ⟨.identifier n, span⟩ :: ts) (.declare n e true span)
  | exportNone {exportWord opened closed ended : Span} :
      IsStatement [⟨.word .exportWord, exportWord⟩, ⟨.symbol .leftBrace, opened⟩,
        ⟨.symbol .rightBrace, closed⟩, ⟨.symbol .semicolon, ended⟩] (.exportList [])
  | exportNames {ts : Tokens} {bs : List (String × String × Span)}
      {exportWord opened closed ended : Span} : AreBindings ts bs →
      IsStatement (⟨.word .exportWord, exportWord⟩ :: ⟨.symbol .leftBrace, opened⟩ :: (ts ++
          [⟨.symbol .rightBrace, closed⟩, ⟨.symbol .semicolon, ended⟩]))
        (.exportList (bs.map fun (here, exported, span) => ⟨here, exported, span⟩))
  | declare {ts : Tokens} {n : String} {e : Expression} {letWord span : Span} :
      IsInitializer ts e →
      IsStatement (⟨.word .letWord, letWord⟩ :: ⟨.identifier n, span⟩ :: ts)
        (.declare n e false span)
  | assign {ts : Tokens} {n : String} {e : Expression} {span : Span} : IsInitializer ts e →
      IsStatement (⟨.identifier n, span⟩ :: ts) (.assign n e span)
  | expression {ts : Tokens} {e : Expression} {ended : Span} : IsExpression ts e →
      IsStatement (ts ++ [⟨.symbol .semicolon, ended⟩]) (.expression e)

inductive AreStatements : Tokens → List Statement → Prop
  | none : AreStatements [] []
  | more {first rest : Tokens} {s : Statement} {ss : List Statement} :
      IsStatement first s → AreStatements rest ss → AreStatements (first ++ rest) (s :: ss)

def IsProgram (ts : Tokens) (p : Program) : Prop := AreStatements ts p.statements

end ModuleLoader.Script
