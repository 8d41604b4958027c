import ModuleLoader.Script.Token
import ModuleLoader.Script.Tree
/-!
From tokens to a program, by recursive descent.

    program    := statement*
    statement  := "import" STRING ";"
                | "import" "{" binding ("," binding)* ","? "}" "from" STRING ";"
                | "export" "let" NAME "=" expression ";"
                | "export" "{" (binding ("," binding)* ","?)? "}" ";"
                | "let" NAME "=" expression ";"
                | NAME "=" expression ";"
                | expression ";"
    binding    := NAME ("as" NAME)?
    expression := term (("+" | "-") term)*
    term       := unary (("*" | "/") unary)*
    unary      := "-" unary | call
    call       := primary ("(" arguments ")")*
    arguments  := (expression ("," expression)* ","?)?
    primary    := NUMBER | STRING | "true" | "false" | "null" | NAME | "(" expression ")"

Each function reads from the front of the tokens and returns the ones behind with the proof that
they are fewer. A failure keeps the tokens that were not read: the first of them, or the end of
the input, is what could not be there.
-/
namespace ModuleLoader.Script

abbrev Tokens := List Placed

/-- What the grammar allows where something else was found. -/
inductive Expected
  | symbol (s : Symbol)
  | word (w : Word)
  | identifier
  | specifier
  | expression
deriving DecidableEq, Repr

def Expected.text : Expected → String
  | symbol s => (Token.symbol s).text
  | word w => (Token.word w).text
  | identifier => "an identifier"
  | specifier => "a module specifier string"
  | expression => "an expression"

structure Failure where
  expected : Expected
  rest : Tokens

/-- A value read from the front of some tokens, and the fewer than `bound` tokens behind it. -/
structure Reading (α : Type) (bound : Nat) where
  value : α
  rest : Tokens
  fits : rest.length < bound

abbrev Parse (α : Type) (bound : Nat) := Except Failure (Reading α bound)

namespace Reading

variable {α β : Type} {m n : Nat}

def widen (r : Reading α m) (h : m ≤ n) : Reading α n := ⟨r.value, r.rest, Nat.lt_of_lt_of_le r.fits h⟩

def map (f : α → β) (r : Reading α n) : Reading β n := ⟨f r.value, r.rest, r.fits⟩

end Reading

/-! ## Single tokens -/

/-- Reads one given symbol and returns its span. -/
def symbol (s : Symbol) (ts : Tokens) : Parse Span ts.length :=
  match ts with
  | ⟨.symbol t, span⟩ :: rest =>
    if t = s then .ok ⟨span, rest, by simp⟩ else .error ⟨.symbol s, ⟨.symbol t, span⟩ :: rest⟩
  | ts => .error ⟨.symbol s, ts⟩

/-- Reads one given reserved word and returns its span. -/
def word (w : Word) (ts : Tokens) : Parse Span ts.length :=
  match ts with
  | ⟨.word v, span⟩ :: rest =>
    if v = w then .ok ⟨span, rest, by simp⟩ else .error ⟨.word w, ⟨.word v, span⟩ :: rest⟩
  | ts => .error ⟨.word w, ts⟩

def name (ts : Tokens) : Parse (String × Span) ts.length :=
  match ts with
  | ⟨.identifier n, span⟩ :: rest => .ok ⟨(n, span), rest, by simp⟩
  | ts => .error ⟨.identifier, ts⟩

def specifier (ts : Tokens) : Parse String ts.length :=
  match ts with
  | ⟨.string s, _⟩ :: rest => .ok ⟨s, rest, by simp⟩
  | ts => .error ⟨.specifier, ts⟩

/-- Whether the next token is the given symbol. -/
def startsWith (s : Symbol) : Tokens → Bool
  | ⟨.symbol t, _⟩ :: _ => t = s
  | _ => false

/-! ## Expressions -/

/-- The operators that join terms. -/
def additive? : Tokens → Option Operator
  | ⟨.symbol .plus, _⟩ :: _ => some .add
  | ⟨.symbol .minus, _⟩ :: _ => some .subtract
  | _ => none

/-- The operators that join factors. -/
def multiplicative? : Tokens → Option Operator
  | ⟨.symbol .star, _⟩ :: _ => some .multiply
  | ⟨.symbol .slash, _⟩ :: _ => some .divide
  | _ => none

mutual

def expression (ts : Tokens) : Parse Expression ts.length := do
  let left ← term ts
  have := left.fits
  let sum ← sumTail left.value left.rest
  return sum.widen (by omega)
termination_by (ts.length, 5)

/-- Further terms behind `left`, joined from the left. -/
def sumTail (left : Expression) (ts : Tokens) : Parse Expression (ts.length + 1) :=
  match additive? ts, ts with
  | some op, _ :: rest => do
    let right ← term rest
    have := right.fits
    let sum ← sumTail (.binary op left right.value) right.rest
    return sum.widen (by simp only [List.length_cons]; omega)
  | _, ts => return ⟨left, ts, by omega⟩
termination_by (ts.length, 4)

def term (ts : Tokens) : Parse Expression ts.length := do
  let left ← unary ts
  have := left.fits
  let product ← productTail left.value left.rest
  return product.widen (by omega)
termination_by (ts.length, 3)

/-- Further factors behind `left`, joined from the left. -/
def productTail (left : Expression) (ts : Tokens) : Parse Expression (ts.length + 1) :=
  match multiplicative? ts, ts with
  | some op, _ :: rest => do
    let right ← unary rest
    have := right.fits
    let product ← productTail (.binary op left right.value) right.rest
    return product.widen (by simp only [List.length_cons]; omega)
  | _, ts => return ⟨left, ts, by omega⟩
termination_by (ts.length, 2)

def unary (ts : Tokens) : Parse Expression ts.length :=
  match ts with
  | ⟨.symbol .minus, _⟩ :: rest => do
    let operand ← unary rest
    return (operand.map .negate).widen (by simp)
  | ts => do
    let callee ← primary ts
    have := callee.fits
    let call ← callTail callee.value callee.rest
    return call.widen (by omega)
termination_by (ts.length, 2)

/-- Argument lists behind `callee`. -/
def callTail (callee : Expression) (ts : Tokens) : Parse Expression (ts.length + 1) :=
  match ts with
  | ⟨.symbol .leftParen, span⟩ :: rest => do
    let args ← arguments rest
    have := args.fits
    let closed ← symbol .rightParen args.rest
    have := closed.fits
    let call ← callTail (.call callee args.value span) closed.rest
    return call.widen (by simp only [List.length_cons]; omega)
  | ts => return ⟨callee, ts, by omega⟩
termination_by (ts.length, 1)

/-- The arguments of a call, up to its closing parenthesis; a comma may stand behind the last. -/
def arguments (ts : Tokens) : Parse (List Expression) (ts.length + 1) :=
  if startsWith .rightParen ts then return ⟨[], ts, by omega⟩
  else do
    let arg ← expression ts
    have := arg.fits
    match h : arg.rest with
    | ⟨.symbol .comma, _⟩ :: rest =>
      have : rest.length < ts.length := by simp [h] at this; omega
      let more ← arguments rest
      return (more.map (arg.value :: ·)).widen (by omega)
    | rest => return ⟨[arg.value], rest, by simp [h] at this; omega⟩
termination_by (ts.length, 6)

def primary (ts : Tokens) : Parse Expression ts.length :=
  match ts with
  | ⟨.number x, _⟩ :: rest => return ⟨.number x, rest, by simp⟩
  | ⟨.string s, _⟩ :: rest => return ⟨.string s, rest, by simp⟩
  | ⟨.word .trueWord, _⟩ :: rest => return ⟨.boolean true, rest, by simp⟩
  | ⟨.word .falseWord, _⟩ :: rest => return ⟨.boolean false, rest, by simp⟩
  | ⟨.word .nullWord, _⟩ :: rest => return ⟨.null, rest, by simp⟩
  | ⟨.identifier n, span⟩ :: rest => return ⟨.identifier n span, rest, by simp⟩
  | ⟨.symbol .leftParen, _⟩ :: rest => do
    let inner ← expression rest
    have := inner.fits
    let closed ← symbol .rightParen inner.rest
    return ⟨inner.value, closed.rest, by have := closed.fits; simp only [List.length_cons]; omega⟩
  | ts => .error ⟨.expression, ts⟩
termination_by (ts.length, 1)

end

/-! ## Statements -/

/-- `NAME ("as" NAME)?`: the name, the name it is given, and the span of the first. -/
def binding (ts : Tokens) : Parse (String × String × Span) ts.length := do
  let first ← name ts
  have := first.fits
  match h : first.rest with
  | ⟨.word .asWord, _⟩ :: rest =>
    let second ← name rest
    return ⟨(first.value.1, second.value.1, first.value.2), second.rest,
      by have := second.fits; simp [h] at *; omega⟩
  | rest => return ⟨(first.value.1, first.value.1, first.value.2), rest, by simp_all⟩

/-- Bindings between braces; a comma may stand behind the last. -/
def bindings (ts : Tokens) : Parse (List (String × String × Span)) ts.length := do
  let first ← binding ts
  have := first.fits
  match h : first.rest with
  | ⟨.symbol .comma, _⟩ :: rest =>
    if startsWith .rightBrace rest then
      return ⟨[first.value], rest, by simp [h] at *; omega⟩
    else
      have : rest.length < ts.length := by simp [h] at this; omega
      let more ← bindings rest
      return (more.map (first.value :: ·)).widen (by omega)
  | rest => return ⟨[first.value], rest, by simp_all⟩
termination_by ts.length

/-- Bindings, or none at all before the closing brace. -/
def bindings? (ts : Tokens) : Parse (List (String × String × Span)) (ts.length + 1) :=
  if startsWith .rightBrace ts then return ⟨[], ts, by omega⟩
  else do return (← bindings ts).widen (by omega)

/-- `"=" expression ";"`. -/
def initializer (ts : Tokens) : Parse Expression ts.length := do
  let equal ← symbol .equal ts
  have := equal.fits
  let value ← expression equal.rest
  have := value.fits
  let ended ← symbol .semicolon value.rest
  return ⟨value.value, ended.rest, by have := ended.fits; omega⟩

/-- What follows `"let"`. -/
def declaration (exported : Bool) (ts : Tokens) : Parse Statement ts.length := do
  let target ← name ts
  have := target.fits
  let value ← initializer target.rest
  return (value.map (.declare target.value.1 · exported target.value.2)).widen (by omega)

/-- `STRING ";"`, the end of an import. -/
def importSource (bindings : List ImportBinding) (span : Span) (ts : Tokens) :
    Parse Statement ts.length := do
  let source ← specifier ts
  have := source.fits
  let ended ← symbol .semicolon source.rest
  return ⟨.importFrom ⟨source.value, bindings, span⟩, ended.rest, by have := ended.fits; omega⟩

/-- What follows `"import"`. -/
def importRest (span : Span) (ts : Tokens) : Parse Statement ts.length :=
  match ts with
  | ⟨.symbol .leftBrace, _⟩ :: rest => do
    let list ← bindings rest
    have := list.fits
    let closed ← symbol .rightBrace list.rest
    have := closed.fits
    let marker ← word .fromWord closed.rest
    have := marker.fits
    let statement ← importSource (list.value.map fun (imported, here, span) => ⟨imported, here, span⟩)
      span marker.rest
    return statement.widen (by simp only [List.length_cons]; omega)
  | ts => importSource [] span ts

/-- What follows `"export"`. -/
def exportRest (ts : Tokens) : Parse Statement ts.length :=
  match ts with
  | ⟨.word .letWord, _⟩ :: rest => do
    let statement ← declaration true rest
    return statement.widen (by simp)
  | ts => do
    let opened ← symbol .leftBrace ts
    have := opened.fits
    let list ← bindings? opened.rest
    have := list.fits
    let closed ← symbol .rightBrace list.rest
    have := closed.fits
    let ended ← symbol .semicolon closed.rest
    return ⟨.exportList (list.value.map fun (here, exported, span) => ⟨here, exported, span⟩), ended.rest,
      by have := ended.fits; omega⟩

def statement (ts : Tokens) : Parse Statement ts.length :=
  match ts with
  | ⟨.word .importWord, span⟩ :: rest => do
    return (← importRest span rest).widen (by simp)
  | ⟨.word .exportWord, _⟩ :: rest => do
    return (← exportRest rest).widen (by simp)
  | ⟨.word .letWord, _⟩ :: rest => do
    return (← declaration false rest).widen (by simp)
  | ⟨.identifier target, span⟩ :: ⟨.symbol .equal, equal⟩ :: rest => do
    let value ← initializer (⟨.symbol .equal, equal⟩ :: rest)
    return (value.map (.assign target · span)).widen (by simp)
  | ts => do
    let value ← expression ts
    have := value.fits
    let ended ← symbol .semicolon value.rest
    return ⟨.expression value.value, ended.rest, by have := ended.fits; omega⟩

/-- Statements up to the end of the tokens. -/
def statements (ts : Tokens) : Except Failure (List Statement) :=
  if ts.isEmpty then .ok []
  else do
    let first ← statement ts
    have := first.fits
    let more ← statements first.rest
    return first.value :: more
termination_by ts.length

def program (ts : Tokens) : Except Failure Program := (statements ts).map Program.mk

end ModuleLoader.Script
