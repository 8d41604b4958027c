import ModuleLoader.Text.Position
import ModuleLoader.Text.Quoted
import ModuleLoader.Decimal.Shortest
/-!
The tokens of a script and how a source text splits into them.

At each place the longest lexeme counts: a run of blanks, a comment up to the end of its line, a
word, a numeral, a string in either kind of quotes, or a single symbol. Words that are reserved
are not identifiers. The first place where no lexeme starts is the error.
-/
namespace ModuleLoader.Script

/-- The reserved words. -/
inductive Word
  | importWord | fromWord | exportWord | letWord | asWord | trueWord | falseWord | nullWord
deriving DecidableEq, Repr

inductive Symbol
  | leftBrace | rightBrace | leftParen | rightParen | comma | semicolon | equal
  | plus | minus | star | slash
deriving DecidableEq, Repr

inductive Token
  | word (w : Word)
  | symbol (s : Symbol)
  | identifier (name : String)
  | number (x : Float)
  | string (s : String)
deriving DecidableEq, Inhabited

def Word.spelling : Word → String
  | importWord => "import"
  | fromWord => "from"
  | exportWord => "export"
  | letWord => "let"
  | asWord => "as"
  | trueWord => "true"
  | falseWord => "false"
  | nullWord => "null"

def Word.all : List Word :=
  [importWord, fromWord, exportWord, letWord, asWord, trueWord, falseWord, nullWord]

def Symbol.spelling : Symbol → Char
  | leftBrace => '{'
  | rightBrace => '}'
  | leftParen => '('
  | rightParen => ')'
  | comma => ','
  | semicolon => ';'
  | equal => '='
  | plus => '+'
  | minus => '-'
  | star => '*'
  | slash => '/'

def Symbol.all : List Symbol :=
  [leftBrace, rightBrace, leftParen, rightParen, comma, semicolon, equal, plus, minus, star, slash]

def Symbol.ofChar? (c : Char) : Option Symbol := Symbol.all.find? (·.spelling = c)

/-- How messages name a token. -/
def Token.text : Token → String
  | word w => "'" ++ w.spelling ++ "'"
  | symbol s => "'" ++ s.spelling.toString ++ "'"
  | identifier name => "identifier '" ++ name ++ "'"
  | number x => "number " ++ Decimal.text x
  | string s => "string " ++ Text.quoted s

/-! ## Classes of characters -/

def isBlank (c : Char) : Bool := c = ' ' || c = '\t' || c = '\r' || c = '\n'

def isWordStart (c : Char) : Bool := c.isAlpha || c = '_' || c = '$'

def isWordPart (c : Char) : Bool := isWordStart c || c.isDigit

/-! ## Lexemes -/

/-- A reserved word, or an identifier. -/
def Token.ofWord (cs : List Char) : Token :=
  let spelling := String.ofList cs
  match Word.all.find? (·.spelling = spelling) with
  | some w => .word w
  | none => .identifier spelling

/-- The part of a string between its quotes; a newline or the end of the text leaves it open. -/
def stringBody? (quote : Char) : List Char → Option (List Char)
  | [] => none
  | c :: cs =>
    if c = quote then some []
    else if c = '\n' then none
    else if c = '\\' then
      match cs with
      | [] => none
      | d :: ds => if d = '\n' then none else (stringBody? quote ds).map (c :: d :: ·)
    else (stringBody? quote cs).map (c :: ·)

/-- The character that a backslash and `c` stand for. -/
def escaped (c : Char) : Char :=
  match c with
  | 'n' => '\n'
  | 'r' => '\r'
  | 't' => '\t'
  | '0' => '\x00'
  | c => c

/-- Resolves the escapes of a string body. -/
def unescape : List Char → List Char
  | [] => []
  | ['\\'] => ['\\']
  | '\\' :: c :: cs => escaped c :: unescape cs
  | c :: cs => c :: unescape cs

/-- The digits of a numeral: the whole part, and the part behind a point that has digits behind it. -/
def numeralParts (cs : List Char) : List Char × List Char :=
  let whole := cs.takeWhile Char.isDigit
  match cs.drop whole.length with
  | '.' :: rest => (whole, rest.takeWhile Char.isDigit)
  | _ => (whole, [])

/-- What the next lexeme is: skipped text, or a token. -/
inductive Lexeme
  | skipped (chars : List Char)
  | token (t : Token) (chars : List Char)

def Lexeme.chars : Lexeme → List Char
  | skipped chars => chars
  | token _ chars => chars

/-- A numeral; the point belongs to it only if a digit follows. -/
def numeral (cs : List Char) : Lexeme :=
  let (whole, fraction) := numeralParts cs
  .token (.number (Decimal.ofNumeral whole fraction))
    (if fraction.isEmpty then whole else whole ++ '.' :: fraction)

/-- The longest lexeme at the head of the text. -/
def lexeme? : List Char → Option Lexeme
  | [] => none
  | c :: cs =>
    if isBlank c then some (.skipped (c :: cs.takeWhile isBlank))
    else if c = '/' ∧ cs.head? = some '/' then some (.skipped (c :: cs.takeWhile (· ≠ '\n')))
    else if isWordStart c then
      some (.token (.ofWord (c :: cs.takeWhile isWordPart)) (c :: cs.takeWhile isWordPart))
    else if c.isDigit then some (numeral (c :: cs))
    else if c = '"' ∨ c = '\'' then
      (stringBody? c cs).map fun body =>
        .token (.string (String.ofList (unescape body))) (c :: body ++ [c])
    else (Symbol.ofChar? c).map fun s => .token (.symbol s) [c]

theorem numeral_chars_ne_nil {c : Char} (cs : List Char) (digit : c.isDigit = true) :
    (numeral (c :: cs)).chars ≠ [] := by
  have whole : (numeralParts (c :: cs)).1 ≠ [] := by
    simp only [numeralParts, List.takeWhile_cons, digit]
    split <;> simp
  simp only [numeral, Lexeme.chars]
  split
  · exact whole
  · simp

theorem lexeme?_chars_ne_nil {cs : List Char} {l : Lexeme} (h : lexeme? cs = some l) :
    l.chars ≠ [] := by
  cases cs with
  | nil => simp [lexeme?] at h
  | cons c cs =>
    simp only [lexeme?] at h
    split at h
    · cases h; simp [Lexeme.chars]
    split at h
    · cases h; simp [Lexeme.chars]
    split at h
    · cases h; simp [Lexeme.chars]
    split at h
    · cases h; exact numeral_chars_ne_nil cs (by assumption)
    split at h
    · obtain ⟨body, _, rfl⟩ := Option.map_eq_some_iff.1 h
      simp [Lexeme.chars]
    · obtain ⟨s, _, rfl⟩ := Option.map_eq_some_iff.1 h
      simp [Lexeme.chars]

/-! ## The whole text -/

/-- A token with its place in the source. -/
structure Placed where
  token : Token
  span : Span
deriving DecidableEq

/-- The text at a place where no lexeme starts. -/
structure Stray where
  position : Position
  char : Char
deriving DecidableEq, Repr

/-- The tokens from a place onwards, where `offset` bytes have been read already. -/
def tokensFrom (cs : List Char) (offset : Nat) (position : Position) : Except Stray (List Placed) :=
  match cs with
  | [] => .ok []
  | c :: rest =>
    match h : lexeme? (c :: rest) with
    | none => .error ⟨position, c⟩
    | some l =>
      have : 0 < l.chars.length := List.length_pos_iff.2 (lexeme?_chars_ne_nil h)
      let next := offset + Text.byteLength l.chars
      let more := tokensFrom ((c :: rest).drop l.chars.length) next (position.advanceAll l.chars)
      match l with
      | .skipped _ => more
      | .token t _ => more.map (⟨t, ⟨offset, next, position⟩⟩ :: ·)
termination_by cs.length

/-- All tokens of a source text, in order. -/
def tokens (source : String) : Except Stray (List Placed) := tokensFrom source.toList 0 .start

end ModuleLoader.Script
