/-!
Texts between quotes in a TOML document. Double quotes allow escapes, single quotes do not; three
quotes let a text run over several lines. A reader gives what it read and what is left.
-/
namespace ModuleLoader.Toml

abbrev Reader (α : Type) := List Char → Option (α × List Char)

/-- Characters that stand for themselves in a text and in a comment: all but the controls. -/
def isPlain (c : Char) : Bool := c = '\t' || (0x20 ≤ c.toNat && c.toNat ≠ 0x7f)

def isGap (c : Char) : Bool := c = ' ' || c = '\t'

def hexValue? (c : Char) : Option Nat :=
  if '0' ≤ c ∧ c ≤ '9' then some (c.toNat - 48)
  else if 'a' ≤ c ∧ c ≤ 'f' then some (c.toNat - 87)
  else if 'A' ≤ c ∧ c ≤ 'F' then some (c.toNat - 55)
  else none

/-- The character that hexadecimal digits name, if they name one. -/
def hexChar? (digits : List Char) : Option Char := do
  let values ← digits.mapM hexValue?
  let n := values.foldl (fun n d => 16 * n + d) 0
  if n.isValidChar then some (Char.ofNat n) else none

/-- The characters that a backslash and a letter stand for. -/
def shortEscape? (c : Char) : Option Char :=
  match c with
  | 'b' => some '\x08'
  | 't' => some '\t'
  | 'n' => some '\n'
  | 'f' => some '\x0c'
  | 'r' => some '\r'
  | '"' => some '"'
  | '\\' => some '\\'
  | _ => none

/-- Puts a character in front of what a reader gives. -/
def consChar (c : Char) (rest : Option (List Char × List Char)) : Option (List Char × List Char) :=
  rest.map fun (cs, left) => (c :: cs, left)

/-- A text on one line, behind its opening double quote. -/
def basicTail : Reader (List Char)
  | [] => none
  | '"' :: rest => some ([], rest)
  | '\\' :: 'u' :: a :: b :: c :: d :: rest => do
    consChar (← hexChar? [a, b, c, d]) (basicTail rest)
  | '\\' :: 'U' :: a :: b :: c :: d :: e :: f :: g :: h :: rest => do
    consChar (← hexChar? [a, b, c, d, e, f, g, h]) (basicTail rest)
  | '\\' :: e :: rest => do consChar (← shortEscape? e) (basicTail rest)
  | c :: rest => if isPlain c ∧ c ≠ '\\' then consChar c (basicTail rest) else none

/-- A text on one line, behind its opening single quote. -/
def literalTail : Reader (List Char)
  | [] => none
  | '\'' :: rest => some ([], rest)
  | c :: rest => if isPlain c then consChar c (literalTail rest) else none

/-- Where a text on several lines stands with a line that ends in a backslash. -/
inductive Fold
  | none
  /-- Behind the backslash, in front of the end of the line. -/
  | line
  /-- Behind the end of the line, in front of the next character that is no blank. -/
  | blanks
deriving DecidableEq

/--
A text on several lines, behind its three opening double quotes. One or two quotes are part of the
text, also in front of the three that close it.
-/
def basicLinesTail (fold : Fold) : Reader (List Char)
  | [] => none
  | '\r' :: '\n' :: rest =>
    if fold = .none then consChar '\n' (basicLinesTail .none rest) else basicLinesTail .blanks rest
  | '\n' :: rest =>
    if fold = .none then consChar '\n' (basicLinesTail .none rest) else basicLinesTail .blanks rest
  | c :: rest =>
    if fold ≠ .none ∧ isGap c then basicLinesTail fold rest
    else if fold = .line then none
    else
      match c, rest with
      | '"', '"' :: '"' :: '"' :: '"' :: left => some (['"', '"'], left)
      | '"', '"' :: '"' :: '"' :: left => some (['"'], left)
      | '"', '"' :: '"' :: left => some ([], left)
      | '\\', 'u' :: a :: b :: c :: d :: rest => do
        consChar (← hexChar? [a, b, c, d]) (basicLinesTail .none rest)
      | '\\', 'U' :: a :: b :: c :: d :: e :: f :: g :: h :: rest => do
        consChar (← hexChar? [a, b, c, d, e, f, g, h]) (basicLinesTail .none rest)
      | '\\', e :: rest =>
        match shortEscape? e with
        | some c => consChar c (basicLinesTail .none rest)
        | none => if isGap e ∨ e = '\n' ∨ e = '\r' then basicLinesTail .line (e :: rest) else none
      | '\\', [] => none
      | c, rest => if isPlain c then consChar c (basicLinesTail .none rest) else none
termination_by cs => cs.length

/-- A text on several lines, behind its three opening single quotes. -/
def literalLinesTail : Reader (List Char)
  | [] => none
  | '\r' :: '\n' :: rest => consChar '\n' (literalLinesTail rest)
  | '\n' :: rest => consChar '\n' (literalLinesTail rest)
  | '\'' :: '\'' :: '\'' :: '\'' :: '\'' :: left => some (['\'', '\''], left)
  | '\'' :: '\'' :: '\'' :: '\'' :: left => some (['\''], left)
  | '\'' :: '\'' :: '\'' :: left => some ([], left)
  | c :: rest => if isPlain c then consChar c (literalLinesTail rest) else none

/-- A line end directly behind the opening quotes is not part of the text. -/
def dropLineEnd : List Char → List Char
  | '\r' :: '\n' :: rest => rest
  | '\n' :: rest => rest
  | cs => cs

/-- A text on one line with its quotes, as a key can be written. -/
def lineText : Reader String
  | '"' :: rest => (basicTail rest).map fun (cs, left) => (String.ofList cs, left)
  | '\'' :: rest => (literalTail rest).map fun (cs, left) => (String.ofList cs, left)
  | _ => none

/-- Any text with its quotes. -/
def anyText : Reader String
  | '"' :: '"' :: '"' :: rest =>
    (basicLinesTail .none (dropLineEnd rest)).map fun (cs, left) => (String.ofList cs, left)
  | '\'' :: '\'' :: '\'' :: rest =>
    (literalLinesTail (dropLineEnd rest)).map fun (cs, left) => (String.ofList cs, left)
  | cs => lineText cs

end ModuleLoader.Toml
