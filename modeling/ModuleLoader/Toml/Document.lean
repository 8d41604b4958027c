import ModuleLoader.Toml.Quote
import ModuleLoader.Toml.Scalar
/-!
Reading TOML documents. Every rule of the format is checked for the whole document, so that one
mistake anywhere leaves nothing: a document is read to its end or not at all.
-/
namespace ModuleLoader.Toml

/-- Reads as often as a reader gives something and gets on. -/
def many {α : Type} (read : Reader α) (cs : List Char) : List α × List Char :=
  match read cs with
  | none => ([], cs)
  | some (a, rest) =>
    if rest.length < cs.length then
      let (more, left) := many read rest
      (a :: more, left)
    else ([a], rest)
termination_by cs.length

def skipGaps (cs : List Char) : List Char := cs.dropWhile isGap

/-- Without a comment at the head. -/
def skipComment : List Char → List Char
  | '#' :: rest => rest.dropWhile isPlain
  | cs => cs

/-- The rest of a line that holds nothing but a comment, with its end. -/
def lineEnd? (cs : List Char) : Option (List Char) :=
  match skipComment (skipGaps cs) with
  | [] => some []
  | '\n' :: rest => some rest
  | '\r' :: '\n' :: rest => some rest
  | _ => none

/-- One line that holds nothing but a comment; the end of the document is none. -/
def blankLine : Reader Unit
  | [] => none
  | cs => (lineEnd? cs).map fun rest => ((), rest)

/-- Without blank lines, comments and gaps at the head; all may stand inside an array. -/
def skipBlank (cs : List Char) : List Char := skipGaps (many blankLine cs).2

/-! ## Keys -/

def isBareKeyChar (c : Char) : Bool := c.isAlphanum || c = '_' || c = '-'

def simpleKey (cs : List Char) : Option (String × List Char) :=
  match cs.takeWhile isBareKeyChar with
  | [] => lineText cs
  | bare => some (String.ofList bare, cs.dropWhile isBareKeyChar)

/-- A part of a dotted key behind its dot. -/
def dottedPart (cs : List Char) : Option (String × List Char) :=
  match skipGaps cs with
  | '.' :: rest => simpleKey (skipGaps rest)
  | _ => none

/-- The greatest depth of arrays, tables in braces and dotted keys, which must stay below it. -/
def depthLimit : Nat := 80

/-- A key with or without dots: the path in front of its last part, and that part. -/
def key (cs : List Char) : Option ((List String × String) × List Char) := do
  let (first, rest) ← simpleKey (skipGaps cs)
  let (more, rest) := many dottedPart rest
  if depthLimit ≤ more.length + 1 then none
  else return (((first :: more).dropLast, more.getLast?.getD first), skipGaps rest)

/-! ## Values -/

/-- An element of an array, and whether a comma follows it. -/
def element (value : Reader Item) : Reader (Item × Bool) := fun cs => do
  let (item, rest) ← value (skipBlank cs)
  match skipBlank rest with
  | ',' :: rest => return ((item, true), rest)
  | rest => return ((item, false), rest)

/-- The elements between brackets; a comma is behind each, or each but the last. -/
def arrayTail (value : Reader Item) (cs : List Char) : Option (Item × List Char) :=
  let (elements, rest) := many (element value) cs
  match skipBlank rest with
  | ']' :: left =>
    if elements.dropLast.all (·.2) then some (.array (elements.map (·.1)), left) else none
  | _ => none

/-- A key, an equals sign and a value. -/
def keyValue (value : Reader Item) (cs : List Char) :
    Option ((List String × String × Item) × List Char) := do
  let ((path, last), rest) ← key cs
  match rest with
  | '=' :: rest =>
    let (item, rest) ← value (skipGaps rest)
    return ((path, last, item), rest)
  | _ => none

/-- The entries between braces on one line, with commas between them and none behind the last. -/
def closedTail (value : Reader Item) (cs : List Char) : Option (Item × List Char) := do
  let next : Reader (List String × String × Item) := fun cs =>
    match skipGaps cs with
    | ',' :: rest => keyValue value rest
    | _ => none
  let (pairs, rest) ← match skipGaps cs with
    | '}' :: _ => some ([], skipGaps cs)
    | cs => do
      let (first, rest) ← keyValue value cs
      let (more, rest) := many next rest
      some (first :: more, skipGaps rest)
  match rest with
  | '}' :: left =>
    let entries ← pairs.foldlM
      (fun entries (path, key, item) => Entries.addDotted entries path key item) []
    return (.closed entries, left)
  | _ => none

/-- A word, or a date and a time with a space between them. -/
def word (cs : List Char) : List Char × List Char :=
  let first := cs.takeWhile isWordChar
  let rest := cs.dropWhile isWordChar
  match afterDate? first, rest with
  | some [], ' ' :: more =>
    match more.takeWhile isWordChar with
    | [] => (first, rest)
    | second => (first ++ ' ' :: second, more.dropWhile isWordChar)
  | _, _ => (first, rest)

/-- A value; `depth` more arrays and tables in braces may open inside each other. -/
def value (depth : Nat) (cs : List Char) : Option (Item × List Char) :=
  match cs with
  | '"' :: _ | '\'' :: _ => (anyText cs).map fun (s, rest) => (.text s, rest)
  | '[' :: rest =>
    match depth with
    | 0 => none
    | depth + 1 => arrayTail (value depth) rest
  | '{' :: rest =>
    match depth with
    | 0 => none
    | depth + 1 => closedTail (value depth) rest
  | cs =>
    let (w, rest) := word cs
    (scalar? w).map fun item => (item, rest)

/-! ## Documents -/

/-- One line of a document. -/
inductive Line
  | blank
  | pair (path : List String) (key : String) (item : Item)
  | header (path : List String) (key : String)
  | nextHeader (path : List String) (key : String)

/-- A header between brackets, of which `close` are the closing ones. -/
def headerTail (close : List Char) (line : List String → String → Line) (cs : List Char) :
    Option (Line × List Char) := do
  let ((path, last), rest) ← key cs
  if close.isPrefixOf rest then
    let rest ← lineEnd? (rest.drop close.length)
    return (line path last, rest)
  else none

def line (cs : List Char) : Option (Line × List Char) :=
  match skipGaps cs with
  | [] => none
  | '#' :: rest => (lineEnd? ('#' :: rest)).map fun rest => (.blank, rest)
  | '\n' :: rest | '\r' :: '\n' :: rest => some (.blank, rest)
  | '[' :: '[' :: rest => headerTail [']', ']'] .nextHeader rest
  | '[' :: rest => headerTail [']'] .header rest
  | cs => do
    let ((path, last, item), rest) ← keyValue (value (depthLimit - 1)) cs
    let rest ← lineEnd? rest
    return (.pair path last item, rest)

/-- Adds the pairs of a table up to the next header. -/
def fillFrom (lines : List Line) (entries : Entries) : Option Entries :=
  match lines with
  | [] => some entries
  | .blank :: rest => fillFrom rest entries
  | .pair path key item :: rest => do fillFrom rest (← entries.addDotted path key item)
  | _ => some entries

/-- Puts the tables of all headers into a document whose lines begin with the rest of a table. -/
def addTables (entries : Entries) : List Line → Option Entries
  | [] => some entries
  | .header path key :: rest => do addTables (← entries.openTable path key (fillFrom rest)) rest
  | .nextHeader path key :: rest => do addTables (← entries.openNextTable path key (fillFrom rest)) rest
  | _ :: rest => addTables entries rest

/-- The entries of a document, if it is one. A byte order mark may stand in front. -/
def parse (document : String) : Option Entries :=
  let cs := match document.toList with
    | '\uFEFF' :: rest => rest
    | cs => cs
  match many line cs with
  | (lines, rest) =>
    if skipGaps rest = [] then do addTables (← fillFrom lines []) lines else none

end ModuleLoader.Toml
