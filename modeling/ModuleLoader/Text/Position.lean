/-!
Positions in a source text: 1-based lines and columns, where a column counts characters and a
newline is the only thing that ends a line. The counts are plain numbers; `Script.longest_match`
bounds them by the length of the text.
-/
namespace ModuleLoader

structure Position where
  line : Nat
  column : Nat
deriving DecidableEq, Repr

namespace Position

def start : Position := ⟨1, 1⟩

/-- The position behind one character. -/
def advance (p : Position) (c : Char) : Position :=
  if c = '\n' then ⟨p.line + 1, 1⟩ else ⟨p.line, p.column + 1⟩

/-- The position behind a run of characters. -/
def advanceAll (p : Position) (cs : List Char) : Position := cs.foldl advance p

/-- The form in which messages give a position. -/
def text (p : Position) : String := toString p.line ++ ":" ++ toString p.column

end Position

/-- The bytes that a piece of source occupies, and the position of its first character. -/
structure Span where
  first : Nat
  last : Nat
  position : Position
deriving DecidableEq, Repr

namespace Text

/-- The UTF-8 length of a run of characters. -/
def byteLength : List Char → Nat
  | [] => 0
  | c :: cs => c.utf8Size + byteLength cs

/-- A carriage return right before the newline belongs to the line end. -/
def dropCarriageReturn (line : List Char) : List Char :=
  if line.getLast? = some '\r' then line.dropLast else line

/-- What stands between the newlines; there is always one piece more than newlines. -/
def pieces : List Char → List (List Char)
  | [] => [[]]
  | c :: cs =>
    if c = '\n' then [] :: pieces cs
    else match pieces cs with
      | [] => [[c]]
      | piece :: more => (c :: piece) :: more

/--
The lines of a text without their ends. A newline at the end of the text opens no further line,
so the empty text has no lines at all.
-/
def lines (cs : List Char) : List (List Char) :=
  match (pieces cs).reverse with
  | [] => []
  | last :: ended =>
    (ended.reverse.map dropCarriageReturn) ++ (if last.isEmpty then [] else [last])

/-- Behind the last character of the last line; the first position if there is no line. -/
def endPosition (cs : List Char) : Position :=
  match (lines cs).getLast? with
  | none => .start
  | some line => ⟨(lines cs).length, line.length + 1⟩

end Text

end ModuleLoader
