import ModuleLoader.Text.CombiningClass
import ModuleLoader.Text.Composites
/-!
Composition of characters with the marks behind them. A text is taken apart, its marks are put in
the order of their classes, and everything is put together again that has a composed form; so texts
that look the same become the same.
-/
namespace ModuleLoader.Text

/-- The parts of a character; no chain of compositions is longer than `depth`. -/
def parts : Nat → Char → List Char
  | 0, c => [c]
  | depth + 1, c =>
    match composites.find? fun entry => entry.composed = c with
    | some entry => parts depth entry.first ++ parts depth entry.second
    | none => [c]

def takeApart (cs : List Char) : List Char := cs.flatMap (parts 4)

/-- Puts a mark behind those of its class and lower ones; `marks` is ordered. -/
def insertMark (c : Char) : List Char → List Char
  | [] => [c]
  | m :: rest =>
    if combiningClass c < combiningClass m then c :: m :: rest else m :: insertMark c rest

/-- Orders the marks of each run by class; marks of one class keep their order. -/
def orderMarks (run : List Char) : List Char → List Char
  | [] => run
  | c :: rest =>
    if combiningClass c = 0 then run ++ c :: orderMarks [] rest
    else orderMarks (insertMark c run) rest

/-- Syllables of Hangul compose by arithmetic: a lead with a vowel, and both with a tail. -/
def composeHangul? (first second : Char) : Option Char :=
  let (a, b) := (first.toNat, second.toNat)
  if 0x1100 ≤ a ∧ a < 0x1113 ∧ 0x1161 ≤ b ∧ b < 0x1176 then
    some (Char.ofNat (0xac00 + ((a - 0x1100) * 21 + (b - 0x1161)) * 28))
  else if 0xac00 ≤ a ∧ a < 0xd7a4 ∧ (a - 0xac00) % 28 = 0 ∧ 0x11a7 < b ∧ b < 0x11c3 then
    some (Char.ofNat (a + (b - 0x11a7)))
  else none

def composePair? (first second : Char) : Option Char :=
  (composeHangul? first second).or
    ((composites.find? fun entry => entry.first = first ∧ entry.second = second).map
      Composite.composed)

/--
Composes what is left with the character at hand. `marks` stand behind it and did not compose; a
mark behind one of its own class or a higher one cannot reach it.
-/
def composeFrom (base : Char) (marks : List Char) : List Char → List Char
  | [] => base :: marks
  | c :: rest =>
    let reaches := match marks.getLast? with
      | none => true
      | some m => combiningClass m < combiningClass c
    match if reaches then composePair? base c else none with
    | some composed => composeFrom composed marks rest
    | none =>
      if combiningClass c = 0 then base :: marks ++ composeFrom c [] rest
      else composeFrom base (marks ++ [c]) rest

/-- The composed form of a text. -/
def compose (cs : List Char) : List Char :=
  match orderMarks [] (takeApart cs) with
  | [] => []
  | c :: rest => composeFrom c [] rest

end ModuleLoader.Text
