import ModuleLoader.Decimal.Numeral
import ModuleLoader.Toml.Item
import ModuleLoader.Toml.Quote
/-!
Values of a TOML document that are written without quotes: truth values, integers of 64 bits,
floats, dates and times. Each is one word; a date and a time may also have a single space between
them.
-/
namespace ModuleLoader.Toml

open Decimal (ofDigits splitSign scaled)

/-- Characters of which words consist. -/
def isWordChar (c : Char) : Bool :=
  c.isAlphanum || c = '_' || c = '+' || c = '-' || c = '.' || c = ':'

/-- Digits of a base, of which underscores may separate any two. -/
def digitRun? (base : Nat) (value? : Char → Option Nat) : List Char → Option (List Nat)
  | [] => none
  | [c] => (digit? c).map ([·])
  | c :: '_' :: rest => do return (← digit? c) :: (← digitRun? base value? rest)
  | c :: rest => do return (← digit? c) :: (← digitRun? base value? rest)
where
  digit? (c : Char) : Option Nat := (value? c).filter (· < base)

/-- Decimal digits without a superfluous zero in front. -/
def wholeDigits? (cs : List Char) : Option (List Nat) :=
  match digitRun? 10 hexValue? cs with
  | some (0 :: _ :: _) => none
  | r => r

def integer? (word : List Char) : Option Int := do
  let n ← match word with
    | '0' :: 'x' :: rest => (digitRun? 16 hexValue? rest).map fun ds => (ofDigits 16 ds : Int)
    | '0' :: 'o' :: rest => (digitRun? 8 hexValue? rest).map fun ds => (ofDigits 8 ds : Int)
    | '0' :: 'b' :: rest => (digitRun? 2 hexValue? rest).map fun ds => (ofDigits 2 ds : Int)
    | word =>
      let (negative, rest) := splitSign word
      (wholeDigits? rest).map fun ds =>
        if negative then -(ofDigits 10 ds : Int) else (ofDigits 10 ds : Int)
  if -9223372036854775808 ≤ n ∧ n ≤ 9223372036854775807 then some n else none

/-- The power of ten behind an exponent mark; none at all is no exponent. -/
def exponent? : List Char → Option Int
  | [] => some 0
  | mark :: rest =>
    if mark = 'e' ∨ mark = 'E' then
      let (negative, digits) := splitSign rest
      (digitRun? 10 hexValue? digits).map fun ds =>
        if negative then -(ofDigits 10 ds : Int) else (ofDigits 10 ds : Int)
    else none

/-- A float has a fraction, an exponent or both, and no finite one is too great to be finite. -/
def float? (word : List Char) : Option Float :=
  let (negative, rest) := splitSign word
  let signed (x : Float) : Float := if negative then -x else x
  if rest = ['i', 'n', 'f'] then some (signed (1 / 0))
  else if rest = ['n', 'a', 'n'] then some (signed (0 / 0))
  else do
    let isDigit (c : Char) : Bool := c.isDigit || c = '_'
    let whole ← wholeDigits? (rest.takeWhile isDigit)
    let x ← match rest.dropWhile isDigit with
      | '.' :: rest => do
        let fraction ← digitRun? 10 hexValue? (rest.takeWhile isDigit)
        let e ← exponent? (rest.dropWhile isDigit)
        pure (scaled (ofDigits 10 (whole ++ fraction)) (e - fraction.length))
      | [] => none
      | rest => (exponent? rest).map fun e => scaled (ofDigits 10 whole) e
    if signed x == 1 / 0 then none else some (signed x)

/-- Exactly two digits, as a number in a range. -/
def twoDigits? (a b : Char) (low high : Nat) : Option Nat :=
  if a.isDigit ∧ b.isDigit then
    some (10 * (a.toNat - 48) + (b.toNat - 48)) |>.filter fun n => low ≤ n ∧ n ≤ high
  else none

def daysInMonth (year month : Nat) : Nat :=
  if month = 2 then
    if year % 4 = 0 ∧ (year % 100 ≠ 0 ∨ year % 400 = 0) then 29 else 28
  else if [4, 6, 9, 11].contains month then 30
  else 31

/-- Whether a word is the offset of a time zone, if there is one at all. -/
def isOffset : List Char → Bool
  | [] => true
  | ['Z'] | ['z'] => true
  | [sign, a, b, ':', c, d] =>
    (sign = '+' || sign = '-') && (twoDigits? a b 0 23).isSome && (twoDigits? c d 0 59).isSome
  | _ => false

/-- What is behind a time of day at the head of a word. -/
def afterTime? : List Char → Option (List Char)
  | a :: b :: ':' :: c :: d :: ':' :: e :: f :: rest => do
    let _ ← twoDigits? a b 0 23
    let _ ← twoDigits? c d 0 59
    let _ ← twoDigits? e f 0 60
    match rest with
    | '.' :: digit :: rest => if digit.isDigit then some (rest.dropWhile Char.isDigit) else none
    | '.' :: [] => none
    | rest => some rest
  | _ => none

/-- What is behind a date at the head of a word. -/
def afterDate? : List Char → Option (List Char)
  | a :: b :: c :: d :: '-' :: e :: f :: '-' :: g :: h :: rest => do
    let century ← twoDigits? a b 0 99
    let year ← twoDigits? c d 0 99
    let month ← twoDigits? e f 1 12
    let _ ← twoDigits? g h 1 (daysInMonth (100 * century + year) month)
    some rest
  | _ => none

def isTimeWithOffset (word : List Char) : Bool :=
  match afterTime? word with
  | some rest => isOffset rest
  | none => false

/-- A time alone has no offset. -/
def isMoment (word : List Char) : Bool :=
  match afterDate? word with
  | some [] => true
  | some (c :: rest) => (c = 'T' || c = 't' || c = ' ') && isTimeWithOffset rest
  | none => afterTime? word = some []

/-- The item that a word stands for. -/
def scalar? (word : List Char) : Option Item :=
  if word = ['t', 'r', 'u', 'e'] then some (.boolean true)
  else if word = ['f', 'a', 'l', 's', 'e'] then some (.boolean false)
  else if isMoment word then some (.moment (String.ofList word))
  else
    match integer? word with
    | some n => some (.integer n)
    | none => (float? word).map .float

end ModuleLoader.Toml
