/-!
Decimal numerals with a sign and an exponent, read as the nearest double.
-/
namespace ModuleLoader.Decimal

/-- The number that digits spell. -/
def ofDigits (base : Nat) (ds : List Nat) : Nat := ds.foldl (fun n d => base * n + d) 0

/-- The double nearest to `digits * 10 ^ e`, without the power where it is far out of range. -/
def scaled (digits : Nat) (e : Int) : Float :=
  let magnitude := (Nat.toDigits 10 digits).length + e
  if digits = 0 ∨ magnitude < -400 then 0
  else if 400 < magnitude then 1 / 0
  else if 0 ≤ e then Float.ofScientific digits false e.toNat
  else Float.ofScientific digits true (-e).toNat

/-- A sign that may be missing, and the rest. -/
def splitSign : List Char → Bool × List Char
  | '-' :: rest => (true, rest)
  | '+' :: rest => (false, rest)
  | cs => (false, cs)

def digitValues (cs : List Char) : List Nat := cs.map fun c => c.toNat - '0'.toNat

/-- The power of ten behind an exponent mark; none at all is no exponent. -/
def exponent? : List Char → Option Int
  | [] => some 0
  | mark :: rest =>
    let (negative, digits) := splitSign rest
    if (mark = 'e' ∨ mark = 'E') ∧ digits ≠ [] ∧ digits.all Char.isDigit then
      let n := ofDigits 10 (digitValues digits)
      some (if negative then -(n : Int) else (n : Int))
    else none

/-- The magnitude of a numeral with digits before or behind its point, or on both sides. -/
def magnitude? (cs : List Char) : Option Float := do
  let whole := cs.takeWhile Char.isDigit
  let (fraction, rest) := match cs.dropWhile Char.isDigit with
    | '.' :: rest => (rest.takeWhile Char.isDigit, rest.dropWhile Char.isDigit)
    | rest => ([], rest)
  if whole = [] ∧ fraction = [] then none
  else
    let e ← exponent? rest
    return scaled (ofDigits 10 (digitValues (whole ++ fraction))) (e - fraction.length)

/-- The double that a word spells; infinity and the lack of a number have words of their own. -/
def number? (word : String) : Option Float :=
  let (negative, cs) := splitSign word.toList
  let signed (x : Float) : Float := if negative then -x else x
  match String.ofList (cs.map Char.toLower) with
  | "inf" | "infinity" => some (signed (1 / 0))
  | "nan" => some (signed (0 / 0))
  | _ => (magnitude? cs).map signed

end ModuleLoader.Decimal
