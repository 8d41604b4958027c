/-!
The shortest decimal text of a double: the fewest digits that read back as the same number, the
nearest of those to the number itself, written positionally whatever its size.

A finite double is `m * 2 ^ q`. The reals that round to it form an interval around it, whose ends
belong to it exactly if `m` is even. For each count of digits the number has two neighbours on the
grid of decimals with that many digits; the first grid with a neighbour in the interval wins.
-/
namespace ModuleLoader.Decimal

/-- A positive number `mantissa * 2 ^ exponent` with the distance to its neighbours. -/
structure Binary where
  mantissa : Nat
  exponent : Int
  /-- The number below is half as far away as the number above. -/
  nearBelow : Bool
deriving Repr

/-- The value of a quotient scaled by a power of a base, as a fraction of naturals. -/
def scale (n : Nat) (base : Nat) (e : Int) : Nat × Nat :=
  if 0 ≤ e then (n * Nat.pow base e.toNat, 1) else (n, Nat.pow base (-e).toNat)

/-- `a ≤ b` on fractions. -/
def fractionLe (a b : Nat × Nat) : Bool := a.1 * b.2 ≤ b.1 * a.2

def fractionLt (a b : Nat × Nat) : Bool := a.1 * b.2 < b.1 * a.2

namespace Binary

/-- The exact value. -/
def value (b : Binary) : Nat × Nat := scale b.mantissa 2 b.exponent

/-- The end of the interval below the number, in quarters of the last place. -/
def lower (b : Binary) : Nat × Nat :=
  scale (4 * b.mantissa - (if b.nearBelow then 1 else 2)) 2 (b.exponent - 2)

/-- The end of the interval above the number. -/
def upper (b : Binary) : Nat × Nat := scale (4 * b.mantissa + 2) 2 (b.exponent - 2)

/-- Whether a fraction rounds to the number. -/
def admits (b : Binary) (x : Nat × Nat) : Bool :=
  if b.mantissa % 2 = 0 then fractionLe b.lower x && fractionLe x b.upper
  else fractionLt b.lower x && fractionLt x b.upper

/-- The least `k` with the number below `10 ^ k`: its count of digits before the point. -/
def magnitude (b : Binary) : Int :=
  let (num, den) := b.value
  if den ≤ num then ((Nat.toDigits 10 (num / den)).length : Int)
  else
    let inverse := (den + num - 1) / num
    1 - ((Nat.toDigits 10 (inverse - 1)).length : Int)

/-- The greater of the two neighbours wins a tie. -/
def nearerAbove (b : Binary) (below : Nat) (e : Int) : Bool :=
  let (num, den) := b.value
  let (gridNum, gridDen) := scale (2 * below + 1) 10 e
  gridNum * den ≤ 2 * num * gridDen

/-- The best decimal with `count` digits that reads back, as digits and exponent. -/
def withDigits? (b : Binary) (count : Nat) : Option (Nat × Int) :=
  let e := b.magnitude - count
  let (num, den) := b.value
  let below := if 0 ≤ e then num / (den * Nat.pow 10 e.toNat) else num * Nat.pow 10 (-e).toNat / den
  let down := b.admits (scale below 10 e)
  let up := b.admits (scale (below + 1) 10 e)
  match down, up with
  | true, true => some (if b.nearerAbove below e then below + 1 else below, e)
  | true, false => some (below, e)
  | false, true => some (below + 1, e)
  | false, false => none

/-- The shortest decimal that reads back; seventeen digits always do. -/
def shortest (b : Binary) : Nat × Int :=
  ((List.range 17).findSome? fun i => b.withDigits? (i + 1)).getD (b.mantissa, b.exponent)

end Binary

/-- Removes the zeros at the end of a digit run and counts them. -/
def trimZeros (digits : List Char) : List Char × Nat :=
  let kept := (digits.reverse.dropWhile (· = '0')).reverse
  (kept, digits.length - kept.length)

/-- Positional notation of `digits * 10 ^ e`, without an exponent and without a trailing point. -/
def positional (digits : Nat) (e : Int) : List Char :=
  let (kept, dropped) := trimZeros (Nat.toDigits 10 digits)
  let e := e + dropped
  if 0 ≤ e then kept ++ List.replicate e.toNat '0'
  else
    let places := (-e).toNat
    if places < kept.length then
      kept.take (kept.length - places) ++ '.' :: kept.drop (kept.length - places)
    else '0' :: '.' :: List.replicate (places - kept.length) '0' ++ kept

/-- Reads the fields of a finite, nonzero double with its sign dropped. -/
def Binary.ofBits (bits : Nat) : Binary :=
  let fraction : Nat := bits % Nat.pow 2 52
  let exponent : Nat := bits / Nat.pow 2 52 % 2048
  if exponent = 0 then ⟨fraction, -1074, false⟩
  else ⟨Nat.pow 2 52 + fraction, (exponent : Int) - 1075, fraction = 0 && exponent ≠ 1⟩

/-- The text of a double. -/
def text (x : Float) : String :=
  if x.isNaN then "NaN"
  else
    let bits := x.toBits.toNat
    let sign := if bits / Nat.pow 2 63 = 1 then ['-'] else []
    let magnitude := bits % Nat.pow 2 63
    if magnitude = 0 then String.ofList (sign ++ ['0'])
    else if magnitude / Nat.pow 2 52 = 2047 then String.ofList (sign ++ ['i', 'n', 'f'])
    else
      let (digits, e) := (Binary.ofBits magnitude).shortest
      String.ofList (sign ++ positional digits e)

/-- The double nearest to a decimal numeral `digits[.fraction]`. -/
def ofNumeral (whole fraction : List Char) : Float :=
  let digits := (whole ++ fraction).foldl (fun n c => 10 * n + (c.toNat - '0'.toNat)) 0
  Float.ofScientific digits true fraction.length

end ModuleLoader.Decimal
