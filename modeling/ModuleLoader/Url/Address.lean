/-!
Numeric hosts: IPv4 addresses in all the spellings that a URL may use, and IPv6 addresses in
brackets. Both are printed in one canonical form.
-/
namespace ModuleLoader.Url

/-- Splits at every occurrence of a separator; there is always one part more than occurrences. -/
def splitOn {α : Type} [DecidableEq α] (sep : α) : List α → List (List α)
  | [] => [[]]
  | c :: cs =>
    if c = sep then [] :: splitOn sep cs
    else match splitOn sep cs with
      | [] => [[c]]
      | part :: parts => (c :: part) :: parts

def digitValue? (radix : Nat) (c : Char) : Option Nat :=
  let v :=
    if c.isDigit then c.toNat - '0'.toNat
    else if 'a' ≤ c ∧ c ≤ 'f' then c.toNat - 'a'.toNat + 10
    else if 'A' ≤ c ∧ c ≤ 'F' then c.toNat - 'A'.toNat + 10
    else radix
  if v < radix then some v else none

def numeral? (radix : Nat) (cs : List Char) : Option Nat :=
  cs.foldlM (fun n c => (digitValue? radix c).map (radix * n + ·)) 0

/-! ## IPv4 -/

/-- One part of an address: decimal, octal behind a zero, or hexadecimal behind `0x`. -/
def ipv4Part? : List Char → Option Nat
  | [] => none
  | '0' :: 'x' :: cs => numeral? 16 cs
  | '0' :: 'X' :: cs => numeral? 16 cs
  | '0' :: c :: cs => numeral? 8 (c :: cs)
  | cs => numeral? 10 cs

/-- A host whose last part is a number is an address, or wrong. -/
def endsInNumber (cs : List Char) : Bool :=
  let parts := (splitOn '.' cs).reverse
  let last? := match parts with
    | [] :: rest => rest.head?
    | parts => parts.head?
  match last? with
  | none => false
  | some last => (!last.isEmpty && last.all Char.isDigit) || (ipv4Part? last).isSome

/-- The address as one number; the last part fills all bytes that the others leave. -/
def ipv4? (cs : List Char) : Option Nat := do
  let parts := splitOn '.' cs
  let parts := if parts.getLast? = some [] then parts.dropLast else parts
  if 4 < parts.length then none
  let numbers ← parts.mapM ipv4Part?
  let last ← numbers.getLast?
  let leading := numbers.dropLast
  if Nat.pow 256 (4 - leading.length) ≤ last then none
  if leading.any (255 < ·) then none
  return last + leading.foldl (fun n part => 256 * n + part) 0 * Nat.pow 256 (4 - leading.length)

def ipv4Text (n : Nat) : String :=
  ".".intercalate ([16777216, 65536, 256, 1].map fun place => toString (n / place % 256))

/-! ## IPv6 -/

/-- A piece of one to four hexadecimal digits, and what stands behind it. -/
def ipv6Piece (cs : List Char) : Nat × Nat × List Char :=
  let digits := (cs.take 4).takeWhile fun c => (digitValue? 16 c).isSome
  ((numeral? 16 digits).getD 0, digits.length, cs.drop digits.length)

/-- A decimal byte without a leading zero. -/
def ipv4Byte? (cs : List Char) : Option Nat := do
  if cs.isEmpty || 3 < cs.length || (cs.head? = some '0' && 1 < cs.length) then none
  let n ← numeral? 10 cs
  if n ≤ 255 then some n else none

/-- The two pieces that a dotted address at the end spells. -/
def ipv4Tail? (cs : List Char) : Option (List Nat) := do
  match ← (splitOn '.' cs).mapM ipv4Byte? with
  | [a, b, c, d] => some [256 * a + b, 256 * c + d]
  | _ => none

/--
Reads pieces; `compress` is the number of pieces in front of the `::`, once it was read, and the
`::` takes the place of at least one piece. Each round reads a character, which `fuel` counts.
-/
def ipv6Pieces? (fuel : Nat) (pieces : List Nat) (compress : Option Nat) (cs : List Char) :
    Option (List Nat × Option Nat) :=
  let filled := pieces.length + (if compress.isSome then 1 else 0)
  match fuel, cs with
  | _, [] => some (pieces, compress)
  | 0, _ => none
  | fuel + 1, c :: rest =>
    if filled = 8 then none
    else if c = ':' then
      if compress.isSome then none
      else ipv6Pieces? fuel pieces (some pieces.length) rest
    else
      let (value, length, behind) := ipv6Piece (c :: rest)
      match behind with
      | '.' :: _ =>
        if length = 0 || 6 < filled then none
        else (ipv4Tail? (c :: rest)).map fun tail => (pieces ++ tail, compress)
      | [':'] => none
      | ':' :: behind => ipv6Pieces? fuel (pieces ++ [value]) compress behind
      | [] => some (pieces ++ [value], compress)
      | _ => none

/-- The eight pieces of an address; `::` stands for as many zeros as are missing. -/
def ipv6? (cs : List Char) : Option (List Nat) := do
  let (pieces, compress) ← match cs with
    | ':' :: ':' :: rest => ipv6Pieces? rest.length [] (some 0) rest
    | ':' :: _ => none
    | cs => ipv6Pieces? cs.length [] none cs
  match compress with
  | none => if pieces.length = 8 then some pieces else none
  | some front =>
    some (pieces.take front ++ List.replicate (8 - pieces.length) 0 ++ pieces.drop front)

/-- The length of the run of zeros at the head. -/
def zeroRun (pieces : List Nat) : Nat := (pieces.takeWhile (· = 0)).length

/-- The first of the longest runs of at least two zeros, as its start and length. -/
def longestZeros (pieces : List Nat) : Option (Nat × Nat) :=
  (List.range pieces.length).foldl
    (fun best start =>
      let run := zeroRun (pieces.drop start)
      let longest := (best.map (·.2)).getD 1
      if longest < run then some (start, run) else best)
    none

def hexText (n : Nat) : String := String.ofList (Nat.toDigits 16 n)

/-- The canonical form, without brackets. -/
def ipv6Text (pieces : List Nat) : String :=
  let join (ps : List Nat) := ":".intercalate (ps.map hexText)
  match longestZeros pieces with
  | none => join pieces
  | some (start, run) => join (pieces.take start) ++ "::" ++ join (pieces.drop (start + run))

end ModuleLoader.Url
