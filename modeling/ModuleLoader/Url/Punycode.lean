/-!
Punycode: labels of domain names that hold characters outside ASCII, written with ASCII only. The
ASCII characters stand in front; behind the last hyphen, numbers of variable length say which
characters are missing and where.
-/
namespace ModuleLoader.Url.Punycode

def base : Nat := 36
def tMin : Nat := 1
def tMax : Nat := 26
def skew : Nat := 38
def damp : Nat := 700
def initialBias : Nat := 72
def initialN : Nat := 128

/-- Bounds what a label can spell; no valid label comes near it. -/
def limit : Nat := 4294967296

def digit? (c : Char) : Option Nat :=
  if 'a' ≤ c ∧ c ≤ 'z' then some (c.toNat - 97)
  else if 'A' ≤ c ∧ c ≤ 'Z' then some (c.toNat - 65)
  else if c.isDigit then some (c.toNat - 48 + 26)
  else none

def digitChar (d : Nat) : Char := Char.ofNat (if d < 26 then d + 97 else d - 26 + 48)

def threshold (k bias : Nat) : Nat := if k ≤ bias then tMin else min (k - bias) tMax

/-- Divides until the delta is small; each division is counted in `k`. -/
def adaptLoop (delta k : Nat) : Nat :=
  if (base - tMin) * tMax / 2 < delta then adaptLoop (delta / (base - tMin)) (k + base)
  else k + (base - tMin + 1) * delta / (delta + skew)
termination_by delta
decreasing_by simp only [base, tMin, tMax] at *; omega

/-- The bias behind a number; the first number of a label counts less. -/
def adapt (delta points : Nat) (first : Bool) : Nat :=
  let delta := if first then delta / damp else delta / 2
  adaptLoop (delta + delta / points) 0

/-! ## Decoding -/

/-- One number, and the digits behind it. -/
def number? (bias : Nat) : List Char → Nat → Nat → Nat → Option (Nat × List Char)
  | [], _, _, _ => none
  | c :: cs, k, weight, total =>
    match digit? c with
    | none => none
    | some d =>
      let total := total + d * weight
      let t := threshold k bias
      if limit ≤ total then none
      else if d < t then some (total, cs)
      else number? bias cs (k + base) (weight * (base - t)) total

theorem number?_length {bias : Nat} {cs rest : List Char} {k weight total n : Nat}
    (h : number? bias cs k weight total = some (n, rest)) : rest.length < cs.length := by
  induction cs generalizing k weight total with
  | nil => simp [number?] at h
  | cons c cs ih =>
    rw [number?] at h
    cases hd : digit? c with
    | none => simp [hd] at h
    | some d =>
      simp only [hd] at h
      split at h
      · simp at h
      · split at h
        · simp_all
        · have := ih h
          simp only [List.length_cons]
          omega

def insertAt (out : List Char) (i : Nat) (c : Char) : List Char := out.take i ++ c :: out.drop i

/-- Inserts the characters that the digits spell into `out`; `i` is zero only before the first. -/
def insertions? (digits : List Char) (n i bias : Nat) (out : List Char) : Option (List Char) :=
  match digits with
  | [] => some out
  | c :: cs =>
    match h : number? bias (c :: cs) base 1 0 with
    | none => none
    | some (delta, rest) =>
      have : rest.length < cs.length + 1 := number?_length h
      let place := i + delta
      let points := out.length + 1
      let n := n + place / points
      if n.isValidChar then
        insertions? rest n (place % points + 1) (adapt delta points (i = 0))
          (insertAt out (place % points) (Char.ofNat n))
      else none
termination_by digits.length

/-- What stands before the last hyphen, and what behind it. -/
def splitLastHyphen (cs : List Char) : List Char × List Char :=
  let digits := (cs.reverse.takeWhile (· ≠ '-')).reverse
  (cs.take (cs.length - digits.length - 1), digits)

/-- The label that was encoded, without its marker `xn--`. -/
def decode? (cs : List Char) : Option (List Char) :=
  let (basic, digits) := splitLastHyphen cs
  if basic.all fun c => c.toNat < initialN then insertions? digits initialN 0 initialBias basic
  else none

/-! ## Encoding -/

/-- The digits of one number. -/
def digits (bias : Nat) (k n : Nat) : List Char :=
  let t := threshold k bias
  if n < t then [digitChar n]
  else if t < base then digitChar (t + (n - t) % (base - t)) :: digits bias (k + base) ((n - t) / (base - t))
  else []
termination_by n
decreasing_by
  have positive : 0 < threshold k bias := by
    simp only [threshold]
    split
    · decide
    · simp only [tMax]; omega
  have := Nat.div_le_self (n - threshold k bias) (base - threshold k bias)
  omega

structure Progress where
  delta : Nat
  bias : Nat
  /-- How many characters of the label have been written. -/
  handled : Nat
  first : Bool
  out : List Char

/-- Passes one character of the label while the characters `n` are written. -/
def Progress.pass (n : Nat) (p : Progress) (c : Char) : Progress :=
  if c.toNat < n then { p with delta := p.delta + 1 }
  else if c.toNat = n then
    { delta := 0
      bias := adapt p.delta (p.handled + 1) p.first
      handled := p.handled + 1
      first := false
      out := p.out ++ digits p.bias base p.delta }
  else p

/-- Writes the places of the character `n`, where `before` was the least character not yet passed. -/
def Progress.writeAll (label : List Char) (state : Progress × Nat) (n : Nat) : Progress × Nat :=
  let (p, before) := state
  let p := label.foldl (pass n) { p with delta := p.delta + (n - before) * (p.handled + 1) }
  ({ p with delta := p.delta + 1 }, n + 1)

/-- The label in ASCII, without its marker. -/
def encode (label : List Char) : List Char :=
  let basic := label.filter fun c => c.toNat < initialN
  let others := (label.map Char.toNat).filter (initialN ≤ ·)
  let order := (others.mergeSort (· ≤ ·)).eraseDups
  let start : Progress :=
    ⟨0, initialBias, basic.length, true, if basic.isEmpty then [] else basic ++ ['-']⟩
  (order.foldl (Progress.writeAll label) (start, initialN)).1.out

end ModuleLoader.Url.Punycode
