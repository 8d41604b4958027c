import ModuleLoader.Text.Utf8
/-!
Base64 with the standard alphabet and obligatory padding. A text is read block by block; eight
symbols are a block, and padding may stand only in the last one. The first thing that is wrong is
reported with its offset.
-/
namespace ModuleLoader.Base64

open Text (Bytes inRange)

inductive Fault
  /-- One symbol is left over, which is not enough for a byte. -/
  | length
  | byte (b : UInt8) (offset : Nat)
  /-- The bits of the last symbol that belong to no byte are not zero. -/
  | lastSymbol (b : UInt8) (offset : Nat)
  | padding
deriving DecidableEq, Repr

def Fault.message : Fault → String
  | length => "Encoded text cannot have a 6-bit remainder."
  | byte b offset => "Invalid byte " ++ toString b.toNat ++ ", offset " ++ toString offset ++ "."
  | lastSymbol b offset =>
    "Invalid last symbol " ++ toString b.toNat ++ ", offset " ++ toString offset ++ "."
  | padding => "Invalid padding"

/-- The padding sign, `=`. -/
def pad : UInt8 := 61

/-- The six bits for which a symbol stands. -/
def symbol? (b : UInt8) : Option Nat :=
  if inRange b 65 90 then some (b.toNat - 65)
  else if inRange b 97 122 then some (b.toNat - 71)
  else if inRange b 48 57 then some (b.toNat + 4)
  else if b = 43 then some 62
  else if b = 47 then some 63
  else none

/-- The symbol for six bits. -/
def symbol (n : Nat) : UInt8 :=
  if n < 26 then .ofNat (n + 65)
  else if n < 52 then .ofNat (n + 71)
  else if n < 62 then .ofNat (n - 4)
  else if n = 62 then 43
  else 47

/-- The text for some bytes: four symbols for three bytes, the rest filled with padding. -/
def encode : Bytes → Bytes
  | [] => []
  | [a] => [symbol (a.toNat / 4), symbol (a.toNat % 4 * 16), pad, pad]
  | [a, b] =>
    [symbol (a.toNat / 4), symbol (a.toNat % 4 * 16 + b.toNat / 16), symbol (b.toNat % 16 * 4), pad]
  | a :: b :: c :: rest =>
    [symbol (a.toNat / 4), symbol (a.toNat % 4 * 16 + b.toNat / 16),
      symbol (b.toNat % 16 * 4 + c.toNat / 64), symbol (c.toNat % 64)] ++ encode rest

/-- The symbols of a full block; whatever is none is a fault. -/
def symbols (offset : Nat) : Bytes → Except Fault (List Nat)
  | [] => .ok []
  | b :: rest =>
    match symbol? b with
    | none => .error (.byte b offset)
    | some n => do return n :: (← symbols (offset + 1) rest)

/--
The symbols of the last block, which starts at `offset`; `index` of its bytes are behind, and
`firstPad` is where padding began. Padding starts no earlier than the third place of a group of
four, and no symbol follows it.
-/
def lastSymbols (offset index : Nat) (firstPad : Option Nat) :
    Bytes → Except Fault (List Nat × Option Nat)
  | [] => .ok ([], firstPad)
  | b :: rest =>
    if b = pad then
      if index % 4 < 2 then .error (.byte b (offset + firstPad.getD index))
      else lastSymbols offset (index + 1) (firstPad.or (some index)) rest
    else
      match firstPad with
      | some earliest => .error (.byte pad (offset + earliest))
      | none =>
        match symbol? b with
        | none => .error (.byte b (offset + index))
        | some n => do
          let (ns, p) ← lastSymbols offset (index + 1) none rest
          return (n :: ns, p)

/-- The bytes that symbols spell; bits that do not fill a byte are dropped. -/
def bytesOf : List Nat → Bytes
  | a :: b :: c :: d :: rest =>
    .ofNat (a * 4 + b / 16) :: .ofNat (b % 16 * 16 + c / 4) :: .ofNat (c % 4 * 64 + d) :: bytesOf rest
  | [a, b, c] => [.ofNat (a * 4 + b / 16), .ofNat (b % 16 * 16 + c / 4)]
  | [a, b] => [.ofNat (a * 4 + b / 16)]
  | _ => []

/-- The bits of the last symbol that belong to no byte. -/
def spareBits (count last : Nat) : Nat :=
  match count % 4 with
  | 2 => last % 16
  | 3 => last % 4
  | _ => 0

/-- The number of bytes in front of the last block. -/
def lastBlockStart (length : Nat) : Nat :=
  if length % 8 = 0 then length - 8 else length - length % 8

/-- The bytes that a text stands for. -/
def decode (text : Bytes) : Except Fault Bytes := do
  let start := lastBlockStart text.length
  let final := text.drop start
  match text.length % 4, text.getLast? with
  | 1, some b =>
    if b ≠ pad ∧ symbol? b = none then throw (.byte b (text.length - 1)) else throw .length
  | _, _ => pure ()
  let front ← symbols 0 (text.take start)
  let (back, firstPad) ← lastSymbols start 0 none final
  if back.length < 2 ∧ final ≠ [] then throw .length
  let padding := match firstPad with
    | some index => final.length - index
    | none => 0
  if (padding + back.length) % 4 ≠ 0 then throw .padding
  match back.getLast? with
  | some n =>
    if spareBits back.length n ≠ 0 then
      throw (.lastSymbol (symbol n) (start + back.length - 1))
  | none => pure ()
  return bytesOf (front ++ back)

end ModuleLoader.Base64
