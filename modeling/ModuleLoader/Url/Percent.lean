import ModuleLoader.Text.Utf8
/-!
Percent encoding: a byte written as `%` and two hexadecimal digits. Which characters of ASCII are
written so depends on the place in a URL; everything outside ASCII always is.
-/
namespace ModuleLoader.Url

open Text (Bytes hexUpper utf8)

/-- The characters of ASCII that a part of a URL cannot show as they are. -/
abbrev EncodeSet := Char → Bool

/-- Controls, and everything outside ASCII. -/
def controlSet : EncodeSet := fun c => c.toNat < 0x20 || 0x7f ≤ c.toNat

def EncodeSet.with (set : EncodeSet) (more : List Char) : EncodeSet :=
  fun c => set c || more.contains c

def fragmentSet : EncodeSet := EncodeSet.with controlSet [' ', '"', '<', '>', Char.ofNat 0x60]

def querySet : EncodeSet := EncodeSet.with controlSet [' ', '"', '#', '<', '>']

/-- The query of a special scheme. -/
def specialQuerySet : EncodeSet := querySet.with ['\'']

def pathSet : EncodeSet := fragmentSet.with ['#', '?', '{', '}']

def userinfoSet : EncodeSet :=
  pathSet.with ['/', ':', ';', '=', '@', '[', '\\', ']', '^', '|']

/-- A component of a file name: what could end it or be decoded in it is encoded too. -/
def fileNameSet : EncodeSet := pathSet.with ['/', '%', '\\']

def encodeByte (b : UInt8) : List Char := '%' :: hexUpper b

def encodeChar (set : EncodeSet) (c : Char) : List Char :=
  if set c then (utf8 [c]).flatMap encodeByte else [c]

def encode (set : EncodeSet) (cs : List Char) : List Char := cs.flatMap (encodeChar set)

def hexDigit? (b : UInt8) : Option Nat :=
  if Text.inRange b 48 57 then some (b.toNat - 48)
  else if Text.inRange b 65 70 then some (b.toNat - 55)
  else if Text.inRange b 97 102 then some (b.toNat - 87)
  else none

/-- Undoes the encoding; a percent sign without two digits behind it stands for itself. -/
def decode : Bytes → Bytes
  | [] => []
  | b :: bs =>
    if b = 37 then
      match bs with
      | high :: low :: rest =>
        match hexDigit? high, hexDigit? low with
        | some h, some l => UInt8.ofNat (16 * h + l) :: decode rest
        | _, _ => b :: decode (high :: low :: rest)
      | bs => b :: decode bs
    else b :: decode bs
termination_by bytes => bytes.length

end ModuleLoader.Url
