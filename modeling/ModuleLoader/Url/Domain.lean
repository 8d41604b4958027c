import ModuleLoader.Text.Combining
import ModuleLoader.Text.Composition
import ModuleLoader.Text.SpacingMarks
import ModuleLoader.Text.Unprintable
import ModuleLoader.Text.Utf8
import ModuleLoader.Url.Address
import ModuleLoader.Url.Folding
import ModuleLoader.Url.Punycode
/-!
Domain names in the form in which they are looked up: folded, composed, and in ASCII. A label with
other characters is written in Punycode behind a marker, and a label that comes with the marker has
to be one that would be written so.
-/
namespace ModuleLoader.Url

open Text (Bytes)

/-- No host may hold these, however they are written. -/
def forbiddenInDomain (c : Char) : Bool :=
  c.toNat ≤ 0x20 || c.toNat = 0x7f ||
    ['%', '#', '/', ':', '<', '>', '?', '@', '[', '\\', ']', '^', '|'].contains c

def isAscii (cs : List Char) : Bool := cs.all fun c => c.toNat < 128

/-- A character that stands in a name as it is. -/
def standsInName (c : Char) : Bool :=
  if c.toNat < 128 then !forbiddenInDomain c && c.toLower = c
  else if c = '\u200c' || c = '\u200d' then true
  else
    !Text.isUnprintable c && !inRanges excludedRanges c && !inRanges ignoredRanges c &&
      (folding? c).isNone

/-- The characters for which one stands in a name, unless it stands in none. -/
def foldChar? (c : Char) : Option (List Char) :=
  if c.toNat < 128 then if forbiddenInDomain c then none else some [c.toLower]
  else if inRanges ignoredRanges c then some []
  else
    match folding? c with
    | some replacement => some replacement
    | none => if standsInName c then some [c] else none

/-- A joiner stands only behind a sign that silences a vowel. -/
def joinersFollowVirama (cs : List Char) : Bool :=
  (cs.zip cs.tail).all (fun (a, b) => !isJoiner b || Text.combiningClass a = Text.viramaClass) &&
    !(cs.head?.any isJoiner)
where
  isJoiner (c : Char) : Bool := c = '\u200c' || c = '\u200d'

/-- Whether a label, given in folded and composed form, can be part of a name. -/
def isLabel (cs : List Char) : Bool :=
  cs.all standsInName && joinersFollowVirama cs &&
    !(cs.head?.any fun c => Text.isCombining c || Text.isSpacingMark c)

/-- What stands in front of Punycode. -/
def punycodeMarker : List Char := ['x', 'n', '-', '-']

/-- The lookup form of a label in folded and composed form. -/
def labelToAscii? (cs : List Char) : Option (List Char) :=
  if punycodeMarker.isPrefixOf cs then
    match Punycode.decode? (cs.drop punycodeMarker.length) with
    | some decoded =>
      if isAscii cs && !isAscii decoded && Text.compose decoded = decoded && isLabel decoded
      then some cs else none
    | none => none
  else if isAscii cs then some cs
  else if isLabel cs then some (punycodeMarker ++ Punycode.encode cs)
  else none

/-- The lookup form of a name, given as the bytes of its text. -/
def domainToAscii? (bytes : Bytes) : Option (List Char) := do
  let folded ← (Text.ofUtf8 bytes).toList.mapM foldChar?
  let labels ← (splitOn '.' (Text.compose folded.flatten)).mapM labelToAscii?
  return ['.'].intercalate labels

end ModuleLoader.Url
