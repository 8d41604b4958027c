import ModuleLoader.Text.Unprintable
import ModuleLoader.Text.Combining
/-!
Quoted text, as diagnostics show it: between double quotes, with everything that cannot be seen
written as an escape. Quoting keeps all information: no two texts have one quoted form.
-/
namespace ModuleLoader.Text

/-- Lower-case hexadecimal digits, without padding. -/
def hexDigits (n : Nat) : List Char := Nat.toDigits 16 n

/-- How one character stands between the quotes. -/
def escapeChar (c : Char) : List Char :=
  if c = '"' then ['\\', '"']
  else if c = '\\' then ['\\', '\\']
  else if c = '\n' then ['\\', 'n']
  else if c = '\r' then ['\\', 'r']
  else if c = '\t' then ['\\', 't']
  else if c = '\x00' then ['\\', '0']
  else if isCombining c || isUnprintable c then
    ['\\', 'u', '{'] ++ hexDigits c.toNat ++ ['}']
  else [c]

def quotedChars (cs : List Char) : List Char :=
  '"' :: cs.flatMap escapeChar ++ ['"']

/-- The text between double quotes, with what cannot be seen escaped. -/
def quoted (s : String) : String := String.ofList (quotedChars s.toList)

end ModuleLoader.Text
