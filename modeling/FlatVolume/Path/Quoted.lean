import FlatVolume.Path.Unprintable

/-!
# Quoted text

A text between double quotes on one line: the quote and the backslash after a
backslash, the usual controls by their letter, every other unprintable
character by its code point in braces.
-/

namespace FlatVolume.Path

def hexDigits (n : Nat) : List Char :=
  Nat.toDigits 16 n

/-- How one character stands inside the quotes. -/
def quotedChar (c : Char) : List Char :=
  if c = '\x00' then ['\\', '0']
  else if c = '\t' then ['\\', 't']
  else if c = '\n' then ['\\', 'n']
  else if c = '\r' then ['\\', 'r']
  else if c = '"' ∨ c = '\\' then ['\\', c]
  else if isUnprintable c then ['\\', 'u', '\x7b'] ++ hexDigits c.toNat ++ ['\x7d']
  else [c]

def quoted (text : String) : String :=
  String.ofList (['"'] ++ text.toList.flatMap quotedChar ++ ['"'])

end FlatVolume.Path
