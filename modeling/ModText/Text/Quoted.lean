import ModText.Text.Visible

/-!
# Texts in quotes

A text as a message quotes it: in double quotes, with an escape for whatever a reader could not tell
from the quotes around it or could not see. A single quote is neither.
-/

namespace ModText.Text

/-- A character between quotes. -/
def escapeQuoted (c : Char) : List Char :=
  if c = '\x00' then ['\\', '0']
  else if c = '\t' then ['\\', 't']
  else if c = '\r' then ['\\', 'r']
  else if c = '\n' then ['\\', 'n']
  else if c = '\\' ∨ c = '"' then ['\\', c]
  else if isVisible c then [c]
  else ['\\', 'u', '\x7b'] ++ Nat.toDigits 16 c.toNat ++ ['\x7d']

/-- A text in quotes. -/
def quoted (s : String) : String :=
  String.ofList ('"' :: (s.toList.flatMap escapeQuoted ++ ['"']))

end ModText.Text
