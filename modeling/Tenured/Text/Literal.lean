import Tenured.Text.Numeral
import Tenured.Text.Invisible

/-!
# Text literals

`Text.literal` writes a text between quotes, so that nothing in it is invisible: an invisible
character is written by its code point, unless it has a letter of its own.
-/

namespace Tenured.Text

/-- A character as a literal shows it. -/
def literalChar (c : Char) : List Char :=
  if c = '\x00' then ['\\', '0']
  else if c = '\t' then ['\\', 't']
  else if c = '\r' then ['\\', 'r']
  else if c = '\n' then ['\\', 'n']
  else if c = '\\' then ['\\', '\\']
  else if c = '"' then ['\\', '"']
  else if isInvisible c then '\\' :: 'u' :: '\x7b' :: hexDigits c.toNat ++ ['\x7d']
  else [c]

/-- A text between quotes. -/
def literal (s : String) : String :=
  String.ofList ('"' :: s.toList.flatMap literalChar ++ ['"'])

end Tenured.Text
