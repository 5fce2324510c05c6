import Ginti.Text.Printable

namespace Ginti.Text

/-- A number in so many lowercase hexadecimal digits. -/
def hexDigits : Nat → Nat → List Char
  | 0, _ => []
  | width + 1, n => hexDigits width (n / 16) ++ [Nat.digitChar (n % 16)]

/-- A character by its code, in the shortest of the three forms that hold it. -/
def escapeCode (n : Nat) : List Char :=
  if n < 0x100 then '\\' :: 'x' :: hexDigits 2 n
  else if n < 0x10000 then '\\' :: 'u' :: hexDigits 4 n
  else '\\' :: 'U' :: hexDigits 8 n

/-- Double quotes are used exactly when the text holds a single quote and no double quote. -/
def quoteMark (text : List Char) : Char :=
  if text.contains '\'' && !text.contains '"' then '"' else '\''

/-- One character inside quotes. A backslash and the surrounding quote are escaped, the tab,
    line feed and carriage return have short forms, and other characters that are not printable
    are written by their code. -/
def escapeIn (mark c : Char) : List Char :=
  if c = '\\' || c = mark then ['\\', c]
  else if c = '\t' then ['\\', 't']
  else if c = '\n' then ['\\', 'n']
  else if c = '\r' then ['\\', 'r']
  else if isPrintable c then [c]
  else escapeCode c.toNat

/-- The text between quotes, with whatever would be unreadable there escaped. -/
def quote (text : List Char) : List Char :=
  let mark := quoteMark text
  mark :: (text.flatMap (escapeIn mark) ++ [mark])

end Ginti.Text
