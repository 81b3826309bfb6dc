import Foreman.Text.Visible
/-!
# Quoted texts in messages

A message shows a text between double quotes. The quote and the backslash are written behind a
backslash, the tab, the line feed, the carriage return and the null character by a letter, and a
character that would not be seen by its code point in hexadecimal between braces.

## Main definitions

* `Foreman.Text.showChar`: how one character is written between the quotes.
* `Foreman.Text.quoted`: a whole text between double quotes.
-/

namespace Foreman.Text

/-- The hexadecimal digits of a number in lower case, without leading zeros. -/
def hexDigits (n : Nat) : List Char :=
  Nat.toDigits 16 n

/-- How one character is written between the quotes. -/
def showChar (c : Char) : List Char :=
  if c = '"' then ['\\', '"']
  else if c = '\\' then ['\\', '\\']
  else if c = '\n' then ['\\', 'n']
  else if c = '\r' then ['\\', 'r']
  else if c = '\t' then ['\\', 't']
  else if c = Char.ofNat 0 then ['\\', '0']
  else if isVisible c then [c]
  else '\\' :: 'u' :: Char.ofNat 0x7B :: hexDigits c.toNat ++ [Char.ofNat 0x7D]

/-- A text between double quotes, as a message shows it. -/
def quoted (s : String) : String :=
  String.ofList ('"' :: s.toList.flatMap showChar ++ ['"'])

end Foreman.Text
