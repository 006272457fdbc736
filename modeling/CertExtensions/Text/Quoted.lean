import CertExtensions.Text.Unprintable

/-!
# Quoted texts

A text in double quotes, on one line and with nothing invisible in it: quotes and backslashes are escaped, line
breaks, tabs and NUL have short escapes, every other unprintable character is shown by its number.
-/

namespace CertExtensions.Text

/-- A number in lower case hex digits. -/
def lowerHex (n : Nat) : List Char :=
  Nat.toDigits 16 n

/-- A character as a quoted text shows it. -/
def quotedChar (c : Char) : List Char :=
  if c = '"' then ['\\', '"']
  else if c = '\\' then ['\\', '\\']
  else if c = '\n' then ['\\', 'n']
  else if c = '\r' then ['\\', 'r']
  else if c = '\t' then ['\\', 't']
  else if c = '\x00' then ['\\', '0']
  else if isUnprintable c then '\\' :: 'u' :: '\x7b' :: lowerHex c.toNat ++ ['\x7d']
  else [c]

def quoted (text : String) : String :=
  String.ofList ('"' :: text.toList.flatMap quotedChar ++ ['"'])

end CertExtensions.Text
