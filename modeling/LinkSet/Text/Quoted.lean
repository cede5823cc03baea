import LinkSet.Text.Hex
import LinkSet.Text.Unprintable

/-!
# Quoted text

A text as it is shown in messages: between double quotes, with a backslash in front of quotes and
backslashes, short forms for the common controls, and the code point in braces for all other
characters that are not shown as themselves. Single quotes are left alone.
-/

namespace LinkSet.Text

/-- One character of a quoted text. -/
def quotedChar (c : Char) : List Char :=
  if c = '"' then ['\\', '"']
  else if c = '\\' then ['\\', '\\']
  else if c = '\n' then ['\\', 'n']
  else if c = '\r' then ['\\', 'r']
  else if c = '\t' then ['\\', 't']
  else if c = '\x00' then ['\\', '0']
  else if isUnprintable c then "\\u\x7b".toList ++ Nat.toDigits 16 c.toNat ++ "\x7d".toList
  else [c]

/-- A text between quotes. -/
def quoted (text : String) : String :=
  String.ofList ('"' :: text.toList.flatMap quotedChar ++ ['"'])

end LinkSet.Text
