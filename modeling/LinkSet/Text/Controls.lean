import LinkSet.Text.Hex

/-!
# Controls in lines of a log

A line of a log may be shown on a terminal, which takes some characters as commands: the escape, the
bell, the backspace, the form feed, the delete, and the controls from `U+0080` to `U+009F`. In a log they
are written by their code point. All other characters stay as they are, other controls too.
-/

namespace LinkSet.Text

/-- One character in a line of a log. -/
def disarmedChar (c : Char) : List Char :=
  if c = '\x1b' ∨ c = '\x07' ∨ c = '\x08' ∨ c = '\x0c' ∨ c = '\x7f' then
    "\\x".toList ++ (Hex.ofNatPadded 2 c.toNat).toList
  else if 0x80 ≤ c.toNat ∧ c.toNat ≤ 0x9f then
    "\\u\x7b".toList ++ (Hex.ofNat c.toNat).toList ++ "\x7d".toList
  else [c]

/-- A text in a line of a log. -/
def disarmed (text : String) : String :=
  String.ofList (text.toList.flatMap disarmedChar)

end LinkSet.Text
