import LinkSet.Text.Hex

/-!
# JSON documents

JSON values as the lines that they take in a document. Each item of an array and each field of an
object starts on a line of its own, two blanks further in than what holds it. Empty arrays and objects
take one line.
-/

namespace LinkSet.Json

/-- The lines of a value. -/
abbrev Lines := List String

/-- The value `null`. -/
def null : Lines := ["null"]

/-- A number. -/
def number (n : Nat) : Lines := [n.repr]

/-- One character of a text. -/
def escapedChar (c : Char) : List Char :=
  if c = '"' then ['\\', '"']
  else if c = '\\' then ['\\', '\\']
  else if c = '\x08' then ['\\', 'b']
  else if c = '\x0c' then ['\\', 'f']
  else if c = '\n' then ['\\', 'n']
  else if c = '\r' then ['\\', 'r']
  else if c = '\t' then ['\\', 't']
  else if c.toNat < 0x20 then ['\\', 'u'] ++ (Text.Hex.ofNatPadded 4 c.toNat).toList
  else [c]

/-- A text between quotes. -/
def quoted (text : String) : String :=
  String.ofList ('"' :: text.toList.flatMap escapedChar ++ ['"'])

/-- A text. -/
def text (s : String) : Lines := [quoted s]

/-- The lines with more text at their end. -/
def appendText (extra : String) : Lines → Lines
  | [] => []
  | [line] => [line ++ extra]
  | line :: lines => line :: appendText extra lines

/-- The lines of several values, with commas between the values. -/
def separated : List Lines → Lines
  | [] => []
  | [item] => item
  | item :: items => appendText "," item ++ separated items

/-- The lines of a value between two marks. -/
def enclosed (opening closing : String) (items : List Lines) : Lines :=
  if items.isEmpty then [opening ++ closing]
  else opening :: (separated items).map ("  " ++ ·) ++ [closing]

/-- An array. -/
def array (items : List Lines) : Lines := enclosed "[" "]" items

/-- A field of an object. -/
def field (name : String) : Lines → Lines
  | [] => []
  | line :: lines => (quoted name ++ ": " ++ line) :: lines

/-- An object, with its fields in the given order. -/
def object (fields : List (String × Lines)) : Lines :=
  enclosed "\x7b" "\x7d" (fields.map fun (name, value) => field name value)

/-- A value that may be missing. -/
def optional {α : Type} (value : α → Lines) : Option α → Lines
  | some a => value a
  | none => null

/-- The document, without an end of line behind its last line. -/
def document (lines : Lines) : String := String.intercalate "\n" lines

end LinkSet.Json
