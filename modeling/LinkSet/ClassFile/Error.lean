import LinkSet.Text.Hex

/-!
# Faults of class files

Why bytes are not a class file, and why a class file cannot take the change asked of it.
-/

namespace LinkSet

/-- What an index into the constant pool has to lead to. -/
inductive ConstantKind
  /-- A text constant. -/
  | utf8
  /-- A reference to a class. -/
  | classRef
deriving DecidableEq, Repr

/-- The kind as it is written in messages. -/
def ConstantKind.name : ConstantKind → String
  | .utf8 => "Utf8"
  | .classRef => "Class"

/-- A fault found in reading or changing a class file. -/
inductive ClassFileError
  /-- The bytes end at `offset`, or so soon after it that `needed` bytes are not there. -/
  | truncated (offset needed : Nat)
  /-- The file opens with another number than class files do. -/
  | badMagic (magic : UInt32)
  /-- No constant has this tag. -/
  | unknownConstantTag (tag : UInt8) (index : Nat)
  /-- The index leads to a constant of another kind, or nowhere. -/
  | badConstantIndex (index : UInt16) (expected : ConstantKind)
  /-- The length of an attribute does not fit what it says it holds. -/
  | malformedAttribute (name : String)
  /-- There are bytes behind the class. -/
  | trailingBytes (count : Nat)
  /-- A new constant would not fit in the pool. -/
  | constantPoolOverflow (slots : Nat)
  /-- A new attribute would not fit in the class. -/
  | attributeOverflow
  /-- The written form of a name does not fit in a constant. -/
  | nameTooLong (length : Nat)
  /-- A text constant that is used as a name is no modified UTF-8. -/
  | badModifiedUtf8 (index : UInt16)
  /-- The bytes to change are not as many as the class was read from. -/
  | layoutMismatch (expected actual : Nat)
deriving DecidableEq, Repr

/-- The fault in words. -/
def ClassFileError.message : ClassFileError → String
  | .truncated offset needed =>
    "truncated class file: needed " ++ needed.repr ++ " bytes at offset " ++ offset.repr
  | .badMagic magic => "bad magic number 0x" ++ Text.Hex.ofNatPadded 8 magic.toNat
  | .unknownConstantTag tag index =>
    "unknown constant pool tag " ++ tag.toNat.repr ++ " at index " ++ index.repr
  | .badConstantIndex index expected =>
    "constant pool index " ++ index.toNat.repr ++ " is not a " ++ expected.name ++ " entry"
  | .malformedAttribute name => "malformed " ++ name ++ " attribute"
  | .trailingBytes count => count.repr ++ " trailing bytes after class attributes"
  | .constantPoolOverflow slots => "constant pool would grow to " ++ slots.repr ++ " entries"
  | .attributeOverflow => "class attribute table is full"
  | .nameTooLong length => "name of " ++ length.repr ++ " bytes does not fit in a constant"
  | .badModifiedUtf8 index =>
    "constant pool entry " ++ index.toNat.repr ++ " is not valid modified UTF-8"
  | .layoutMismatch expected actual =>
    "class file is " ++ actual.repr ++ " bytes but was parsed from " ++ expected.repr ++ " bytes"

end LinkSet
