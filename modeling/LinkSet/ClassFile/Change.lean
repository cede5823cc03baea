import LinkSet.ClassFile.Basic
import LinkSet.ClassFile.PoolExtension
import LinkSet.Decision

/-!
# Changing class files

A decision is carried out on the bytes of a class file, and touches only what it has to.

* To *mark final* is to set one bit of the flags.
* To *seal* is to put the constants that are missing behind the constant pool, and to write a
  `PermittedSubclasses` attribute: in place of the one that counts, or else behind all others.
-/

namespace LinkSet.ClassFile

/-- The bytes with the flags of the class written at their place, `finalBit` set. -/
def markFinal (c : ClassFile) (bytes : Bytes) : Bytes :=
  bytes.take c.layout.poolEnd
    ++ Bytes.ofUInt16 (c.access.insert AccessFlags.finalBit).bits
    ++ bytes.drop (c.layout.poolEnd + 2)

/-- A `PermittedSubclasses` attribute: the index of its name, the length of its body, the number of
classes and the index of each. -/
def permittedAttribute (nameIndex : UInt16) (classIndexes : List UInt16) : Bytes :=
  Bytes.ofUInt16 nameIndex
    ++ Bytes.ofUInt32 (UInt32.ofNat (2 + 2 * classIndexes.length))
    ++ Bytes.ofUInt16 (UInt16.ofNat classIndexes.length)
    ++ classIndexes.flatMap Bytes.ofUInt16

/-- The bytes from the end of the constant pool on, with `listing` in place of the class's
`PermittedSubclasses` attribute or else behind all attributes. -/
def withListing (c : ClassFile) (bytes listing : Bytes) : Except ClassFileError Bytes :=
  match c.permitted with
  | some old =>
    .ok (bytes.slice c.layout.poolEnd old.start ++ listing ++ bytes.drop old.stop)
  | none => do
    let place := c.layout.attributesCount
    let count ← Reader.u16.run (bytes.drop place)
    if count.toNat < 65535 then
      return bytes.slice c.layout.poolEnd place
        ++ Bytes.ofUInt16 (count + 1)
        ++ bytes.drop (place + 2)
        ++ listing
    else
      throw .attributeOverflow

/-- The bytes with `names` as the permitted subclasses, in the given order. -/
def sealTo (c : ClassFile) (bytes : Bytes) (names : List String) : Except ClassFileError Bytes := do
  let start := PoolExtension.ofPool c.pool
  let (nameIndex, e) ← start.addUtf8 (ModifiedUtf8.encode PermittedSubclasses.attributeName)
  let (classIndexes, e) ← e.addClasses (names.map ModifiedUtf8.encode)
  if classIndexes.length ≤ 65535 then do
    let tail ← c.withListing bytes (permittedAttribute nameIndex classIndexes)
    return bytes.take 8
      ++ Bytes.ofUInt16 (UInt16.ofNat e.size)
      ++ bytes.slice 10 c.layout.poolEnd
      ++ e.addedBytes
      ++ tail
  else
    throw .attributeOverflow

/-- Carries out a decision on bytes that are laid out like the class. -/
def apply (c : ClassFile) (decision : Decision) (bytes : Bytes) : Except ClassFileError Bytes :=
  if bytes.length = c.layout.size then
    match decision with
    | .keep => .ok bytes
    | .markFinal => .ok (c.markFinal bytes)
    | .sealTo subtypes => c.sealTo bytes subtypes.toList
  else
    .error (.layoutMismatch c.layout.size bytes.length)

end LinkSet.ClassFile
