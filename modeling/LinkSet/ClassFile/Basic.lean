import LinkSet.ClassFile.AccessFlags
import LinkSet.ClassFile.ConstantPool

/-!
# Class files

A class file is read only as far as the closed-world analysis needs it: the constant pool, the flags,
the names of the class, of its superclass and of its interfaces, and the `PermittedSubclasses`
attribute. Fields, methods and all other attributes are passed over. The offsets of the places that
a change touches are kept, so that a change never has to write anew what it does not alter.

The file is, in this order: a magic number, the minor and the major version, the constant pool, the
flags, the indexes of the class, its superclass (0 for none) and its interfaces, the fields, the
methods, the class attributes, and nothing behind them.
-/

namespace LinkSet

/-- The places in a class file at which a change may cut it. -/
structure ClassLayout where
  /-- The end of the constant pool, which is where the flags start. -/
  poolEnd : Nat
  /-- Where the number of class attributes stands. -/
  attributesCount : Nat
  /-- The length of the file. -/
  size : Nat
deriving DecidableEq, Repr

/-- A `PermittedSubclasses` attribute. -/
structure PermittedSubclasses where
  /-- The permitted subclasses, in the order of the attribute. -/
  names : List String
  /-- Where the attribute starts, its header included. -/
  start : Nat
  /-- Where the attribute ends. -/
  stop : Nat
deriving DecidableEq, Repr

/-- The name under which permitted subclasses are listed in a class file. -/
def PermittedSubclasses.attributeName : String := "PermittedSubclasses"

/-- What a class file says. -/
structure ClassFile where
  /-- The minor version of the format. -/
  minorVersion : UInt16
  /-- The major version of the format. -/
  majorVersion : UInt16
  /-- The flags of the class. -/
  access : AccessFlags
  /-- The name of the class. -/
  thisName : String
  /-- The name of its superclass, if there is one. -/
  superName : Option String
  /-- The names of its interfaces, in order. -/
  interfaces : List String
  /-- The last `PermittedSubclasses` attribute, if there is one. -/
  permitted : Option PermittedSubclasses
  /-- The constants of the class. -/
  pool : ConstantPool
  /-- Where the parts of the file are. -/
  layout : ClassLayout
deriving DecidableEq, Repr

namespace ClassFile

/-- The number at the start of every class file. -/
def magic : UInt32 := 0xCAFEBABE

/-! ## Reading -/

/-- Reads the magic number. -/
def readMagic : Reader Unit := do
  let number ← Reader.u32
  if number = magic then pure () else throw (.badMagic number)

/-- Reads the index of a class and looks up its name. -/
def readClassName (pool : ConstantPool) : Reader String := do
  let index ← Reader.u16
  pool.className index

/-- Reads the names of the interfaces: their number, and an index each. -/
def readInterfaces (pool : ConstantPool) : Reader (List String) := do
  let count ← Reader.u16
  Reader.collect (readClassName pool) count.toNat

/-- Passes over an attribute of a field or method. -/
def skipAttribute : Reader Unit := do
  Reader.skip 2
  let length ← Reader.u32
  Reader.skip length.toNat

/-- Passes over a field or method. -/
def skipMember : Reader Unit := do
  -- flags, name and descriptor
  Reader.skip 6
  let count ← Reader.u16
  Reader.iterate (fun _ => skipAttribute) count.toNat ()

/-- Passes over a table of fields or methods. -/
def skipMembers : Reader Unit := do
  let count ← Reader.u16
  Reader.iterate (fun _ => skipMember) count.toNat ()

/-- The names in the body of a `PermittedSubclasses` attribute: their number, and an index each. -/
def permittedNames (pool : ConstantPool) (body : Bytes) : Except ClassFileError (List String) :=
  match body with
  | b₁ :: b₀ :: indexes =>
    let count := (Bytes.toUInt16 b₁ b₀).toNat
    if body.length = 2 + 2 * count then
      (Reader.collect (readClassName pool) count).run indexes
    else
      .error (.malformedAttribute PermittedSubclasses.attributeName)
  | _ => .error (.malformedAttribute PermittedSubclasses.attributeName)

/-- Reads a class attribute. If it lists permitted subclasses, it takes the place of what earlier
attributes have listed. -/
def readAttribute (pool : ConstantPool) (seen : Option PermittedSubclasses) :
    Reader (Option PermittedSubclasses) := do
  let start ← Reader.position
  let nameIndex ← Reader.u16
  let length ← Reader.u32
  let body ← Reader.take length.toNat
  let name ← pool.utf8 nameIndex
  if name = ModifiedUtf8.encode PermittedSubclasses.attributeName then do
    let names ← permittedNames pool body
    let stop ← Reader.position
    return some ⟨names, start, stop⟩
  else
    return seen

/-- Reads the attributes of the class, of which the last one with permitted subclasses counts. -/
def readAttributes (pool : ConstantPool) : Reader (Option PermittedSubclasses) := do
  let count ← Reader.u16
  Reader.iterate (readAttribute pool) count.toNat none

/-- Makes sure that there are no more bytes. -/
def readEnd : Reader Unit := fun c =>
  if c.rest.isEmpty then .ok ((), c) else .error (.trailingBytes c.rest.length)

/-- The name of the superclass, where index 0 says that there is none. -/
def superName? (pool : ConstantPool) (index : UInt16) : Except ClassFileError (Option String) :=
  if index = 0 then .ok none else some <$> pool.className index

/-- Reads a whole class file. -/
def read : Reader ClassFile := do
  readMagic
  let minorVersion ← Reader.u16
  let majorVersion ← Reader.u16
  let pool ← ConstantPool.read
  let poolEnd ← Reader.position
  let flags ← Reader.u16
  let thisIndex ← Reader.u16
  let superIndex ← Reader.u16
  let interfaces ← readInterfaces pool
  -- fields, then methods
  skipMembers
  skipMembers
  let attributesCount ← Reader.position
  let permitted ← readAttributes pool
  readEnd
  let size ← Reader.position
  let thisName ← pool.className thisIndex
  let superName ← superName? pool superIndex
  return {
    minorVersion, majorVersion, access := ⟨flags⟩, thisName, superName, interfaces, permitted, pool
    layout := { poolEnd, attributesCount, size } }

/-- The class file that consists of the bytes. -/
def parse (bytes : Bytes) : Except ClassFileError ClassFile :=
  read.run bytes

/-- The bytes of a public class `A` without a superclass, members and attributes. -/
def plainBytes : Bytes :=
  [0xCA, 0xFE, 0xBA, 0xBE, 0, 0, 0, 52] ++ [0, 3, 1, 0, 1, 65, 7, 0, 1]
    ++ [0, 0x21, 0, 2, 0, 0, 0, 0, 0, 0, 0, 0, 0, 0]

/-- What `plainBytes` say. -/
def plainClass : ClassFile where
  minorVersion := 0
  majorVersion := 52
  access := ⟨0x21⟩
  thisName := "A"
  superName := none
  interfaces := []
  permitted := none
  pool := ⟨#[.unusable, .utf8 [65], .classRef 1]⟩
  layout := ⟨17, 29, 31⟩

theorem parse_plainBytes : parse plainBytes = .ok plainClass := by rfl

/-! ## Properties -/

/-- Whether the class is an interface. -/
def isInterface (c : ClassFile) : Bool := c.access.contains AccessFlags.interfaceBit

/-- Whether the class may not be extended. -/
def isFinal (c : ClassFile) : Bool := c.access.contains AccessFlags.finalBit

/-- Whether the class may be used outside its package. -/
def isPublic (c : ClassFile) : Bool := c.access.contains AccessFlags.publicBit

theorem isInterface_eq (c : ClassFile) : c.isInterface = c.access.bits.toNat.testBit 9 :=
  AccessFlags.contains_eq_testBit rfl

theorem isFinal_eq (c : ClassFile) : c.isFinal = c.access.bits.toNat.testBit 4 :=
  AccessFlags.contains_eq_testBit rfl

theorem isPublic_eq (c : ClassFile) : c.isPublic = c.access.bits.toNat.testBit 0 :=
  AccessFlags.contains_eq_testBit rfl

/-- The permitted subclasses, if the class lists any or lists none. -/
def permittedSubclasses (c : ClassFile) : Option (List String) := c.permitted.map (·.names)

/-- Whether the class lists at least one permitted subclass. -/
def isSealed (c : ClassFile) : Bool :=
  match c.permittedSubclasses with
  | some (_ :: _) => true
  | _ => false

end ClassFile

end LinkSet
