import LinkSet.ClassFile.Basic
import Mathlib.Data.List.Forall2

/-!
# The form of class files

A class file as it is written: every number, table and constant in its place, with nothing left out
and nothing looked up. `ClassForm.encode` gives the bytes of a form, `ClassForm.Resolves` says that
its indexes lead where they have to, and `ClassForm.Describes` relates it to what is read from it.

The bounds on numbers and lengths are part of the types, so every form has bytes that can be read
back, and no two forms have the same bytes.
-/

namespace LinkSet

/-! ## Tables -/

/-- Items that are written behind their number, which has 16 bits. -/
abbrev Table (α : Type) := { items : List α // items.length < 0x10000 }

/-- The bytes of a table. -/
def Table.encode {α : Type} (encodeItem : α → Bytes) (t : Table α) : Bytes :=
  Bytes.ofUInt16 (UInt16.ofNat t.1.length) ++ t.1.flatMap encodeItem

/-! ## Constants -/

/-- How many bytes stand behind the tag of a constant that takes one slot and is neither a text nor
a reference to a class. -/
def otherWidth? (tag : UInt8) : Option Nat :=
  match tag.toNat with
  -- strings, method types, modules, packages
  | 8 | 16 | 19 | 20 => some 2
  -- method handles
  | 15 => some 3
  -- integers, floats, members, names with types, dynamic constants and calls
  | 3 | 4 | 9 | 10 | 11 | 12 | 17 | 18 => some 4
  | _ => none

/-- A constant as it is written. -/
inductive ConstantForm
  | utf8 (text : Bytes) (short : text.length < 0x10000)
  | classRef (name : UInt16)
  /-- A long or double. -/
  | wide (tag : UInt8) (value : Bytes) (isWide : tag = 5 ∨ tag = 6) (width : value.length = 8)
  | other (tag : UInt8) (value : Bytes) (width : otherWidth? tag = some value.length)

namespace ConstantForm

/-- The bytes of a constant. -/
def encode : ConstantForm → Bytes
  | utf8 text _ => 1 :: Bytes.ofUInt16 (UInt16.ofNat text.length) ++ text
  | classRef name => 7 :: Bytes.ofUInt16 name
  | wide tag value _ _ => tag :: value
  | other tag value _ => tag :: value

/-- What the slot of a constant holds. -/
def constant : ConstantForm → Constant
  | utf8 text _ => .utf8 text
  | classRef name => .classRef name
  | wide .. => .wide
  | other .. => .other

/-- How many slots a constant takes. -/
def slots : ConstantForm → Nat
  | wide .. => 2
  | _ => 1

/-- How many slots some constants take. -/
def slotsOf : List ConstantForm → Nat
  | [] => 0
  | x :: xs => x.slots + slotsOf xs

/-- The constants fill the missing slots, and each of them is needed to do so. -/
def Fills (missing : Nat) (xs : List ConstantForm) : Prop :=
  missing ≤ slotsOf xs ∧ ∀ front, front <+: xs → front ≠ xs → slotsOf front < missing

end ConstantForm

/-- A constant pool as it is written. -/
structure PoolForm where
  /-- The announced number of slots, slot 0 included. -/
  count : UInt16
  constants : List ConstantForm
  /-- The constants go on until as many slots are filled as are announced. -/
  fills : ConstantForm.Fills (count.toNat - 1) constants

namespace PoolForm

def encode (p : PoolForm) : Bytes :=
  Bytes.ofUInt16 p.count ++ p.constants.flatMap ConstantForm.encode

/-- The pool with some constants added to it. -/
def pushAll (pool : ConstantPool) (xs : List ConstantForm) : ConstantPool :=
  xs.foldl (fun pool x => pool.push x.constant) pool

/-- The slots that the constants fill. -/
def pool (p : PoolForm) : ConstantPool := pushAll .empty p.constants

end PoolForm

/-! ## Attributes and members -/

/-- An attribute as it is written. -/
structure AttributeForm where
  nameIndex : UInt16
  body : Bytes
  /-- The length of the body is written in 32 bits. -/
  short : body.length < 0x100000000

def AttributeForm.encode (a : AttributeForm) : Bytes :=
  Bytes.ofUInt16 a.nameIndex ++ Bytes.ofUInt32 (UInt32.ofNat a.body.length) ++ a.body

/-- The bytes of an attribute table. -/
abbrev AttributeForm.encodeTable (t : Table AttributeForm) : Bytes := t.encode AttributeForm.encode

/-- A field or method as it is written. -/
structure MemberForm where
  flags : UInt16
  nameIndex : UInt16
  descriptorIndex : UInt16
  attributes : Table AttributeForm

def MemberForm.encode (m : MemberForm) : Bytes :=
  Bytes.ofUInt16 m.flags ++ Bytes.ofUInt16 m.nameIndex ++ Bytes.ofUInt16 m.descriptorIndex
    ++ AttributeForm.encodeTable m.attributes

/-! ## Class files -/

/-- A class file as it is written. -/
structure ClassForm where
  minorVersion : UInt16
  majorVersion : UInt16
  pool : PoolForm
  flags : UInt16
  thisIndex : UInt16
  /-- The index of the superclass, or 0. -/
  superIndex : UInt16
  interfaces : Table UInt16
  fields : Table MemberForm
  methods : Table MemberForm
  attributes : Table AttributeForm

namespace ClassForm

/-- What stands before the constant pool. -/
def head (f : ClassForm) : Bytes :=
  Bytes.ofUInt32 ClassFile.magic ++ Bytes.ofUInt16 f.minorVersion ++ Bytes.ofUInt16 f.majorVersion

/-- What stands between the constant pool and the attributes of the class. -/
def body (f : ClassForm) : Bytes :=
  Bytes.ofUInt16 f.flags ++ Bytes.ofUInt16 f.thisIndex ++ Bytes.ofUInt16 f.superIndex
    ++ f.interfaces.encode Bytes.ofUInt16
    ++ f.fields.encode MemberForm.encode ++ f.methods.encode MemberForm.encode

/-- The bytes of a class file. -/
def encode (f : ClassForm) : Bytes :=
  f.head ++ f.pool.encode ++ f.body ++ AttributeForm.encodeTable f.attributes

/-- Where the constant pool ends and the flags stand. -/
def bodyStart (f : ClassForm) : Nat := (f.head ++ f.pool.encode).length

/-- Where the number of class attributes stands. -/
def attributesStart (f : ClassForm) : Nat := (f.head ++ f.pool.encode ++ f.body).length

end ClassForm

/-! ## Where indexes lead -/

/-- The slot refers to a class whose name is the text. -/
def ConstantPool.Refers (pool : ConstantPool) (index : UInt16) (text : Bytes) : Prop :=
  ∃ nameIndex, pool.slot? index.toNat = some (.classRef nameIndex)
    ∧ pool.slot? nameIndex.toNat = some (.utf8 text)

/-- The slot refers to a class whose name is a written form of `name`. -/
def ConstantPool.Names (pool : ConstantPool) (index : UInt16) (name : String) : Prop :=
  ∃ text, pool.Refers index text ∧ ModifiedUtf8.decode? text = some name

namespace AttributeForm

variable (pool : ConstantPool)

/-- The attribute has the name under which permitted subclasses are listed. -/
def IsListing (a : AttributeForm) : Prop :=
  pool.slot? a.nameIndex.toNat
    = some (.utf8 (ModifiedUtf8.encode PermittedSubclasses.attributeName))

/-- The body of the attribute is a table of classes with these names. -/
def Lists (a : AttributeForm) (names : List String) : Prop :=
  ∃ indexes : Table UInt16, a.body = indexes.encode Bytes.ofUInt16
    ∧ List.Forall₂ pool.Names indexes.1 names

/-- The name of the attribute is a text, and if it is the one of permitted subclasses, the body
lists names of classes. -/
def Resolves (a : AttributeForm) : Prop :=
  (∃ text, pool.slot? a.nameIndex.toNat = some (.utf8 text))
    ∧ (a.IsListing pool → ∃ names, a.Lists pool names)

/-- Of attributes that are written from `offset` on, the last one with permitted subclasses. -/
def LastListing (offset : Nat) (attributes : List AttributeForm) :
    Option PermittedSubclasses → Prop
  | none => ∀ a ∈ attributes, ¬ a.IsListing pool
  | some p =>
    ∃ before a after, attributes = before ++ a :: after
      ∧ a.IsListing pool ∧ a.Lists pool p.names ∧ (∀ x ∈ after, ¬ x.IsListing pool)
      ∧ p.start = offset + (before.flatMap encode).length ∧ p.stop = p.start + a.encode.length

end AttributeForm

namespace ClassForm

/-- All indexes that are looked up lead where they have to. -/
structure Resolves (f : ClassForm) : Prop where
  thisIndex : ∃ name, f.pool.pool.Names f.thisIndex name
  superIndex : f.superIndex ≠ 0 → ∃ name, f.pool.pool.Names f.superIndex name
  interfaces : ∀ index ∈ f.interfaces.1, ∃ name, f.pool.pool.Names index name
  attributes : ∀ a ∈ f.attributes.1, a.Resolves f.pool.pool

/-- The class file says what the form holds, and knows where it stands. -/
structure Describes (f : ClassForm) (c : ClassFile) : Prop where
  minorVersion : c.minorVersion = f.minorVersion
  majorVersion : c.majorVersion = f.majorVersion
  access : c.access = ⟨f.flags⟩
  pool : c.pool = f.pool.pool
  thisName : f.pool.pool.Names f.thisIndex c.thisName
  noSuper : f.superIndex = 0 → c.superName = none
  superName : f.superIndex ≠ 0 → ∃ name, c.superName = some name
    ∧ f.pool.pool.Names f.superIndex name
  interfaces : List.Forall₂ f.pool.pool.Names f.interfaces.1 c.interfaces
  permitted : AttributeForm.LastListing f.pool.pool (f.attributesStart + 2) f.attributes.1
    c.permitted
  layout : c.layout = ⟨f.bodyStart, f.attributesStart, f.encode.length⟩

end ClassForm

end LinkSet
