import LinkSet.ClassFile.ModifiedUtf8
import LinkSet.ClassFile.Reader

/-!
# The constant pool

Class files keep names and numbers in a table whose slots are counted from one. Only the texts and
the references to classes matter here; of all other constants it is known how many bytes and slots
they take.

Slot 0 is never used. A long or double constant takes its slot and the next one, which is not used
either; if it is the last constant, the table becomes one slot longer than announced.

Main statements: a constant takes its own slot or also the next (`size_push`), and a constant stays
in its slot when others are added (`slot?_push_of_lt`).
-/

namespace LinkSet

/-- What a slot of the constant pool holds. -/
inductive Constant
  /-- A text, in modified UTF-8. -/
  | utf8 (bytes : Bytes)
  /-- A reference to a class, by the slot of its name. -/
  | classRef (name : UInt16)
  /-- A long or double, which takes the next slot too. -/
  | wide
  /-- Any other constant. -/
  | other
  /-- Nothing: slot 0, or the slot behind a long or double. -/
  | unusable
deriving DecidableEq, Repr

/-- Reads what stands behind the tag of the constant that is to stand in slot `index`. -/
def Constant.readValue (tag : UInt8) (index : Nat) : Reader Constant :=
  match tag.toNat with
  | 1 => do
    let length ← Reader.u16
    let bytes ← Reader.take length.toNat
    return .utf8 bytes
  | 7 => do
    let name ← Reader.u16
    return .classRef name
  -- strings, method types, modules, packages
  | 8 | 16 | 19 | 20 => do
    Reader.skip 2
    return .other
  -- method handles
  | 15 => do
    Reader.skip 3
    return .other
  -- integers, floats, members, names with types, dynamic constants and calls
  | 3 | 4 | 9 | 10 | 11 | 12 | 17 | 18 => do
    Reader.skip 4
    return .other
  | 5 | 6 => do
    Reader.skip 8
    return .wide
  | _ => throw (.unknownConstantTag tag index)

/-- Reads the constant that is to stand in slot `index`. -/
def Constant.read (index : Nat) : Reader Constant := do
  let tag ← Reader.u8
  Constant.readValue tag index

/-- The slots of a class file's constants. -/
structure ConstantPool where
  /-- The content of each slot, from slot 0 on. -/
  slots : Array Constant
deriving DecidableEq, Repr

namespace ConstantPool

/-- The number of slots, slot 0 included. -/
def size (pool : ConstantPool) : Nat := pool.slots.size

/-- A pool without constants. -/
def empty : ConstantPool := ⟨#[.unusable]⟩

/-- The pool with one more constant. -/
def push (pool : ConstantPool) (constant : Constant) : ConstantPool :=
  if constant = .wide then ⟨(pool.slots.push .wide).push .unusable⟩
  else ⟨pool.slots.push constant⟩

@[simp] theorem size_empty : empty.size = 1 := rfl

theorem size_push (pool : ConstantPool) (constant : Constant) :
    (pool.push constant).size = pool.size + if constant = .wide then 2 else 1 := by
  unfold push size
  split <;> simp

/-- The content of a slot. -/
def slot? (pool : ConstantPool) (index : Nat) : Option Constant := pool.slots[index]?

theorem slot?_push_of_lt {pool : ConstantPool} {index : Nat} (h : index < pool.size)
    (constant : Constant) : (pool.push constant).slot? index = pool.slot? index := by
  unfold size at h
  unfold push slot?
  split
  · rw [Array.getElem?_push, if_neg (by simp; omega), Array.getElem?_push, if_neg (by omega)]
  · rw [Array.getElem?_push, if_neg (by omega)]

/-! ## Reading -/

/-- Reads constants until `missing` more slots are filled. -/
def readSlots : Nat → ConstantPool → Reader ConstantPool
  | 0, pool => return pool
  | missing + 1, pool => do
    let constant ← Constant.read pool.size
    if constant = .wide then
      match missing with
      | 0 => return pool.push constant
      | missing + 1 => readSlots missing (pool.push constant)
    else
      readSlots missing (pool.push constant)

/-- Reads the number of slots and the constants that fill them. -/
def read : Reader ConstantPool := do
  let count ← Reader.u16
  readSlots (count.toNat - 1) empty

/-! ## Looking up -/

/-- The text in a slot. -/
def utf8 (pool : ConstantPool) (index : UInt16) : Except ClassFileError Bytes :=
  match pool.slot? index.toNat with
  | some (.utf8 bytes) => .ok bytes
  | _ => .error (.badConstantIndex index .utf8)

/-- The name of the class that a slot refers to. -/
def className (pool : ConstantPool) (index : UInt16) : Except ClassFileError String :=
  match pool.slot? index.toNat with
  | some (.classRef nameIndex) => do
    let bytes ← pool.utf8 nameIndex
    match ModifiedUtf8.decode? bytes with
    | some name => .ok name
    | none => .error (.badModifiedUtf8 nameIndex)
  | _ => .error (.badConstantIndex index .classRef)

/-- The first slot with a constant that passes the test, if its index has at most 16 bits. -/
def find? (pool : ConstantPool) (test : Constant → Bool) : Option UInt16 :=
  match pool.slots.findIdx? test with
  | some index => if index < 0x10000 then some (UInt16.ofNat index) else none
  | none => none

/-- Whether a constant is the given text. -/
def isUtf8 (text : Bytes) : Constant → Bool
  | .utf8 bytes => bytes == text
  | _ => false

/-- Whether a constant refers to a class whose name is the given text. -/
def isClassNamed (pool : ConstantPool) (text : Bytes) : Constant → Bool
  | .classRef nameIndex =>
    match pool.slot? nameIndex.toNat with
    | some (.utf8 bytes) => bytes == text
    | _ => false
  | _ => false

/-- The first slot with the given text. -/
def findUtf8? (pool : ConstantPool) (text : Bytes) : Option UInt16 :=
  pool.find? (isUtf8 text)

/-- The first slot that refers to a class with the given name. -/
def findClass? (pool : ConstantPool) (text : Bytes) : Option UInt16 :=
  pool.find? (pool.isClassNamed text)

end ConstantPool

end LinkSet
