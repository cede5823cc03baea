import LinkSet.ClassFile.ConstantPool

/-!
# Extending a constant pool

A change that needs constants takes those that the pool already has and puts the others behind its
end, where no index that is in use is disturbed. The number of slots is itself stored in 16 bits, so
the last index that can be given to a new constant is 65534.

Main statement: a new constant gets the index behind the last slot, which fits in 16 bits
(`add_eq_ok`).
-/

namespace LinkSet

/-- The bytes of a constant that an extension can add. -/
def Constant.encode : Constant → Bytes
  | .utf8 text => 1 :: Bytes.ofUInt16 (UInt16.ofNat text.length) ++ text
  | .classRef name => 7 :: Bytes.ofUInt16 name
  | _ => []

/-- A constant pool with constants to be added behind its end. -/
structure PoolExtension where
  /-- The pool as it is. -/
  pool : ConstantPool
  /-- The texts and class references to be added, in order. Each takes one slot. -/
  added : Array Constant
deriving DecidableEq, Repr

namespace PoolExtension

/-- The greatest number of slots that a pool may reach. -/
def maxSlots : Nat := 65535

/-- The longest text that fits in a constant. -/
def maxTextLength : Nat := 65535

/-- The extension that adds nothing. -/
def ofPool (pool : ConstantPool) : PoolExtension := ⟨pool, #[]⟩

/-- The number of slots of the extended pool. -/
def size (e : PoolExtension) : Nat := e.pool.size + e.added.size

/-- The bytes of the added constants. -/
def addedBytes (e : PoolExtension) : Bytes := e.added.toList.flatMap Constant.encode

/-- Adds a constant, and gives its index. -/
def add (e : PoolExtension) (constant : Constant) :
    Except ClassFileError (UInt16 × PoolExtension) :=
  if e.size < maxSlots then
    .ok (UInt16.ofNat e.size, { e with added := e.added.push constant })
  else
    .error (.constantPoolOverflow (e.size + 1))

/-- The index of a text that has been added before. -/
def findAdded? (e : PoolExtension) (text : Bytes) : Option UInt16 :=
  (e.added.findIdx? (ConstantPool.isUtf8 text)).map fun i => UInt16.ofNat (e.pool.size + i)

/-- The index of a text, which is added if it is missing. -/
def addUtf8 (e : PoolExtension) (text : Bytes) : Except ClassFileError (UInt16 × PoolExtension) :=
  match e.pool.findUtf8? text with
  | some index => .ok (index, e)
  | none =>
    match e.findAdded? text with
    | some index => .ok (index, e)
    | none =>
      if text.length ≤ maxTextLength then e.add (.utf8 text)
      else .error (.nameTooLong text.length)

/-- The index of a reference to a class, which is added if the pool has none. References that were
added before are not looked at, so each class is to be asked for only once. -/
def addClass (e : PoolExtension) (name : Bytes) : Except ClassFileError (UInt16 × PoolExtension) :=
  match e.pool.findClass? name with
  | some index => .ok (index, e)
  | none => do
    let (nameIndex, e) ← e.addUtf8 name
    e.add (.classRef nameIndex)

/-- The indexes of references to several classes, in order. -/
def addClasses (e : PoolExtension) : List Bytes → Except ClassFileError (List UInt16 × PoolExtension)
  | [] => .ok ([], e)
  | name :: names => do
    let (index, e) ← e.addClass name
    let (indexes, e) ← e.addClasses names
    return (index :: indexes, e)

/-- A new constant gets the index behind the last slot, and the pool grows by this slot. -/
theorem add_eq_ok {e e' : PoolExtension} {constant : Constant} {index : UInt16}
    (h : e.add constant = .ok (index, e')) :
    index.toNat = e.size ∧ e'.pool = e.pool ∧ e'.added = e.added.push constant
      ∧ e'.size = e.size + 1 := by
  unfold add at h
  split at h
  · rename_i hsize
    unfold maxSlots at hsize
    simp only [Except.ok.injEq, Prod.mk.injEq] at h
    obtain ⟨rfl, rfl⟩ := h
    refine ⟨?_, rfl, rfl, ?_⟩
    · rw [UInt16.toNat_ofNat']; omega
    · simp [size]; omega
  · simp at h

end PoolExtension

end LinkSet
