import LinkSet.Text.Hex

/-!
# Access flags

The sixteen flag bits of a class. Nine of them have a name; the others are kept as they are.

Main statements: bits that are set are there (`contains_insert_self`), and no other bit changes
(`contains_insert_of_disjoint`, `insert_and_not`).
-/

namespace LinkSet

/-- The flag bits of a class. -/
structure AccessFlags where
  /-- All sixteen bits, named or not. -/
  bits : UInt16
deriving DecidableEq, Repr

namespace AccessFlags

/-- The class may be used outside its package. -/
def publicBit : UInt16 := 0x0001

/-- The class may not be extended. -/
def finalBit : UInt16 := 0x0010

/-- The class treats superclass calls in the modern way. -/
def superBit : UInt16 := 0x0020

/-- The class is an interface. -/
def interfaceBit : UInt16 := 0x0200

/-- The class may not be instantiated. -/
def abstractBit : UInt16 := 0x0400

/-- The class does not appear in source code. -/
def syntheticBit : UInt16 := 0x1000

/-- The class is an annotation type. -/
def annotationBit : UInt16 := 0x2000

/-- The class is an enumeration. -/
def enumBit : UInt16 := 0x4000

/-- The class is the description of a module. -/
def moduleBit : UInt16 := 0x8000

/-- The named bits, in the order in which they are listed. -/
def named : List (String × UInt16) :=
  [("PUBLIC", publicBit), ("FINAL", finalBit), ("SUPER", superBit), ("INTERFACE", interfaceBit),
    ("ABSTRACT", abstractBit), ("SYNTHETIC", syntheticBit), ("ANNOTATION", annotationBit),
    ("ENUM", enumBit), ("MODULE", moduleBit)]

/-- Whether all bits of `mask` are set. -/
def contains (flags : AccessFlags) (mask : UInt16) : Bool :=
  flags.bits &&& mask == mask

/-- The flags with the bits of `mask` set as well. -/
def insert (flags : AccessFlags) (mask : UInt16) : AccessFlags :=
  ⟨flags.bits ||| mask⟩

/-- The bits that have no name. -/
def unnamed (flags : AccessFlags) : UInt16 :=
  named.foldl (fun bits flag => bits &&& ~~~flag.2) flags.bits

/-- The names of the set flags, then the unnamed bits as one number, with bars between them. -/
def text (flags : AccessFlags) : String :=
  let names := (named.filter fun flag => flags.contains flag.2).map (·.1)
  let rest := if flags.unnamed = 0 then [] else ["0x" ++ Text.Hex.ofNat flags.unnamed.toNat]
  String.intercalate " | " (names ++ rest)

/-! ## Bits that are set -/

theorem or_and_distrib (a b m : UInt16) : (a ||| b) &&& m = (a &&& m) ||| (b &&& m) := by
  apply UInt16.toNat_inj.1
  simp only [UInt16.toNat_and, UInt16.toNat_or, Nat.and_or_distrib_right]

theorem or_and_right (a b : UInt16) : (a ||| b) &&& b = b := by
  have hzero : (a.toNat ||| b.toNat) &&& (0 ||| b.toNat) = (a.toNat &&& 0) ||| b.toNat :=
    (Nat.or_and_distrib_right ..).symm
  have h : (a.toNat ||| b.toNat) &&& b.toNat = b.toNat := by simpa using hzero
  apply UInt16.toNat_inj.1
  rw [UInt16.toNat_and, UInt16.toNat_or, h]

variable {flags : AccessFlags} {mask m : UInt16}

/-- A mask of one bit is there if this bit is set. -/
theorem contains_eq_testBit {i : Nat} (h : mask.toNat = 1 <<< i) :
    flags.contains mask = flags.bits.toNat.testBit i := by
  rw [contains, Bool.eq_iff_iff, beq_iff_eq, ← UInt16.toNat_inj, UInt16.toNat_and, h,
    Nat.one_shiftLeft]
  constructor
  · intro hall
    have hbit := congrArg (Nat.testBit · i) hall
    simpa [Nat.testBit_and, Nat.testBit_two_pow] using hbit
  · intro hset
    refine Nat.eq_of_testBit_eq fun j => ?_
    rw [Nat.testBit_and, Nat.testBit_two_pow]
    by_cases hj : i = j
    · rw [← hj, hset, Bool.true_and]
    · rw [decide_eq_false hj, Bool.and_false]

theorem contains_insert_self : (flags.insert mask).contains mask = true := by
  rw [contains, insert, or_and_right, beq_self_eq_true]

/-- Bits outside the mask stay as they are. -/
theorem contains_insert_of_disjoint (h : mask &&& m = 0) :
    (flags.insert mask).contains m = flags.contains m := by
  rw [contains, contains, insert, or_and_distrib, h, UInt16.or_zero]

theorem insert_and_not : (flags.insert mask).bits &&& ~~~mask = flags.bits &&& ~~~mask := by
  rw [insert, or_and_distrib, UInt16.and_not_self, UInt16.or_zero]

end AccessFlags

end LinkSet
