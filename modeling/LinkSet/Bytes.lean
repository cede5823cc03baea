/-!
# Bytes

File contents are lists of bytes. This module has what a binary format needs of them: big-endian
numbers of two and four bytes, cuts at byte offsets, and a length test that looks no further than it
has to.

Main statements: writing a number and reading it back gives the number (`toUInt16_ofUInt16`,
`toUInt32_ofUInt32`), and `hasAtLeast` is the comparison of a length (`hasAtLeast_iff`).
-/

namespace LinkSet

/-- A sequence of bytes: the content of a file, or a piece of it. -/
abbrev Bytes := List UInt8

namespace Bytes

/-! ## Big-endian numbers -/

/-- The two bytes of a 16-bit number, high byte first. -/
def ofUInt16 (n : UInt16) : Bytes :=
  [UInt8.ofNat (n.toNat / 0x100), UInt8.ofNat n.toNat]

/-- The four bytes of a 32-bit number, highest byte first. -/
def ofUInt32 (n : UInt32) : Bytes :=
  [UInt8.ofNat (n.toNat / 0x1000000), UInt8.ofNat (n.toNat / 0x10000),
    UInt8.ofNat (n.toNat / 0x100), UInt8.ofNat n.toNat]

/-- The 16-bit number with the given bytes. -/
def toUInt16 (hi lo : UInt8) : UInt16 :=
  UInt16.ofNat (hi.toNat * 0x100 + lo.toNat)

/-- The 32-bit number with the given bytes. -/
def toUInt32 (b₃ b₂ b₁ b₀ : UInt8) : UInt32 :=
  UInt32.ofNat (b₃.toNat * 0x1000000 + b₂.toNat * 0x10000 + b₁.toNat * 0x100 + b₀.toNat)

@[simp] theorem length_ofUInt16 (n : UInt16) : (ofUInt16 n).length = 2 := rfl

@[simp] theorem length_ofUInt32 (n : UInt32) : (ofUInt32 n).length = 4 := rfl

/-- Reading back the two bytes of a number. -/
theorem toUInt16_ofUInt16 (n : UInt16) :
    toUInt16 (UInt8.ofNat (n.toNat / 0x100)) (UInt8.ofNat n.toNat) = n := by
  have h := n.toNat_lt
  apply UInt16.toNat_inj.1
  simp only [toUInt16, UInt8.toNat_ofNat', UInt16.toNat_ofNat']
  omega

/-- Reading back the four bytes of a number. -/
theorem toUInt32_ofUInt32 (n : UInt32) :
    toUInt32 (UInt8.ofNat (n.toNat / 0x1000000)) (UInt8.ofNat (n.toNat / 0x10000))
      (UInt8.ofNat (n.toNat / 0x100)) (UInt8.ofNat n.toNat) = n := by
  have h := n.toNat_lt
  apply UInt32.toNat_inj.1
  simp only [toUInt32, UInt8.toNat_ofNat', UInt32.toNat_ofNat']
  omega

/-- Writing out a number that was read from two bytes gives these bytes. -/
theorem ofUInt16_toUInt16 (hi lo : UInt8) : ofUInt16 (toUInt16 hi lo) = [hi, lo] := by
  have h₁ := hi.toNat_lt
  have h₀ := lo.toNat_lt
  simp only [ofUInt16, toUInt16, List.cons.injEq, and_true]
  constructor <;> apply UInt8.toNat_inj.1 <;>
    simp only [UInt8.toNat_ofNat', UInt16.toNat_ofNat'] <;> omega

/-- Writing out a number that was read from four bytes gives these bytes. -/
theorem ofUInt32_toUInt32 (b₃ b₂ b₁ b₀ : UInt8) :
    ofUInt32 (toUInt32 b₃ b₂ b₁ b₀) = [b₃, b₂, b₁, b₀] := by
  have h₃ := b₃.toNat_lt
  have h₂ := b₂.toNat_lt
  have h₁ := b₁.toNat_lt
  have h₀ := b₀.toNat_lt
  simp only [ofUInt32, toUInt32, List.cons.injEq, and_true]
  refine ⟨?_, ?_, ?_, ?_⟩ <;> apply UInt8.toNat_inj.1 <;>
    simp only [UInt8.toNat_ofNat', UInt32.toNat_ofNat'] <;> omega

/-! ## Cuts -/

/-- The bytes from offset `start` up to, and not including, offset `stop`. -/
def slice (bytes : Bytes) (start stop : Nat) : Bytes :=
  (bytes.take stop).drop start

@[simp] theorem length_slice (bytes : Bytes) (start stop : Nat) :
    (bytes.slice start stop).length = min stop bytes.length - start := by
  simp [slice]

/-- Whether there are at least `n` bytes. Only the first `n` are looked at. -/
def hasAtLeast : Bytes → Nat → Bool
  | _, 0 => true
  | [], _ + 1 => false
  | _ :: rest, n + 1 => hasAtLeast rest n

@[simp] theorem hasAtLeast_iff (bytes : Bytes) (n : Nat) :
    bytes.hasAtLeast n = true ↔ n ≤ bytes.length := by
  induction bytes generalizing n with
  | nil => cases n <;> simp [hasAtLeast]
  | cons b rest ih => cases n <;> simp [hasAtLeast, ih]

end Bytes

end LinkSet
