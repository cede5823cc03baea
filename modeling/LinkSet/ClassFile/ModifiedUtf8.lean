import LinkSet.Bytes
import LinkSet.Text.Utf16

/-!
# Modified UTF-8

Class files store names as modified UTF-8: each UTF-16 unit of the name is one *group* of bytes.

* A unit from `0001` to `007F` is the single byte of that value.
* The unit `0000` and those from `0080` to `07FF` are two bytes, `C0` to `DF` and a continuation.
* All others, surrogates among them, are three bytes, `E0` to `EF` and two continuations.

A continuation is a byte from `80` to `BF`. Reading is wider than writing: it takes the value of any
group of these three shapes, also where a shorter one would do. It refuses the byte `00`, four-byte
forms, groups that are cut off, and surrogates outside a pair.

Main statement: a name reads back from its written form (`decode?_encode`).
-/

namespace LinkSet.ModifiedUtf8

/-! ## Writing -/

/-- The group of one unit. -/
def encodeUnit (u : UInt16) : Bytes :=
  if 0x01 ≤ u.toNat ∧ u.toNat ≤ 0x7F then
    [UInt8.ofNat u.toNat]
  else if u.toNat ≤ 0x7FF then
    [UInt8.ofNat (0xC0 + u.toNat / 0x40), UInt8.ofNat (0x80 + u.toNat % 0x40)]
  else
    [UInt8.ofNat (0xE0 + u.toNat / 0x1000), UInt8.ofNat (0x80 + u.toNat / 0x40 % 0x40),
      UInt8.ofNat (0x80 + u.toNat % 0x40)]

/-- The groups of a sequence of units. -/
def encodeUnits (units : List UInt16) : Bytes :=
  units.flatMap encodeUnit

/-- The written form of a name. -/
def encode (name : String) : Bytes :=
  encodeUnits (Text.Utf16.units name.toList)

/-! ## Reading -/

/-- A byte that is a group of its own. -/
def IsSingle (b : UInt8) : Prop := 0x01 ≤ b.toNat ∧ b.toNat ≤ 0x7F

/-- A byte that opens a group of two. -/
def IsLeadOfTwo (b : UInt8) : Prop := 0xC0 ≤ b.toNat ∧ b.toNat ≤ 0xDF

/-- A byte that opens a group of three. -/
def IsLeadOfThree (b : UInt8) : Prop := 0xE0 ≤ b.toNat ∧ b.toNat ≤ 0xEF

/-- A byte that stands behind the first of its group. -/
def IsContinuation (b : UInt8) : Prop := 0x80 ≤ b.toNat ∧ b.toNat ≤ 0xBF

instance (b : UInt8) : Decidable (IsSingle b) := inferInstanceAs (Decidable (_ ∧ _))

instance (b : UInt8) : Decidable (IsLeadOfTwo b) := inferInstanceAs (Decidable (_ ∧ _))

instance (b : UInt8) : Decidable (IsLeadOfThree b) := inferInstanceAs (Decidable (_ ∧ _))

instance (b : UInt8) : Decidable (IsContinuation b) := inferInstanceAs (Decidable (_ ∧ _))

/-- The value of a group of two. -/
def unitOfTwo (b c : UInt8) : UInt16 :=
  UInt16.ofNat ((b.toNat - 0xC0) * 0x40 + (c.toNat - 0x80))

/-- The value of a group of three. -/
def unitOfThree (b c d : UInt8) : UInt16 :=
  UInt16.ofNat ((b.toNat - 0xE0) * 0x1000 + (c.toNat - 0x80) * 0x40 + (d.toNat - 0x80))

/-- Reads groups behind the units `done`, which are kept in reverse. -/
def readFrom? (done : List UInt16) : Bytes → Option (List UInt16)
  | [] => some done.reverse
  | b :: rest =>
    if IsSingle b then
      readFrom? (UInt16.ofNat b.toNat :: done) rest
    else if IsLeadOfTwo b then
      match rest with
      | c :: rest =>
        if IsContinuation c then readFrom? (unitOfTwo b c :: done) rest else none
      | [] => none
    else if IsLeadOfThree b then
      match rest with
      | c :: d :: rest =>
        if IsContinuation c ∧ IsContinuation d then readFrom? (unitOfThree b c d :: done) rest
        else none
      | _ => none
    else none

/-- The units whose groups make up the bytes. -/
def decodeUnits? (bytes : Bytes) : Option (List UInt16) :=
  readFrom? [] bytes

/-- The name that the bytes stand for, if they are groups of the UTF-16 units of some text. -/
def decode? (bytes : Bytes) : Option String := do
  let units ← decodeUnits? bytes
  let text ← Text.Utf16.ofUnits? units
  return String.ofList text

/-! ## Reading back -/

/-- One unit is read from its group. -/
theorem readFrom?_encodeUnit (done : List UInt16) (u : UInt16) (rest : Bytes) :
    readFrom? done (encodeUnit u ++ rest) = readFrom? (u :: done) rest := by
  have hu := u.toNat_lt
  unfold encodeUnit
  split
  · rename_i h
    have hv : (UInt8.ofNat u.toNat).toNat = u.toNat := by rw [UInt8.toNat_ofNat']; omega
    have hs : IsSingle (UInt8.ofNat u.toNat) := by unfold IsSingle; omega
    rw [List.singleton_append, readFrom?.eq_def]
    simp only [hs, if_true, hv, UInt16.ofNat_toNat]
  · split
    · have hb : (UInt8.ofNat (0xC0 + u.toNat / 0x40)).toNat = 0xC0 + u.toNat / 0x40 := by
        rw [UInt8.toNat_ofNat']; omega
      have hc : (UInt8.ofNat (0x80 + u.toNat % 0x40)).toNat = 0x80 + u.toNat % 0x40 := by
        rw [UInt8.toNat_ofNat']; omega
      have h₁ : ¬ IsSingle (UInt8.ofNat (0xC0 + u.toNat / 0x40)) := by unfold IsSingle; omega
      have h₂ : IsLeadOfTwo (UInt8.ofNat (0xC0 + u.toNat / 0x40)) := by unfold IsLeadOfTwo; omega
      have h₃ : IsContinuation (UInt8.ofNat (0x80 + u.toNat % 0x40)) := by
        unfold IsContinuation; omega
      have hw : unitOfTwo (UInt8.ofNat (0xC0 + u.toNat / 0x40))
          (UInt8.ofNat (0x80 + u.toNat % 0x40)) = u := by
        unfold unitOfTwo
        rw [hb, hc]
        rw [show (0xC0 + u.toNat / 0x40 - 0xC0) * 0x40 + (0x80 + u.toNat % 0x40 - 0x80)
          = u.toNat by omega]
        exact UInt16.ofNat_toNat
      rw [List.cons_append, List.singleton_append, readFrom?.eq_def]
      simp only [h₁, h₂, h₃, if_true, if_false, hw]
    · have hb : (UInt8.ofNat (0xE0 + u.toNat / 0x1000)).toNat = 0xE0 + u.toNat / 0x1000 := by
        rw [UInt8.toNat_ofNat']; omega
      have hc : (UInt8.ofNat (0x80 + u.toNat / 0x40 % 0x40)).toNat
          = 0x80 + u.toNat / 0x40 % 0x40 := by rw [UInt8.toNat_ofNat']; omega
      have hd : (UInt8.ofNat (0x80 + u.toNat % 0x40)).toNat = 0x80 + u.toNat % 0x40 := by
        rw [UInt8.toNat_ofNat']; omega
      have h₁ : ¬ IsSingle (UInt8.ofNat (0xE0 + u.toNat / 0x1000)) := by unfold IsSingle; omega
      have h₂ : ¬ IsLeadOfTwo (UInt8.ofNat (0xE0 + u.toNat / 0x1000)) := by
        unfold IsLeadOfTwo; omega
      have h₃ : IsLeadOfThree (UInt8.ofNat (0xE0 + u.toNat / 0x1000)) := by
        unfold IsLeadOfThree; omega
      have h₄ : IsContinuation (UInt8.ofNat (0x80 + u.toNat / 0x40 % 0x40)) := by
        unfold IsContinuation; omega
      have h₅ : IsContinuation (UInt8.ofNat (0x80 + u.toNat % 0x40)) := by
        unfold IsContinuation; omega
      have hw : unitOfThree (UInt8.ofNat (0xE0 + u.toNat / 0x1000))
          (UInt8.ofNat (0x80 + u.toNat / 0x40 % 0x40)) (UInt8.ofNat (0x80 + u.toNat % 0x40))
          = u := by
        unfold unitOfThree
        rw [hb, hc, hd]
        rw [show (0xE0 + u.toNat / 0x1000 - 0xE0) * 0x1000
          + (0x80 + u.toNat / 0x40 % 0x40 - 0x80) * 0x40 + (0x80 + u.toNat % 0x40 - 0x80)
          = u.toNat by omega]
        exact UInt16.ofNat_toNat
      rw [List.cons_append, List.cons_append, List.singleton_append, readFrom?.eq_def]
      simp only [h₁, h₂, h₃, h₄, h₅, and_self, if_true, if_false, hw]

/-- Units read back from their groups. -/
theorem decodeUnits?_encodeUnits (units : List UInt16) :
    decodeUnits? (encodeUnits units) = some units := by
  suffices h : ∀ done, readFrom? done (encodeUnits units) = some (done.reverse ++ units) from h []
  induction units with
  | nil => intro done; simp [encodeUnits, readFrom?]
  | cons u units ih =>
    intro done
    rw [encodeUnits, List.flatMap_cons, readFrom?_encodeUnit]
    exact (ih (u :: done)).trans (by simp)

/-- A name reads back from its written form. -/
theorem decode?_encode (name : String) : decode? (encode name) = some name := by
  simp [decode?, encode, decodeUnits?_encodeUnits, Text.Utf16.ofUnits?_units]

end LinkSet.ModifiedUtf8
