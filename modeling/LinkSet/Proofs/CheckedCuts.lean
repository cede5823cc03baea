import LinkSet.Proofs.SealingEnds

/-!
# Cuts that are checked

A change cuts bytes at places that were recorded when a class was read, and these bytes need not be
the ones that it was read from. `ClassFile.applyChecked` makes the same change with every cut
checked, and comes to no end at all where one is out of bounds. The places lie in the right order
and far enough apart (`ClassFile.LaidOut`, `ClassFile.laidOut_of_parse`), so for bytes of the same
number, whatever they are, no cut is out of bounds (`ClassFile.applyChecked_of_parse`), and only a
limit of the format can keep a change from being made (`ClassFile.apply_eq_error`).
-/

namespace LinkSet

/-! ## Bytes -/

namespace Bytes

/-- The bytes from `start` up to `stop`, which have to be places in the bytes, in this order. -/
def cut? (bytes : Bytes) (start stop : Nat) : Option Bytes :=
  if start ≤ stop ∧ stop ≤ bytes.length then some (bytes.slice start stop) else none

/-- The bytes with `new` in place of as many that start at `start`, which have to be there. -/
def overwrite? (bytes : Bytes) (start : Nat) (new : Bytes) : Option Bytes :=
  if start + new.length ≤ bytes.length then
    some (bytes.take start ++ new ++ bytes.drop (start + new.length))
  else none

variable {bytes : Bytes} {start stop : Nat}

theorem cut?_of_le (horder : start ≤ stop) (hstop : stop ≤ bytes.length) :
    bytes.cut? start stop = some (bytes.slice start stop) :=
  if_pos ⟨horder, hstop⟩

theorem cut?_front (h : stop ≤ bytes.length) : bytes.cut? 0 stop = some (bytes.take stop) := by
  rw [cut?_of_le (Nat.zero_le _) h, slice, List.drop_zero]

theorem cut?_back (h : start ≤ bytes.length) :
    bytes.cut? start bytes.length = some (bytes.drop start) := by
  rw [cut?_of_le h (Nat.le_refl _), slice, List.take_length]

end Bytes

/-! ## Steps with cuts -/

/-- Steps that may fail, and that come to no end at all where they cut out of bounds. -/
abbrev Cutting := ExceptT ClassFileError Option

namespace Cutting

variable {α β : Type}

/-- The steps make no cut out of bounds, and this is their result. -/
def EndsAs (x : Cutting α) (result : Except ClassFileError α) : Prop := x.run = some result

theorem endsAs_ok (a : α) : EndsAs (pure a) (.ok a) := rfl

theorem endsAs_throw (cause : ClassFileError) :
    EndsAs (throw cause : Cutting α) (.error cause) := rfl

theorem endsAs_ofExcept (result : Except ClassFileError α) :
    EndsAs (MonadExcept.ofExcept result) result := by
  cases result <;> rfl

theorem endsAs_lift {x : Option α} {a : α} (h : x = some a) :
    EndsAs (liftM x : Cutting α) (.ok a) := by
  rw [h]
  rfl

theorem EndsAs.bind {x : Cutting α} {f : α → Cutting β} {result : Except ClassFileError α}
    {g : α → Except ClassFileError β} (hx : EndsAs x result)
    (hf : ∀ a, result = .ok a → EndsAs (f a) (g a)) : EndsAs (x >>= f) (result >>= g) := by
  unfold EndsAs at hx
  rw [EndsAs, ExceptT.run_bind, hx]
  cases result with
  | error cause => rfl
  | ok a => exact hf a rfl

/-- A cut that is within bounds is no more than its bytes. -/
theorem EndsAs.after_cut {x : Option α} {f : α → Cutting β} {a : α}
    {result : Except ClassFileError β} (hx : x = some a) (hf : EndsAs (f a) result) :
    EndsAs (liftM x >>= f) result :=
  (endsAs_lift hx).bind fun _ h => Except.ok.inj h ▸ hf

end Cutting

namespace ClassFile

/-! ## Changes with checked cuts -/

/-- The bytes from the end of the constant pool on, with `listing` put in its place. -/
def withListingChecked (c : ClassFile) (bytes listing : Bytes) : Cutting Bytes :=
  match c.permitted with
  | some old => do
    let front ← bytes.cut? c.layout.poolEnd old.start
    let back ← bytes.cut? old.stop bytes.length
    return front ++ listing ++ back
  | none => do
    let place := c.layout.attributesCount
    let counted ← bytes.cut? place bytes.length
    let count ← MonadExcept.ofExcept (Reader.u16.run counted)
    if count.toNat < 65535 then do
      let front ← bytes.cut? c.layout.poolEnd place
      let back ← bytes.cut? (place + 2) bytes.length
      return front ++ Bytes.ofUInt16 (count + 1) ++ back ++ listing
    else
      throw .attributeOverflow

/-- The bytes with `names` as the permitted subclasses. -/
def sealToChecked (c : ClassFile) (bytes : Bytes) (names : List String) : Cutting Bytes := do
  let ((nameIndex, classIndexes), e) ←
    MonadExcept.ofExcept ((PoolExtension.ofPool c.pool).addListing names)
  if classIndexes.length ≤ 65535 then do
    let head ← bytes.cut? 0 8
    let constants ← bytes.cut? 10 c.layout.poolEnd
    let tail ← c.withListingChecked bytes (permittedAttribute nameIndex classIndexes)
    return head ++ Bytes.ofUInt16 (UInt16.ofNat e.size) ++ constants ++ e.addedBytes ++ tail
  else
    throw .attributeOverflow

/-- Carries out a decision as `apply` does, with every cut checked. -/
def applyChecked (c : ClassFile) (decision : Decision) (bytes : Bytes) : Cutting Bytes :=
  if bytes.length = c.layout.size then
    match decision with
    | .keep => pure bytes
    | .markFinal =>
      bytes.overwrite? c.layout.poolEnd
        (Bytes.ofUInt16 (c.access.insert AccessFlags.finalBit).bits)
    | .sealTo subtypes => c.sealToChecked bytes subtypes.toList
  else
    throw (.layoutMismatch c.layout.size bytes.length)

/-! ## Places -/

/-- The recorded places are those of a file of `size` bytes. They lie in order, and there is room
between them for what has to stand there: the magic number, the versions and the number of slots in
front of the constants, then flags, indexes and the sizes of three tables in front of the
attributes, and in a listing a header and the number of classes. -/
structure LaidOut (c : ClassFile) (size : Nat) : Prop where
  size_eq : c.layout.size = size
  poolEnd : 10 ≤ c.layout.poolEnd
  attributesCount : c.layout.poolEnd + 12 ≤ c.layout.attributesCount
  attributes : c.layout.attributesCount + 2 ≤ size
  permitted : ∀ p, c.permitted = some p →
    c.layout.attributesCount + 2 ≤ p.start ∧ p.start + 8 ≤ p.stop ∧ p.stop ≤ size

end ClassFile

theorem Table.two_le_length_encode {α : Type} (encodeItem : α → Bytes) (t : Table α) :
    2 ≤ (t.encode encodeItem).length := by
  rw [Table.encode, List.length_append, Bytes.length_ofUInt16]
  omega

namespace ClassForm

/-- Three numbers and three tables stand in front of the attributes. -/
theorem twelve_le_length_body (f : ClassForm) : 12 ≤ f.body.length := by
  have hinterfaces := f.interfaces.two_le_length_encode Bytes.ofUInt16
  have hfields := f.fields.two_le_length_encode MemberForm.encode
  have hmethods := f.methods.two_le_length_encode MemberForm.encode
  simp only [body, List.length_append, Bytes.length_ofUInt16]
  omega

/-- A listing has at least a header and the number of classes. -/
theorem eight_le_length_listing {pool : ConstantPool} {a : AttributeForm} {names : List String}
    (h : a.Lists pool names) : 8 ≤ a.encode.length := by
  obtain ⟨indexes, hbody, _⟩ := h
  have htable := indexes.two_le_length_encode Bytes.ofUInt16
  rw [AttributeForm.encode, hbody]
  simp only [List.length_append, Bytes.length_ofUInt16, Bytes.length_ofUInt32]
  omega

/-- The last listing lies among the attributes of the class. -/
theorem listing_within (f : ClassForm) {pool : ConstantPool} {p : PermittedSubclasses}
    (h : AttributeForm.LastListing pool (f.attributesStart + 2) f.attributes.1 (some p)) :
    f.attributesStart + 2 ≤ p.start ∧ p.start + 8 ≤ p.stop ∧ p.stop ≤ f.encode.length := by
  obtain ⟨before, a, after, hattrs, _, hlists, _, hstart, hstop⟩ := h
  have hlisting := eight_le_length_listing hlists
  have hsplit : f.attributes.1 = (before ++ [a]) ++ after := by
    rw [hattrs, List.append_assoc]
    rfl
  have hlength : f.encode.length = p.stop + (after.flatMap AttributeForm.encode).length := by
    rw [encode_eq_of_attributes hsplit, hstop, hstart, attributesStart]
    simp only [List.flatMap_append, List.flatMap_singleton, List.length_append,
      Bytes.length_ofUInt16]
    omega
  omega

end ClassForm

namespace ClassFile

variable {b b₀ : Bytes} {cf : ClassFile}

theorem laidOut_of_parse (hparse : parse b = .ok cf) : cf.LaidOut b.length := by
  obtain ⟨f, rfl, _, hd⟩ := parse_eq_ok.1 hparse
  have hpoolEnd : cf.layout.poolEnd = f.bodyStart := by rw [hd.layout]
  have hplace : cf.layout.attributesCount = f.attributesStart := by rw [hd.layout]
  have hconstants := f.bodyStart_eq
  have hbody : f.attributesStart = f.bodyStart + f.body.length := List.length_append
  have hattributes : f.encode.length
      = f.attributesStart + (AttributeForm.encodeTable f.attributes).length := List.length_append
  have htwelve := f.twelve_le_length_body
  have htwo : 2 ≤ (AttributeForm.encodeTable f.attributes).length :=
    f.attributes.two_le_length_encode _
  constructor
  case size_eq => rw [hd.layout]
  case poolEnd => omega
  case attributesCount => omega
  case attributes => omega
  case permitted =>
    intro p hp
    have hlisting := hd.permitted
    rw [hp] at hlisting
    rw [hplace]
    exact f.listing_within hlisting

/-! ## No cut is out of bounds -/

open Cutting

theorem withListingChecked_endsAs (h : cf.LaidOut b.length) (listing : Bytes) :
    EndsAs (cf.withListingChecked b listing) (cf.withListing b listing) := by
  have hbody := h.attributesCount
  have hattributes := h.attributes
  unfold withListingChecked withListing
  cases hp : cf.permitted with
  | some old =>
    obtain ⟨hstart, hstop, hend⟩ := h.permitted old hp
    have hfront : b.cut? cf.layout.poolEnd old.start
        = some (b.slice cf.layout.poolEnd old.start) := by
      apply Bytes.cut?_of_le <;> omega
    have hback : b.cut? old.stop b.length = some (b.drop old.stop) := Bytes.cut?_back hend
    exact EndsAs.after_cut hfront (EndsAs.after_cut hback (endsAs_ok _))
  | none =>
    have hcounted : b.cut? cf.layout.attributesCount b.length
        = some (b.drop cf.layout.attributesCount) := Bytes.cut?_back (by omega)
    have hfront : b.cut? cf.layout.poolEnd cf.layout.attributesCount
        = some (b.slice cf.layout.poolEnd cf.layout.attributesCount) := by
      apply Bytes.cut?_of_le <;> omega
    have hback : b.cut? (cf.layout.attributesCount + 2) b.length
        = some (b.drop (cf.layout.attributesCount + 2)) := Bytes.cut?_back hattributes
    refine EndsAs.after_cut hcounted ((endsAs_ofExcept _).bind fun count _ => ?_)
    by_cases hroom : count.toNat < 65535
    · rw [if_pos hroom, if_pos hroom]
      exact EndsAs.after_cut hfront (EndsAs.after_cut hback (endsAs_ok _))
    · rw [if_neg hroom, if_neg hroom]
      exact endsAs_throw _

theorem sealToChecked_endsAs (h : cf.LaidOut b.length) (names : List String) :
    EndsAs (cf.sealToChecked b names) (cf.sealTo b names) := by
  have hpool := h.poolEnd
  have hbody := h.attributesCount
  have hattributes := h.attributes
  have hhead : b.cut? 0 8 = some (b.take 8) := Bytes.cut?_front (by omega)
  have hconstants : b.cut? 10 cf.layout.poolEnd = some (b.slice 10 cf.layout.poolEnd) := by
    apply Bytes.cut?_of_le <;> omega
  rw [ClassForm.sealTo_eq_bind, sealToChecked]
  refine (endsAs_ofExcept _).bind fun ⟨⟨nameIndex, indexes⟩, e⟩ _ => ?_
  dsimp only
  by_cases hlength : indexes.length ≤ 65535
  · rw [if_pos hlength, if_pos hlength]
    have htail := withListingChecked_endsAs h (permittedAttribute nameIndex indexes)
    refine EndsAs.after_cut hhead (EndsAs.after_cut hconstants ?_)
    exact htail.bind fun tail _ => endsAs_ok _
  · rw [if_neg hlength, if_neg hlength]
    exact endsAs_throw _

/-- The checks change nothing, whether the bytes are as many as those of the class or not. -/
theorem applyChecked_endsAs {size : Nat} (h : cf.LaidOut size) (decision : Decision) (b : Bytes) :
    EndsAs (cf.applyChecked decision b) (cf.apply decision b) := by
  unfold applyChecked apply
  by_cases hsize : b.length = cf.layout.size
  · rw [if_pos hsize, if_pos hsize]
    obtain rfl : b.length = size := hsize.trans h.size_eq
    cases decision with
    | keep => exact endsAs_ok b
    | markFinal =>
      have hbody := h.attributesCount
      have hattributes := h.attributes
      have hplace : cf.layout.poolEnd
          + (Bytes.ofUInt16 (cf.access.insert AccessFlags.finalBit).bits).length ≤ b.length := by
        rw [Bytes.length_ofUInt16]
        omega
      exact endsAs_lift (if_pos hplace)
    | sealTo subtypes => exact sealToChecked_endsAs h subtypes.toList
  · rw [if_neg hsize, if_neg hsize]
    exact endsAs_throw _

/-- A place that is not one of the bytes is found by the checks. -/
example : ({ plainClass with layout := ⟨30, 29, 31⟩ }.applyChecked .markFinal plainBytes).run
    = none := by
  decide +kernel

end ClassFile

/-! ## What a change can fail with -/

/-- The error tells of a limit of the format: something is too much for the numbers in which it has
to be written. -/
def ClassFileError.IsLimit : ClassFileError → Prop
  | constantPoolOverflow _ => True
  | attributeOverflow => True
  | nameTooLong _ => True
  | _ => False

namespace ClassFile

variable {b b₀ : Bytes} {cf : ClassFile} {cause : ClassFileError}

theorem isLimit_of_addListing (hparse : parse b₀ = .ok cf) {names : List String}
    (hnodup : names.Nodup)
    (h : (PoolExtension.ofPool cf.pool).addListing names = .error cause) : cause.IsLimit := by
  obtain ⟨f, _, _, hd⟩ := parse_eq_ok.1 hparse
  have htakes := PoolExtension.addListing_takes f.pool hnodup
  rw [← hd.pool, h] at htakes
  cases htakes with
  | tooLong => trivial
  | noRoom => trivial

/-- Two bytes are enough for a number. -/
theorem exists_run_u16 {bytes : Bytes} (h : 2 ≤ bytes.length) :
    ∃ n, Reader.u16.run bytes = .ok n := by
  match bytes, h with
  | b₁ :: b₀ :: rest, _ => exact ⟨_, rfl⟩

theorem isLimit_of_withListing (h : cf.LaidOut b.length) {listing : Bytes}
    (herror : cf.withListing b listing = .error cause) : cause.IsLimit := by
  have hattributes := h.attributes
  unfold withListing at herror
  cases hp : cf.permitted with
  | some old =>
    rw [hp] at herror
    cases herror
  | none =>
    rw [hp] at herror
    have hroom : 2 ≤ (b.drop cf.layout.attributesCount).length := by
      rw [List.length_drop]
      omega
    obtain ⟨count, hcount⟩ := exists_run_u16 hroom
    rcases Result.bind_eq_error.1 herror with hread | ⟨_, _, herror⟩
    · rw [hcount] at hread
      cases hread
    · split at herror
      · cases herror
      · obtain rfl := Except.error.inj herror
        trivial

theorem isLimit_of_sealTo (hparse : parse b₀ = .ok cf) (hsize : b.length = b₀.length)
    {names : List String} (hnodup : names.Nodup) (herror : cf.sealTo b names = .error cause) :
    cause.IsLimit := by
  have hlaid := laidOut_of_parse hparse
  rw [← hsize] at hlaid
  rw [ClassForm.sealTo_eq_bind] at herror
  rcases Result.bind_eq_error.1 herror with hadd | ⟨_, _, herror⟩
  · exact isLimit_of_addListing hparse hnodup hadd
  · split at herror
    · rcases Result.bind_eq_error.1 herror with hlisting | ⟨_, _, hdone⟩
      · exact isLimit_of_withListing hlaid hlisting
      · cases hdone
    · obtain rfl := Except.error.inj herror
      trivial

/-- What keeps a change from being made is that there are not as many bytes as there should be, or
else a limit of the format. -/
theorem apply_eq_error (hparse : parse b₀ = .ok cf) {decision : Decision}
    (herror : cf.apply decision b = .error cause) :
    (b.length ≠ b₀.length ∧ cause = .layoutMismatch b₀.length b.length)
      ∨ (b.length = b₀.length ∧ cause.IsLimit) := by
  have hsize := (laidOut_of_parse hparse).size_eq
  unfold apply at herror
  rw [hsize] at herror
  by_cases hlength : b.length = b₀.length
  · rw [if_pos hlength] at herror
    refine .inr ⟨hlength, ?_⟩
    cases decision with
    | keep => cases herror
    | markFinal => cases herror
    | sealTo subtypes => exact isLimit_of_sealTo hparse hlength subtypes.nodup_toList herror
  · rw [if_neg hlength] at herror
    exact .inl ⟨hlength, (Except.error.inj herror).symm⟩

/-- The places that are recorded for a class lie in order within its bytes. So a change can be asked
for on any bytes: if they are not as many as those of the class, this is the error, and if they are,
then whatever they hold, no cut is out of bounds and no number is looked for where the bytes have
ended. -/
theorem applyChecked_of_parse (hparse : parse b₀ = .ok cf) :
    cf.LaidOut b₀.length ∧ ∀ (decision : Decision) (b : Bytes),
      ((∃ expected actual, cf.apply decision b = .error (.layoutMismatch expected actual))
        ↔ b.length ≠ b₀.length)
      ∧ (cf.applyChecked decision b).run = some (cf.apply decision b)
      ∧ ∀ offset needed, cf.apply decision b ≠ .error (.truncated offset needed) := by
  have hlaid := laidOut_of_parse hparse
  refine ⟨hlaid, fun decision b =>
    ⟨⟨?_, fun hlength => ?_⟩, applyChecked_endsAs hlaid decision b, ?_⟩⟩
  · rintro ⟨expected, actual, herror⟩
    rcases apply_eq_error hparse herror with ⟨hlength, _⟩ | ⟨_, hlimit⟩
    · exact hlength
    · exact hlimit.elim
  · have herror : cf.apply decision b = .error (.layoutMismatch b₀.length b.length) := by
      unfold apply
      rw [hlaid.size_eq, if_neg hlength]
    exact ⟨_, _, herror⟩
  · intro offset needed herror
    rcases apply_eq_error hparse herror with ⟨_, hcause⟩ | ⟨_, hlimit⟩
    · cases hcause
    · exact hlimit.elim

/-- The class `A` has 31 bytes. In other bytes of this number, all set, there seem to be as many
attributes as can be, and among 30 bytes nothing is cut. -/
theorem applyChecked_of_parse_plain :
    plainClass.LaidOut 31
      ∧ (plainClass.applyChecked (.sealTo (NameSet.ofList ["B"])) (List.replicate 31 0xFF)).run
        = some (.error .attributeOverflow)
      ∧ ∃ expected actual, plainClass.apply .keep (List.replicate 30 0xFF)
        = .error (.layoutMismatch expected actual) := by
  obtain ⟨hlaid, hall⟩ := applyChecked_of_parse parse_plainBytes
  have hfull : plainClass.apply (.sealTo (NameSet.ofList ["B"])) (List.replicate 31 0xFF)
      = .error .attributeOverflow := by decide +kernel
  refine ⟨hlaid, ?_, (hall .keep _).1.2 (by decide)⟩
  rw [(hall _ _).2.1, hfull]

end ClassFile

end LinkSet
