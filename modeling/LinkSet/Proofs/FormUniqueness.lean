import LinkSet.Proofs.ConstantGrammar

/-!
# Forms are found in their bytes

Every written form ends where its own bytes say so: if two forms of one kind open the same bytes,
they are the same form, and the same bytes are left behind them (`Delimited`). It follows that no
two class files have the same bytes (`ClassForm.encode_injective`).

Each proof takes the pieces of a form off the front, one after the other. Where a piece is as long
as a number before it says, equal numbers make the pieces equally long.
-/

namespace LinkSet

/-- Equal bytes open with equal values, and go on equally behind them. -/
def Delimited {α : Type} (encode : α → Bytes) : Prop :=
  ∀ {x y : α} {r s : Bytes}, encode x ++ r = encode y ++ s → x = y ∧ r = s

theorem Delimited.injective {α : Type} {encode : α → Bytes} (h : Delimited encode) {x y : α}
    (hxy : encode x = encode y) : x = y :=
  (h (congrArg (· ++ []) hxy)).1

/-! ## Numbers and loops -/

theorem delimited_ofUInt16 : Delimited Bytes.ofUInt16 := by
  intro x y r s h
  obtain ⟨hxy, hrs⟩ := List.append_inj h rfl
  refine ⟨?_, hrs⟩
  simp only [Bytes.ofUInt16, List.cons.injEq, and_true] at hxy
  rw [← Bytes.toUInt16_ofUInt16 x, hxy.1, hxy.2, Bytes.toUInt16_ofUInt16]

theorem delimited_ofUInt32 : Delimited Bytes.ofUInt32 := by
  intro x y r s h
  obtain ⟨hxy, hrs⟩ := List.append_inj h rfl
  refine ⟨?_, hrs⟩
  simp only [Bytes.ofUInt32, List.cons.injEq, and_true] at hxy
  rw [← Bytes.toUInt32_ofUInt32 x, hxy.1, hxy.2.1, hxy.2.2.1, hxy.2.2.2, Bytes.toUInt32_ofUInt32]

/-- Bytes behind their number, which has 16 bits. -/
theorem ofUInt16_length_append_inj {x y r s : Bytes} (hx : x.length < 0x10000)
    (hy : y.length < 0x10000)
    (h : Bytes.ofUInt16 (UInt16.ofNat x.length) ++ x ++ r
      = Bytes.ofUInt16 (UInt16.ofNat y.length) ++ y ++ s) : x = y ∧ r = s := by
  simp only [List.append_assoc] at h
  obtain ⟨hn, h⟩ := delimited_ofUInt16 h
  have hlen := congrArg UInt16.toNat hn
  simp only [UInt16.toNat_ofNat'] at hlen
  exact List.append_inj h (by omega)

/-- Bytes behind their number, which has 32 bits. -/
theorem ofUInt32_length_append_inj {x y r s : Bytes} (hx : x.length < 0x100000000)
    (hy : y.length < 0x100000000)
    (h : Bytes.ofUInt32 (UInt32.ofNat x.length) ++ x ++ r
      = Bytes.ofUInt32 (UInt32.ofNat y.length) ++ y ++ s) : x = y ∧ r = s := by
  simp only [List.append_assoc] at h
  obtain ⟨hn, h⟩ := delimited_ofUInt32 h
  have hlen := congrArg UInt32.toNat hn
  simp only [UInt32.toNat_ofNat'] at hlen
  exact List.append_inj h (by omega)

/-- Equally many items can be told apart from what follows them. -/
theorem Delimited.flatMap {α : Type} {encode : α → Bytes} (h : Delimited encode) {xs ys : List α}
    (hlen : xs.length = ys.length) {r s : Bytes}
    (hb : xs.flatMap encode ++ r = ys.flatMap encode ++ s) : xs = ys ∧ r = s := by
  induction xs generalizing ys with
  | nil =>
    obtain rfl := List.eq_nil_of_length_eq_zero hlen.symm
    exact ⟨rfl, hb⟩
  | cons x xs ih =>
    cases ys with
    | nil => cases hlen
    | cons y ys =>
      simp only [List.flatMap_cons, List.append_assoc] at hb
      obtain ⟨rfl, htail⟩ := h hb
      obtain ⟨rfl, hrs⟩ := ih (Nat.succ.inj hlen) htail
      exact ⟨rfl, hrs⟩

theorem Delimited.table {α : Type} {encode : α → Bytes} (h : Delimited encode) :
    Delimited (Table.encode encode) := by
  rintro ⟨xs, hx⟩ ⟨ys, hy⟩ r s hb
  simp only [Table.encode, List.append_assoc] at hb
  obtain ⟨hn, hb⟩ := delimited_ofUInt16 hb
  have hlen := congrArg UInt16.toNat hn
  simp only [UInt16.toNat_ofNat'] at hlen
  obtain ⟨rfl, hrs⟩ := h.flatMap (by omega) hb
  exact ⟨rfl, hrs⟩

/-! ## Constants -/

namespace ConstantForm

/-- The byte that a constant opens with. -/
def tag : ConstantForm → UInt8
  | utf8 .. => 1
  | classRef _ => 7
  | wide tag .. => tag
  | other tag .. => tag

/-- The bytes behind the tag of a constant. -/
def payload : ConstantForm → Bytes
  | utf8 text _ => Bytes.ofUInt16 (UInt16.ofNat text.length) ++ text
  | classRef name => Bytes.ofUInt16 name
  | wide _ value .. => value
  | other _ value _ => value

theorem encode_eq (x : ConstantForm) : x.encode = x.tag :: x.payload := by
  cases x <;> rfl

variable {x : ConstantForm}

/-! The tag of a constant decides of which of the four kinds it is. -/

theorem eq_utf8_of_tag (h : x.tag = 1) : ∃ text short, x = utf8 text short := by
  cases x with
  | utf8 text short => exact ⟨text, short, rfl⟩
  | classRef name => cases h
  | wide tag value isWide width => subst h; rcases isWide with e | e <;> cases e
  | other tag value width => subst h; cases width

theorem eq_classRef_of_tag (h : x.tag = 7) : ∃ name, x = classRef name := by
  cases x with
  | utf8 text short => cases h
  | classRef name => exact ⟨name, rfl⟩
  | wide tag value isWide width => subst h; rcases isWide with e | e <;> cases e
  | other tag value width => subst h; cases width

theorem eq_wide_of_tag {tag : UInt8} (h : x.tag = tag) (hw : tag = 5 ∨ tag = 6) :
    ∃ value width, x = wide tag value hw width := by
  cases x with
  | utf8 text short => subst h; rcases hw with e | e <;> cases e
  | classRef name => subst h; rcases hw with e | e <;> cases e
  | wide tag' value isWide width => cases h; exact ⟨value, width, rfl⟩
  | other tag' value width => exfalso; cases h; rcases hw with rfl | rfl <;> cases width

theorem eq_other_of_tag {tag : UInt8} {n : Nat} (h : x.tag = tag) (ho : otherWidth? tag = some n) :
    ∃ value width, x = other tag value width := by
  cases x with
  | utf8 text short => subst h; cases ho
  | classRef name => subst h; cases ho
  | wide tag' value isWide width => cases h; rcases isWide with rfl | rfl <;> cases ho
  | other tag' value width => cases h; exact ⟨value, width, rfl⟩

theorem delimited_encode : Delimited encode := by
  intro x y r s h
  simp only [encode_eq, List.cons_append, List.cons.injEq] at h
  obtain ⟨htag, h⟩ := h
  cases x with
  | utf8 text short =>
    obtain ⟨text', short', rfl⟩ := eq_utf8_of_tag htag.symm
    obtain ⟨rfl, hrs⟩ := ofUInt16_length_append_inj short short' h
    exact ⟨rfl, hrs⟩
  | classRef name =>
    obtain ⟨name', rfl⟩ := eq_classRef_of_tag htag.symm
    obtain ⟨rfl, hrs⟩ := delimited_ofUInt16 h
    exact ⟨rfl, hrs⟩
  | wide tag value isWide width =>
    obtain ⟨value', width', rfl⟩ := eq_wide_of_tag htag.symm isWide
    obtain ⟨rfl, hrs⟩ := List.append_inj h (width.trans width'.symm)
    exact ⟨rfl, hrs⟩
  | other tag value width =>
    obtain ⟨value', width', rfl⟩ := eq_other_of_tag htag.symm width
    have hlen : value.length = value'.length := Option.some.inj (width.symm.trans width')
    obtain ⟨rfl, hrs⟩ := List.append_inj h hlen
    exact ⟨rfl, hrs⟩

/-- Constants that fill equally many slots can be told apart from what follows them. -/
theorem fills_append_inj {missing : Nat} {xs ys : List ConstantForm} (hx : Fills missing xs)
    (hy : Fills missing ys) {r s : Bytes} (h : xs.flatMap encode ++ r = ys.flatMap encode ++ s) :
    xs = ys ∧ r = s := by
  induction xs generalizing missing ys with
  | nil =>
    obtain rfl := fills_nil.1 hx
    cases ys with
    | nil => exact ⟨rfl, h⟩
    | cons y ys => exact absurd (fills_cons.1 hy).1 (Nat.lt_irrefl 0)
  | cons x xs ih =>
    obtain ⟨hpos, hx⟩ := fills_cons.1 hx
    cases ys with
    | nil => exact absurd (fills_nil.1 hy) (by omega)
    | cons y ys =>
      simp only [List.flatMap_cons, List.append_assoc] at h
      obtain ⟨rfl, htail⟩ := delimited_encode h
      obtain ⟨rfl, hrs⟩ := ih hx (fills_cons.1 hy).2 htail
      exact ⟨rfl, hrs⟩

end ConstantForm

theorem PoolForm.delimited_encode : Delimited PoolForm.encode := by
  rintro ⟨count, xs, hx⟩ ⟨count', ys, hy⟩ r s h
  simp only [PoolForm.encode, List.append_assoc] at h
  obtain ⟨rfl, htail⟩ := delimited_ofUInt16 h
  obtain ⟨rfl, hrs⟩ := ConstantForm.fills_append_inj hx hy htail
  exact ⟨rfl, hrs⟩

/-! ## Attributes, members and class files -/

theorem AttributeForm.delimited_encode : Delimited AttributeForm.encode := by
  rintro ⟨name, body, short⟩ ⟨name', body', short'⟩ r s h
  simp only [AttributeForm.encode, List.append_assoc] at h
  obtain ⟨rfl, hbody⟩ := delimited_ofUInt16 h
  simp only [← List.append_assoc] at hbody
  obtain ⟨rfl, hrs⟩ := ofUInt32_length_append_inj short short' hbody
  exact ⟨rfl, hrs⟩

theorem MemberForm.delimited_encode : Delimited MemberForm.encode := by
  rintro ⟨flags, name, descriptor, attributes⟩ ⟨flags', name', descriptor', attributes'⟩ r s h
  simp only [MemberForm.encode, List.append_assoc] at h
  obtain ⟨rfl, h₁⟩ := delimited_ofUInt16 h
  obtain ⟨rfl, h₂⟩ := delimited_ofUInt16 h₁
  obtain ⟨rfl, h₃⟩ := delimited_ofUInt16 h₂
  obtain ⟨rfl, hrs⟩ := AttributeForm.delimited_encode.table h₃
  exact ⟨rfl, hrs⟩

namespace ClassForm

theorem delimited_encode : Delimited encode := by
  rintro ⟨minor, major, pool, flags, this, super, interfaces, fields, methods, attributes⟩
    ⟨minor', major', pool', flags', this', super', interfaces', fields', methods', attributes'⟩
    r s h
  simp only [encode, head, body, List.append_assoc] at h
  obtain ⟨_, h₁⟩ := delimited_ofUInt32 h
  obtain ⟨rfl, h₂⟩ := delimited_ofUInt16 h₁
  obtain ⟨rfl, h₃⟩ := delimited_ofUInt16 h₂
  obtain ⟨rfl, h₄⟩ := PoolForm.delimited_encode h₃
  obtain ⟨rfl, h₅⟩ := delimited_ofUInt16 h₄
  obtain ⟨rfl, h₆⟩ := delimited_ofUInt16 h₅
  obtain ⟨rfl, h₇⟩ := delimited_ofUInt16 h₆
  obtain ⟨rfl, h₈⟩ := delimited_ofUInt16.table h₇
  obtain ⟨rfl, h₉⟩ := MemberForm.delimited_encode.table h₈
  obtain ⟨rfl, h₁₀⟩ := MemberForm.delimited_encode.table h₉
  obtain ⟨rfl, hrs⟩ := AttributeForm.delimited_encode.table h₁₀
  exact ⟨rfl, hrs⟩

/-- No two class files have the same bytes. -/
theorem encode_injective {f g : ClassForm} (h : f.encode = g.encode) : f = g :=
  delimited_encode.injective h

end ClassForm

end LinkSet
