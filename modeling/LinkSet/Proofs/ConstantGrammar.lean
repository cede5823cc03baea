import LinkSet.Proofs.ClassForm
import LinkSet.Proofs.Recognition
import LinkSet.Proofs.Results

/-!
# What the reader of constant pools accepts

The reader of a constant recognises the written form of a constant (`Constant.read_eq_ok`), and the
reader of a constant pool the written form of a pool (`ConstantPool.read_eq_ok`). Looking up an
index is following it through the slots (`className_eq_ok`).

The induction is on the number of missing slots. A long or double takes two of them, and it may take
one more than are missing, which is why `ConstantForm.Fills` only asks that no constant starts when
nothing is missing any more.
-/

namespace LinkSet

open Reader

variable {c c' : Cursor}

/-! ## Tables -/

/-- A number below 2¹⁶ survives being written in 16 bits. -/
theorem toNat_ofNat_of_lt {n : Nat} (h : n < 0x10000) : (UInt16.ofNat n).toNat = n := by
  rw [UInt16.toNat_ofNat']
  omega

/-- Items and their number make up a table. -/
theorem Table.passes_iff {α : Type} {encode : α → Bytes} {xs : List α} :
    (∃ count c₁, c.Passes (Bytes.ofUInt16 count) c₁ ∧ xs.length = count.toNat
        ∧ c₁.Passes (xs.flatMap encode) c')
      ↔ ∃ t : Table α, t.1 = xs ∧ c.Passes (t.encode encode) c' := by
  constructor
  · rintro ⟨count, c₁, hcount, hlen, hp⟩
    have hn : UInt16.ofNat xs.length = count := by rw [hlen, UInt16.ofNat_toNat]
    refine ⟨⟨xs, by rw [hlen]; exact count.toNat_lt⟩, rfl, ?_⟩
    rw [Table.encode, hn]
    exact hcount.trans hp
  · rintro ⟨⟨_, hlt⟩, rfl, hp⟩
    obtain ⟨c₁, hcount, hp⟩ := Cursor.passes_append.1 hp
    exact ⟨_, c₁, hcount, (toNat_ofNat_of_lt hlt).symm, hp⟩

theorem length_flatMap_ofUInt16 (xs : List UInt16) :
    (xs.flatMap Bytes.ofUInt16).length = 2 * xs.length := by
  induction xs with
  | nil => rfl
  | cons x xs ih =>
    rw [List.flatMap_cons, List.length_append, ih, Bytes.length_ofUInt16, List.length_cons]
    omega

theorem Table.length_encode_ofUInt16 (t : Table UInt16) :
    (t.encode Bytes.ofUInt16).length = 2 + 2 * t.1.length := by
  rw [Table.encode, List.length_append, length_flatMap_ofUInt16, Bytes.length_ofUInt16]

/-! ## Constants -/

namespace Constant

variable {index : Nat} {tag : UInt8}

theorem readValue_utf8 :
    readValue 1 index = (do let length ← u16; let bytes ← take length.toNat; return utf8 bytes) :=
  rfl

theorem readValue_classRef : readValue 7 index = (do let name ← u16; return classRef name) := rfl

theorem readValue_wide (h : tag = 5 ∨ tag = 6) :
    readValue tag index = (do skip 8; return wide) := by
  rcases h with rfl | rfl <;> rfl

theorem readValue_other {n : Nat} (h : otherWidth? tag = some n) :
    readValue tag index = (do skip n; return other) := by
  unfold otherWidth? at h
  split at h <;> rename_i htag <;> cases h <;> simp only [readValue, htag]

/-- A tag that opens no constant is refused. -/
theorem readValue_unknown (h₁ : tag ≠ 1) (h₇ : tag ≠ 7) (hw : ¬(tag = 5 ∨ tag = 6))
    (ho : otherWidth? tag = none) :
    readValue tag index = throw (.unknownConstantTag tag index) := by
  have hinj : ∀ k : UInt8, tag ≠ k → tag.toNat ≠ k.toNat := fun k hk e => hk (UInt8.toNat_inj.1 e)
  have h₅ := hinj 5 fun e => hw (.inl e)
  have h₆ := hinj 6 fun e => hw (.inr e)
  have h₁ := hinj 1 h₁
  have h₇ := hinj 7 h₇
  unfold otherWidth? at ho
  unfold readValue
  split at ho <;> simp_all

/-- A constant is read exactly from its written form. -/
theorem read_eq_ok {k : Constant} :
    read index c = .ok (k, c') ↔ ∃ x : ConstantForm, c.Passes x.encode c' ∧ x.constant = k := by
  unfold read
  simp only [bind_eq_ok, u8_eq_ok]
  constructor
  · rintro ⟨tag, c₁, htag, hvalue⟩
    by_cases h₁ : tag = 1
    · subst h₁
      simp only [readValue_utf8, bind_eq_ok, u16_eq_ok, take_eq_ok, pure_eq_ok] at hvalue
      obtain ⟨length, c₂, hlength, text, c₃, ⟨htext, hlen⟩, rfl, rfl⟩ := hvalue
      have hn : UInt16.ofNat text.length = length := by rw [hlen, UInt16.ofNat_toNat]
      refine ⟨.utf8 text (by rw [hlen]; exact length.toNat_lt), ?_, rfl⟩
      rw [ConstantForm.encode, hn]
      exact (htag.trans hlength).trans htext
    by_cases h₇ : tag = 7
    · subst h₇
      simp only [readValue_classRef, bind_eq_ok, u16_eq_ok, pure_eq_ok] at hvalue
      obtain ⟨name, c₂, hname, rfl, rfl⟩ := hvalue
      exact ⟨.classRef name, htag.trans hname, rfl⟩
    by_cases hw : tag = 5 ∨ tag = 6
    · simp only [readValue_wide hw, bind_eq_ok, skip_eq_ok, pure_eq_ok] at hvalue
      obtain ⟨_, c₂, ⟨value, hv, hlen⟩, rfl, rfl⟩ := hvalue
      exact ⟨.wide tag value hw hlen, htag.trans hv, rfl⟩
    cases ho : otherWidth? tag with
    | none => exact absurd hvalue (readValue_unknown h₁ h₇ hw ho ▸ throw_ne_ok)
    | some n =>
      simp only [readValue_other ho, bind_eq_ok, skip_eq_ok, pure_eq_ok] at hvalue
      obtain ⟨_, c₂, ⟨value, hv, hlen⟩, rfl, rfl⟩ := hvalue
      exact ⟨.other tag value (by rw [ho, hlen]), htag.trans hv, rfl⟩
  · rintro ⟨x, hp, rfl⟩
    cases x with
    | utf8 text short =>
      obtain ⟨c₂, hp, htext⟩ := Cursor.passes_append.1 hp
      obtain ⟨c₁, htag, hlength⟩ := Cursor.passes_cons.1 hp
      refine ⟨1, c₁, htag, ?_⟩
      simp only [readValue_utf8, bind_eq_ok, u16_eq_ok, take_eq_ok, pure_eq_ok]
      exact ⟨_, c₂, hlength, text, c', ⟨htext, (toNat_ofNat_of_lt short).symm⟩, rfl, rfl⟩
    | classRef name =>
      obtain ⟨c₁, htag, hname⟩ := Cursor.passes_cons.1 hp
      refine ⟨7, c₁, htag, ?_⟩
      simp only [readValue_classRef, bind_eq_ok, u16_eq_ok, pure_eq_ok]
      exact ⟨name, c', hname, rfl, rfl⟩
    | wide tag value isWide width =>
      obtain ⟨c₁, htag, hv⟩ := Cursor.passes_cons.1 hp
      refine ⟨tag, c₁, htag, ?_⟩
      simp only [readValue_wide isWide, bind_eq_ok, skip_eq_ok, pure_eq_ok]
      exact ⟨(), c', ⟨value, hv, width⟩, rfl, rfl⟩
    | other tag value width =>
      obtain ⟨c₁, htag, hv⟩ := Cursor.passes_cons.1 hp
      refine ⟨tag, c₁, htag, ?_⟩
      simp only [readValue_other width, bind_eq_ok, skip_eq_ok, pure_eq_ok]
      exact ⟨(), c', ⟨value, hv, rfl⟩, rfl, rfl⟩

end Constant

namespace ConstantForm

/-! ## Filling slots -/

theorem slots_eq (x : ConstantForm) : x.slots = if x.constant = .wide then 2 else 1 := by
  cases x <;> rfl

theorem slots_pos (x : ConstantForm) : 0 < x.slots := by
  cases x <;> simp [slots]

@[simp] theorem slotsOf_nil : slotsOf [] = 0 := rfl

@[simp] theorem slotsOf_cons (x : ConstantForm) (xs : List ConstantForm) :
    slotsOf (x :: xs) = x.slots + slotsOf xs := rfl

@[simp] theorem slotsOf_append (xs ys : List ConstantForm) :
    slotsOf (xs ++ ys) = slotsOf xs + slotsOf ys := by
  induction xs with
  | nil => simp
  | cons x xs ih => rw [List.cons_append, slotsOf_cons, slotsOf_cons, ih, Nat.add_assoc]

theorem fills_nil {missing : Nat} : Fills missing [] ↔ missing = 0 := by
  constructor
  · intro h
    exact Nat.le_zero.1 h.1
  · rintro rfl
    exact ⟨Nat.le_refl 0, fun front hp hne => absurd (List.prefix_nil.1 hp) hne⟩

/-- The first of the constants is needed, and the others fill what it leaves. -/
theorem fills_cons {missing : Nat} {x : ConstantForm} {xs : List ConstantForm} :
    Fills missing (x :: xs) ↔ 0 < missing ∧ Fills (missing - x.slots) xs := by
  constructor
  · rintro ⟨hle, hlt⟩
    refine ⟨hlt [] List.nil_prefix (by simp), ?_, fun front hp hne => ?_⟩
    · rw [slotsOf_cons] at hle
      omega
    · have := hlt (x :: front) (List.prefix_cons_inj x |>.2 hp) (by simpa using hne)
      rw [slotsOf_cons] at this
      omega
  · rintro ⟨hpos, hle, hlt⟩
    refine ⟨?_, fun front hp hne => ?_⟩
    · rw [slotsOf_cons]
      omega
    · cases front with
      | nil => exact hpos
      | cons y front =>
        obtain ⟨rfl, hprefix⟩ := List.cons_prefix_cons.1 hp
        have := hlt front hprefix (by simpa using hne)
        rw [slotsOf_cons]
        omega

/-- Only the last of the constants can take a slot that is not missing. -/
theorem slotsOf_le_of_fills {missing : Nat} {xs : List ConstantForm} (h : Fills missing xs) :
    slotsOf xs ≤ missing + 1 := by
  induction xs generalizing missing with
  | nil => exact Nat.zero_le _
  | cons x xs ih =>
    obtain ⟨hpos, hrest⟩ := fills_cons.1 h
    have hle := ih hrest
    have htwo : x.slots ≤ 2 := by
      rw [slots_eq]
      split <;> omega
    cases xs with
    | nil =>
      rw [slotsOf_cons, slotsOf_nil]
      omega
    | cons y ys =>
      have hmore := (fills_cons.1 hrest).1
      rw [slotsOf_cons]
      omega

/-- Constants fill exactly the slots that they take. -/
theorem fills_slotsOf (xs : List ConstantForm) : Fills (slotsOf xs) xs := by
  induction xs with
  | nil => exact fills_nil.2 rfl
  | cons x xs ih =>
    have hpos := slots_pos x
    rw [fills_cons, slotsOf_cons, Nat.add_sub_cancel_left]
    exact ⟨by omega, ih⟩

end ConstantForm

namespace ConstantPool

/-! ## Pools -/

theorem readSlots_succ (missing : Nat) (pool : ConstantPool) :
    readSlots (missing + 1) pool = Constant.read pool.size >>= fun k =>
      readSlots (missing + 1 - if k = .wide then 2 else 1) (pool.push k) := by
  rw [readSlots]
  congr
  funext k
  by_cases h : k = .wide
  · rw [if_pos h, if_pos h]
    cases missing <;> rfl
  · rw [if_neg h, if_neg h, Nat.add_sub_cancel]

theorem readSlots_eq_ok {missing : Nat} {pool pool' : ConstantPool} :
    readSlots missing pool c = .ok (pool', c')
      ↔ ∃ xs, ConstantForm.Fills missing xs ∧ c.Passes (xs.flatMap ConstantForm.encode) c'
        ∧ pool' = PoolForm.pushAll pool xs := by
  induction missing using Nat.strongRecOn generalizing pool c with
  | _ missing ih =>
    cases missing with
    | zero =>
      rw [readSlots, pure_eq_ok]
      constructor
      · rintro ⟨rfl, rfl⟩
        exact ⟨[], ConstantForm.fills_nil.2 rfl, Cursor.passes_nil.2 rfl, rfl⟩
      · rintro ⟨xs, hfills, hp, hpool⟩
        cases xs with
        | nil => exact ⟨hpool, Cursor.passes_nil.1 hp⟩
        | cons x xs => exact absurd (ConstantForm.fills_cons.1 hfills).1 (Nat.lt_irrefl 0)
    | succ missing =>
      have hlt : ∀ x : ConstantForm, missing + 1 - x.slots < missing + 1 := fun x => by
        have := x.slots_pos
        omega
      rw [readSlots_succ, bind_eq_ok]
      constructor
      · rintro ⟨k, c₁, hk, hrest⟩
        obtain ⟨x, hp, rfl⟩ := Constant.read_eq_ok.1 hk
        rw [← x.slots_eq] at hrest
        obtain ⟨xs, hfills, hps, hpool⟩ := (ih _ (hlt x)).1 hrest
        exact ⟨x :: xs, ConstantForm.fills_cons.2 ⟨Nat.succ_pos _, hfills⟩, hp.trans hps, hpool⟩
      · rintro ⟨xs, hfills, hp, hpool⟩
        cases xs with
        | nil => exact absurd (ConstantForm.fills_nil.1 hfills) (Nat.succ_ne_zero _)
        | cons x xs =>
          obtain ⟨c₁, hp, hps⟩ := Cursor.passes_append.1 hp
          refine ⟨x.constant, c₁, Constant.read_eq_ok.2 ⟨x, hp, rfl⟩, ?_⟩
          rw [← x.slots_eq]
          exact (ih _ (hlt x)).2 ⟨xs, (ConstantForm.fills_cons.1 hfills).2, hps, hpool⟩

/-- A constant pool is read exactly from its written form. -/
theorem read_eq_ok {pool : ConstantPool} :
    read c = .ok (pool, c') ↔ ∃ p : PoolForm, c.Passes p.encode c' ∧ p.pool = pool := by
  unfold read
  rw [bind_eq_ok]
  constructor
  · rintro ⟨count, c₁, hcount, hslots⟩
    obtain ⟨xs, hfills, hp, hpool⟩ := readSlots_eq_ok.1 hslots
    exact ⟨⟨count, xs, hfills⟩, (u16_eq_ok.1 hcount).trans hp, hpool.symm⟩
  · rintro ⟨⟨count, xs, hfills⟩, hp, rfl⟩
    obtain ⟨c₁, hcount, hp⟩ := Cursor.passes_append.1 hp
    exact ⟨count, c₁, u16_eq_ok.2 hcount, readSlots_eq_ok.2 ⟨xs, hfills, hp, rfl⟩⟩

/-! ## Looking up -/

variable {pool : ConstantPool} {index : UInt16}

theorem utf8_eq_ok {text : Bytes} :
    pool.utf8 index = .ok text ↔ pool.slot? index.toNat = some (.utf8 text) := by
  unfold utf8
  split <;> simp_all

/-- The name of a class is found exactly if its slot leads there. -/
theorem className_eq_ok {name : String} :
    pool.className index = .ok name ↔ pool.Names index name := by
  unfold className Names
  constructor
  · intro h
    split at h
    · rename_i nameIndex hslot
      obtain ⟨text, htext, h⟩ := Result.bind_eq_ok.1 h
      split at h
      · rename_i hname
        cases h
        exact ⟨text, ⟨nameIndex, hslot, utf8_eq_ok.1 htext⟩, hname⟩
      · cases h
    · cases h
  · rintro ⟨text, ⟨nameIndex, hslot, htext⟩, hname⟩
    simp [hslot, utf8_eq_ok.2 htext, hname, bind, Except.bind]

end ConstantPool

end LinkSet
