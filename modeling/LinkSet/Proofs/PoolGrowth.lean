import LinkSet.ClassFile.PoolExtension
import LinkSet.Proofs.ConstantGrammar

/-!
# Growing constant pools

An extension leaves every slot of its pool as it is, and each index that it hands out leads to what
was asked for, whether this was in the pool, was added before or is added now (`addUtf8_spec`,
`addClasses_spec`). Since slots only come behind those that are there, what has been handed out
stays right while more is added.

An extended pool has a written form, in which the added constants stand behind those of the pool
(`PoolForm.exists_extended`).
-/

namespace LinkSet

namespace ConstantPool

/-! ## Slots that stay -/

/-- Every slot of the first pool holds the same in the second. -/
def GrowsTo (small large : ConstantPool) : Prop :=
  ∀ i k, small.slot? i = some k → large.slot? i = some k

variable {small large : ConstantPool}

theorem GrowsTo.refl (pool : ConstantPool) : pool.GrowsTo pool := fun _ _ h => h

theorem GrowsTo.trans {middle : ConstantPool} (h₁ : small.GrowsTo middle)
    (h₂ : middle.GrowsTo large) : small.GrowsTo large :=
  fun i k h => h₂ i k (h₁ i k h)

theorem Refers.grow (h : small.GrowsTo large) {index : UInt16} {text : Bytes}
    (hr : small.Refers index text) : large.Refers index text := by
  obtain ⟨nameIndex, hslot, htext⟩ := hr
  exact ⟨nameIndex, h _ _ hslot, h _ _ htext⟩

theorem Names.grow (h : small.GrowsTo large) {index : UInt16} {name : String}
    (hn : small.Names index name) : large.Names index name := by
  obtain ⟨text, hr, hname⟩ := hn
  exact ⟨text, hr.grow h, hname⟩

/-! ## Finding -/

/-- What is found passes the test. -/
theorem find?_eq_some {pool : ConstantPool} {test : Constant → Bool} {index : UInt16}
    (h : pool.find? test = some index) :
    ∃ k, pool.slot? index.toNat = some k ∧ test k = true := by
  unfold find? at h
  cases hi : pool.slots.findIdx? test with
  | none => simp [hi] at h
  | some i =>
    simp only [hi] at h
    by_cases hlt : i < 0x10000
    · rw [if_pos hlt] at h
      obtain ⟨hsize, htest, _⟩ := Array.findIdx?_eq_some_iff_getElem.1 hi
      obtain rfl := Option.some.inj h
      refine ⟨pool.slots[i], ?_, htest⟩
      rw [toNat_ofNat_of_lt hlt, slot?, Array.getElem?_eq_getElem hsize]
    · rw [if_neg hlt] at h
      cases h

theorem isUtf8_iff {text : Bytes} {k : Constant} : isUtf8 text k = true ↔ k = .utf8 text := by
  cases k <;> simp [isUtf8]

theorem isClassNamed_iff {pool : ConstantPool} {text : Bytes} {k : Constant} :
    pool.isClassNamed text k = true
      ↔ ∃ nameIndex, k = .classRef nameIndex ∧ pool.slot? nameIndex.toNat = some (.utf8 text) := by
  cases k with
  | classRef nameIndex =>
    unfold isClassNamed
    simp only [Constant.classRef.injEq, exists_eq_left']
    split <;> simp_all
  | utf8 _ => simp [isClassNamed]
  | wide => simp [isClassNamed]
  | other => simp [isClassNamed]
  | unusable => simp [isClassNamed]

theorem findUtf8?_eq_some {pool : ConstantPool} {text : Bytes} {index : UInt16}
    (h : pool.findUtf8? text = some index) : pool.slot? index.toNat = some (.utf8 text) := by
  obtain ⟨k, hslot, htest⟩ := find?_eq_some h
  rw [hslot, isUtf8_iff.1 htest]

theorem findClass?_eq_some {pool : ConstantPool} {text : Bytes} {index : UInt16}
    (h : pool.findClass? text = some index) : pool.Refers index text := by
  obtain ⟨k, hslot, htest⟩ := find?_eq_some h
  obtain ⟨nameIndex, rfl, htext⟩ := isClassNamed_iff.1 htest
  exact ⟨nameIndex, hslot, htext⟩

end ConstantPool

namespace PoolExtension

/-! ## Extended pools -/

/-- The pool with the added constants behind its end. -/
def extended (e : PoolExtension) : ConstantPool := ⟨e.pool.slots ++ e.added⟩

theorem size_extended (e : PoolExtension) : e.extended.size = e.size := by
  simp [extended, ConstantPool.size, size]

theorem pool_growsTo_extended (e : PoolExtension) : e.pool.GrowsTo e.extended := by
  intro i k h
  have hlt : i < e.pool.slots.size := by
    obtain ⟨hlt, _⟩ := Array.getElem?_eq_some_iff.1 h
    exact hlt
  rw [extended, ConstantPool.slot?, Array.getElem?_append_left hlt]
  exact h

theorem slot?_extended_added (e : PoolExtension) (i : Nat) :
    e.extended.slot? (e.pool.size + i) = e.added[i]? := by
  rw [extended, ConstantPool.slot?, ConstantPool.size, Array.getElem?_append_right (by omega)]
  congr 1
  omega

/-- A constant that can be written: a text that is not too long, or a reference to a class. -/
def Addable (k : Constant) : Prop :=
  (∃ text, k = .utf8 text ∧ text.length < 0x10000) ∨ ∃ index, k = .classRef index

/-- An extension whose constants can be written, and whose indexes fit in 16 bits. -/
structure Sound (e : PoolExtension) : Prop where
  addable : ∀ k ∈ e.added.toList, Addable k
  size_le : e.size ≤ maxSlots

/-- The second extension has come from the first by adding constants. -/
structure LeadsTo (e e' : PoolExtension) : Prop where
  sound : e'.Sound
  pool_eq : e'.pool = e.pool
  grows : e.extended.GrowsTo e'.extended

variable {e e' : PoolExtension}

theorem sound_ofPool {pool : ConstantPool} (h : pool.size ≤ maxSlots) : (ofPool pool).Sound :=
  ⟨fun k hk => by simp [ofPool] at hk, h⟩

theorem LeadsTo.refl (h : e.Sound) : e.LeadsTo e := ⟨h, rfl, .refl _⟩

theorem LeadsTo.trans {e₁ : PoolExtension} (h₁ : e.LeadsTo e₁) (h₂ : e₁.LeadsTo e') :
    e.LeadsTo e' :=
  ⟨h₂.sound, h₂.pool_eq.trans h₁.pool_eq, h₁.grows.trans h₂.grows⟩

/-! ## Steps of asking -/

/-- A text is found in the pool, or else among what has been added, or else it is added. -/
theorem addUtf8_cases {text : Bytes} {index : UInt16} (h : e.addUtf8 text = .ok (index, e')) :
    (e.pool.findUtf8? text = some index ∧ e' = e)
      ∨ (e.pool.findUtf8? text = none ∧ e.findAdded? text = some index ∧ e' = e)
      ∨ (e.pool.findUtf8? text = none ∧ e.findAdded? text = none ∧ text.length ≤ maxTextLength
        ∧ e.add (.utf8 text) = .ok (index, e')) := by
  unfold addUtf8 at h
  cases hfind : e.pool.findUtf8? text with
  | some i =>
    simp only [hfind, Except.ok.injEq, Prod.mk.injEq] at h
    obtain ⟨rfl, rfl⟩ := h
    exact .inl ⟨rfl, rfl⟩
  | none =>
    simp only [hfind] at h
    cases hadded : e.findAdded? text with
    | some i =>
      simp only [hadded, Except.ok.injEq, Prod.mk.injEq] at h
      obtain ⟨rfl, rfl⟩ := h
      exact .inr (.inl ⟨rfl, rfl, rfl⟩)
    | none =>
      simp only [hadded] at h
      obtain ⟨hlen, h⟩ := (Result.ite_eq_ok rfl).1 h
      exact .inr (.inr ⟨rfl, rfl, hlen, h⟩)

/-- A class is found in the pool, or else a reference to it is added behind its name. -/
theorem addClass_cases {name : Bytes} {index : UInt16} (h : e.addClass name = .ok (index, e')) :
    (e.pool.findClass? name = some index ∧ e' = e)
      ∨ (e.pool.findClass? name = none ∧ ∃ nameIndex e₁, e.addUtf8 name = .ok (nameIndex, e₁)
        ∧ e₁.add (.classRef nameIndex) = .ok (index, e')) := by
  unfold addClass at h
  cases hfind : e.pool.findClass? name with
  | some i =>
    simp only [hfind, Except.ok.injEq, Prod.mk.injEq] at h
    obtain ⟨rfl, rfl⟩ := h
    exact .inl ⟨rfl, rfl⟩
  | none =>
    simp only [hfind] at h
    obtain ⟨⟨nameIndex, e₁⟩, hname, hadd⟩ := Result.bind_eq_ok.1 h
    exact .inr ⟨rfl, nameIndex, e₁, hname, hadd⟩

theorem addClasses_nil {indexes : List UInt16} (h : e.addClasses [] = .ok (indexes, e')) :
    indexes = [] ∧ e' = e := by
  obtain ⟨rfl, rfl⟩ := Prod.mk.inj (Except.ok.inj h)
  exact ⟨rfl, rfl⟩

/-- Classes are asked for one after the other. -/
theorem addClasses_cons {name : Bytes} {names : List Bytes} {indexes : List UInt16}
    (h : e.addClasses (name :: names) = .ok (indexes, e')) :
    ∃ index rest e₁, e.addClass name = .ok (index, e₁) ∧ e₁.addClasses names = .ok (rest, e')
      ∧ indexes = index :: rest := by
  unfold addClasses at h
  obtain ⟨⟨index, e₁⟩, hname, h⟩ := Result.bind_eq_ok.1 h
  obtain ⟨⟨rest, e₂⟩, hnames, h⟩ := Result.bind_eq_ok.1 h
  obtain ⟨rfl, rfl⟩ := Prod.mk.inj (Result.pure_eq_ok.1 h)
  exact ⟨index, rest, e₁, hname, hnames, rfl⟩

/-! ## Adding -/

theorem add_spec (he : e.Sound) {k : Constant} (hk : Addable k) {index : UInt16}
    (h : e.add k = .ok (index, e')) :
    e.LeadsTo e' ∧ e'.extended.slot? index.toNat = some k := by
  obtain ⟨hindex, hpool, hadded, hsize⟩ := add_eq_ok h
  have hlt : e.size < maxSlots := by
    unfold add at h
    split at h
    · assumption
    · cases h
  have hext : e'.extended.slots = e.extended.slots.push k := by
    rw [extended, extended, hpool, hadded, Array.append_push]
  have hend : e.extended.slots.size = e.size := e.size_extended
  refine ⟨⟨⟨?_, ?_⟩, hpool, ?_⟩, ?_⟩
  · intro k' hk'
    rw [hadded, Array.toList_push, List.mem_append, List.mem_singleton] at hk'
    rcases hk' with hk' | rfl
    · exact he.addable k' hk'
    · exact hk
  · omega
  · intro i k' hslot
    obtain ⟨hi, _⟩ := Array.getElem?_eq_some_iff.1 hslot
    rw [ConstantPool.slot?, hext, Array.getElem?_push, if_neg (by omega)]
    exact hslot
  · rw [hindex, ConstantPool.slot?, hext, Array.getElem?_push, if_pos hend.symm]

theorem findAdded?_eq_some (he : e.Sound) {text : Bytes} {index : UInt16}
    (h : e.findAdded? text = some index) : e.extended.slot? index.toNat = some (.utf8 text) := by
  obtain ⟨i, hi, rfl⟩ := Option.map_eq_some_iff.1 h
  obtain ⟨hlt, htest, _⟩ := Array.findIdx?_eq_some_iff_getElem.1 hi
  have hsize := he.size_le
  unfold size maxSlots at hsize
  rw [toNat_ofNat_of_lt (by omega), slot?_extended_added, Array.getElem?_eq_getElem hlt,
    ConstantPool.isUtf8_iff.1 htest]

/-- The index of a text leads to this text. -/
theorem addUtf8_spec (he : e.Sound) {text : Bytes} {index : UInt16}
    (h : e.addUtf8 text = .ok (index, e')) :
    e.LeadsTo e' ∧ e'.extended.slot? index.toNat = some (.utf8 text) := by
  rcases addUtf8_cases h with ⟨hfind, rfl⟩ | ⟨_, hadded, rfl⟩ | ⟨_, _, hlen, hadd⟩
  · exact ⟨.refl he, pool_growsTo_extended _ _ _ (ConstantPool.findUtf8?_eq_some hfind)⟩
  · exact ⟨.refl he, findAdded?_eq_some he hadded⟩
  · exact add_spec he (.inl ⟨text, rfl, Nat.lt_succ_of_le hlen⟩) hadd

/-- The index of a class leads to a reference with its name. -/
theorem addClass_spec (he : e.Sound) {name : Bytes} {index : UInt16}
    (h : e.addClass name = .ok (index, e')) :
    e.LeadsTo e' ∧ e'.extended.Refers index name := by
  rcases addClass_cases h with ⟨hfind, rfl⟩ | ⟨_, nameIndex, e₁, hname, hadd⟩
  · exact ⟨.refl he, (ConstantPool.findClass?_eq_some hfind).grow (pool_growsTo_extended _)⟩
  · obtain ⟨h₁, htext⟩ := addUtf8_spec he hname
    obtain ⟨h₂, hslot⟩ := add_spec h₁.sound (.inr ⟨nameIndex, rfl⟩) hadd
    exact ⟨h₁.trans h₂, nameIndex, hslot, h₂.grows _ _ htext⟩

/-- Each index leads to a reference with the name that it was handed out for, also when more has
been added since. -/
theorem addClasses_spec (he : e.Sound) {names : List Bytes} {indexes : List UInt16}
    (h : e.addClasses names = .ok (indexes, e')) :
    e.LeadsTo e' ∧ List.Forall₂ e'.extended.Refers indexes names := by
  induction names generalizing e indexes with
  | nil =>
    obtain ⟨rfl, rfl⟩ := addClasses_nil h
    exact ⟨.refl he, .nil⟩
  | cons name names ih =>
    obtain ⟨index, rest, e₁, hname, hnames, rfl⟩ := addClasses_cons h
    obtain ⟨h₁, hrefers⟩ := addClass_spec he hname
    obtain ⟨h₂, hrest⟩ := ih h₁.sound hnames
    exact ⟨h₁.trans h₂, .cons (hrefers.grow h₂.grows) hrest⟩

/-! ## Written forms -/

theorem Addable.exists_form {k : Constant} (h : Addable k) :
    ∃ x : ConstantForm, x.constant = k ∧ x.slots = 1 ∧ x.encode = k.encode := by
  rcases h with ⟨text, rfl, hlen⟩ | ⟨index, rfl⟩
  · exact ⟨.utf8 text hlen, rfl, rfl, rfl⟩
  · exact ⟨.classRef index, rfl, rfl, rfl⟩

theorem exists_forms {ks : List Constant} (h : ∀ k ∈ ks, Addable k) :
    ∃ xs : List ConstantForm, xs.map ConstantForm.constant = ks
      ∧ ConstantForm.slotsOf xs = ks.length
      ∧ xs.flatMap ConstantForm.encode = ks.flatMap Constant.encode := by
  induction ks with
  | nil => exact ⟨[], rfl, rfl, rfl⟩
  | cons k ks ih =>
    obtain ⟨hk, hks⟩ := List.forall_mem_cons.1 h
    obtain ⟨x, rfl, hslots, hx⟩ := hk.exists_form
    obtain ⟨xs, rfl, hslotsOf, hxs⟩ := ih hks
    refine ⟨x :: xs, rfl, ?_, ?_⟩
    · rw [ConstantForm.slotsOf_cons, hslots, hslotsOf, List.length_cons]
      omega
    · rw [List.flatMap_cons, List.flatMap_cons, hx, hxs]

end PoolExtension

namespace PoolForm

theorem pushAll_append (pool : ConstantPool) (xs ys : List ConstantForm) :
    pushAll pool (xs ++ ys) = pushAll (pushAll pool xs) ys :=
  List.foldl_append

theorem size_pushAll (pool : ConstantPool) (xs : List ConstantForm) :
    (pushAll pool xs).size = pool.size + ConstantForm.slotsOf xs := by
  induction xs generalizing pool with
  | nil => rfl
  | cons x xs ih =>
    change (pushAll (pool.push x.constant) xs).size = _
    rw [ih, ConstantPool.size_push, ← x.slots_eq, ConstantForm.slotsOf_cons]
    omega

theorem size_pool (p : PoolForm) : p.pool.size = 1 + ConstantForm.slotsOf p.constants :=
  size_pushAll _ _

/-- A wide constant in the last slot makes the pool one slot longer than 16 bits can say. -/
theorem size_le (p : PoolForm) : p.pool.size ≤ 65536 := by
  have hcount : p.count.toNat < 65536 := p.count.toNat_lt
  have hslots := ConstantForm.slotsOf_le_of_fills p.fills
  rw [size_pool]
  omega

/-- Constants of one slot are pushed one behind the other. -/
theorem pushAll_of_not_wide {pool : ConstantPool} {xs : List ConstantForm}
    (h : ∀ x ∈ xs, x.constant ≠ .wide) :
    pushAll pool xs = ⟨pool.slots ++ (xs.map ConstantForm.constant).toArray⟩ := by
  induction xs generalizing pool with
  | nil => simp [pushAll]
  | cons x xs ih =>
    obtain ⟨hx, hxs⟩ := List.forall_mem_cons.1 h
    change pushAll (pool.push x.constant) xs = _
    rw [ih hxs, ConstantPool.push, if_neg hx]
    simp

/-- An extended pool is written with the added constants behind those of the pool, and with the
number of all its slots in front. -/
theorem exists_extended (p : PoolForm) {e : PoolExtension} (he : e.Sound)
    (hpool : e.pool = p.pool) :
    ∃ q : PoolForm, q.pool = e.extended ∧ p.constants <+: q.constants
      ∧ q.encode = Bytes.ofUInt16 (UInt16.ofNat e.size)
        ++ p.constants.flatMap ConstantForm.encode ++ e.addedBytes := by
  obtain ⟨xs, hconstants, hslots, hbytes⟩ := PoolExtension.exists_forms he.addable
  have hsize : e.size = 1 + ConstantForm.slotsOf (p.constants ++ xs) := by
    rw [PoolExtension.size, hpool, size_pool, ConstantForm.slotsOf_append, hslots,
      Array.length_toList, Nat.add_assoc]
  have hcount : (UInt16.ofNat e.size).toNat - 1 = ConstantForm.slotsOf (p.constants ++ xs) := by
    have hle := he.size_le
    unfold PoolExtension.maxSlots at hle
    rw [toNat_ofNat_of_lt (by omega)]
    omega
  refine ⟨⟨UInt16.ofNat e.size, p.constants ++ xs, ?_⟩, ?_, List.prefix_append _ _, ?_⟩
  · rw [hcount]
    exact ConstantForm.fills_slotsOf _
  · have hnarrow : ∀ x ∈ xs, x.constant ≠ .wide := by
      intro x hx hwide
      have hmem : Constant.wide ∈ e.added.toList := by
        rw [← hconstants, ← hwide]
        exact List.mem_map_of_mem hx
      rcases he.addable _ hmem with ⟨_, h, _⟩ | ⟨_, h⟩ <;> cases h
    change pushAll .empty (p.constants ++ xs) = _
    rw [pushAll_append, pushAll_of_not_wide hnarrow, hconstants, PoolExtension.extended, hpool]
    simp [pool]
  · rw [encode, List.flatMap_append, hbytes, PoolExtension.addedBytes, List.append_assoc]

end PoolForm

end LinkSet
