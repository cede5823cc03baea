import LinkSet.Proofs.SealingEnds

/-!
# First slots

What a listing refers to is always the first slot that serves. A slot that is found first stays so
while the pool grows behind it, unless a test comes to say something else of what was there before
(`ConstantPool.GrowsTo.find?_eq`). Only references to classes can come to serve later: one that leads
nowhere may give a slot at which a name is added. In a pool in which all references give slots that
there are (`ConstantPool.Closed`) this does not happen, and what has been looked up or added for a
listing is what is found for it afterwards (`PoolExtension.findsListing_of_addListing`).
-/

namespace LinkSet

/-! ## Pools that grow -/

namespace ConstantPool

variable {pool small large : ConstantPool} {test test' : Constant → Bool} {text : Bytes}
  {index : UInt16}

/-- All references to classes give slots of the pool for their names. -/
def Closed (pool : ConstantPool) : Prop :=
  ∀ i nameIndex, pool.slot? i = some (.classRef nameIndex) → nameIndex.toNat < pool.size

/-- The slot that is found passes the test, and no slot in front of it does. -/
theorem find?_eq_some_iff :
    pool.find? test = some index
      ↔ (∃ k, pool.slot? index.toNat = some k ∧ test k = true)
        ∧ ∀ i k, i < index.toNat → pool.slot? i = some k → test k = false := by
  have hindex : index.toNat < 0x10000 := index.toNat_lt
  constructor
  · intro h
    refine ⟨find?_eq_some h, fun i k hi hslot => ?_⟩
    unfold find? at h
    cases hfirst : pool.slots.findIdx? test with
    | none => simp [hfirst] at h
    | some j =>
      obtain ⟨_, _, hbefore⟩ := Array.findIdx?_eq_some_iff_getElem.1 hfirst
      rw [hfirst] at h
      obtain ⟨hj, h⟩ := Option.ite_none_right_eq_some.1 h
      rw [← Option.some.inj h, toNat_ofNat_of_lt hj] at hi
      obtain ⟨_, rfl⟩ := Array.getElem?_eq_some_iff.1 hslot
      exact Bool.eq_false_iff.2 (hbefore i hi)
  · rintro ⟨⟨k, hslot, htest⟩, hbefore⟩
    obtain ⟨hlt, rfl⟩ := Array.getElem?_eq_some_iff.1 hslot
    have hfirst : pool.slots.findIdx? test = some index.toNat := by
      refine Array.findIdx?_eq_some_iff_getElem.2 ⟨hlt, htest, fun i hi => ?_⟩
      exact Bool.eq_false_iff.1 (hbefore i _ hi (Array.getElem?_eq_getElem _))
    rw [find?, hfirst]
    simp only [if_pos hindex, UInt16.ofNat_toNat]

theorem find?_eq_none_iff (hsize : pool.size ≤ 0x10000) :
    pool.find? test = none ↔ ∀ i k, pool.slot? i = some k → test k = false := by
  rw [← Option.isNone_iff_eq_none, ← Option.not_isSome, isSome_find?_eq hsize, Bool.not_eq_true',
    Array.any_eq_false]
  constructor
  · intro h i k hslot
    obtain ⟨hi, rfl⟩ := Array.getElem?_eq_some_iff.1 hslot
    exact Bool.eq_false_iff.2 (h i hi)
  · intro h i hi
    exact Bool.eq_false_iff.1 (h i _ (Array.getElem?_eq_getElem hi))

/-- What is found first stays so while the pool grows, if the test says the same of what was there. -/
theorem GrowsTo.find?_eq (h : small.GrowsTo large)
    (htest : ∀ i k, small.slot? i = some k → test' k = test k)
    (hfind : small.find? test = some index) : large.find? test' = some index := by
  obtain ⟨⟨k, hslot, hk⟩, hbefore⟩ := find?_eq_some_iff.1 hfind
  refine find?_eq_some_iff.2 ⟨⟨k, h _ _ hslot, (htest _ _ hslot).trans hk⟩, ?_⟩
  intro i k' hi hslot'
  obtain ⟨hlt, _⟩ := Array.getElem?_eq_some_iff.1 hslot
  have hold : small.slot? i = some small.slots[i] := Array.getElem?_eq_getElem (by omega)
  obtain rfl := Option.some.inj ((h _ _ hold).symm.trans hslot')
  exact (htest _ _ hold).trans (hbefore _ _ hi hold)

/-- In a closed pool, to grow makes no reference lead anywhere else. -/
theorem Closed.isClassNamed_eq (hc : small.Closed) (h : small.GrowsTo large) {i : Nat} {k : Constant}
    (hslot : small.slot? i = some k) : large.isClassNamed text k = small.isClassNamed text k := by
  cases k with
  | classRef nameIndex =>
    have hlt : nameIndex.toNat < small.slots.size := hc i nameIndex hslot
    have hold : small.slot? nameIndex.toNat = some small.slots[nameIndex.toNat] :=
      Array.getElem?_eq_getElem hlt
    rw [isClassNamed, isClassNamed, hold, h _ _ hold]
  | _ => rfl

theorem Closed.findClass?_eq (hc : small.Closed) (h : small.GrowsTo large)
    (hfind : small.findClass? text = some index) : large.findClass? text = some index :=
  h.find?_eq (fun _ _ hslot => hc.isClassNamed_eq h hslot) hfind

end ConstantPool

/-! ## Extended pools -/

namespace PoolExtension

variable {e e' : PoolExtension} {k : Constant} {index : UInt16} {text : Bytes}

theorem extended_ofPool (pool : ConstantPool) : (ofPool pool).extended = pool := by
  rw [extended, ofPool, Array.append_empty]

theorem Sound.size_extended_le (he : e.Sound) : e.extended.size ≤ 0x10000 := by
  have hsize := he.size_le
  rw [size_extended]
  unfold maxSlots at hsize
  omega

theorem Sound.size_pool_le (he : e.Sound) : e.pool.size ≤ 0x10000 := by
  have hsize := he.size_le
  unfold size maxSlots at hsize
  omega

/-- The new constant has the slot behind the others, which keep theirs. -/
theorem slot?_of_add (h : e.add k = .ok (index, e')) (i : Nat) :
    e'.extended.slot? i = if i = e.size then some k else e.extended.slot? i := by
  obtain ⟨_, hpool, hadded, _⟩ := add_eq_ok h
  have hext : e'.extended.slots = e.extended.slots.push k := by
    rw [extended, extended, hpool, hadded, Array.append_push]
  have hend : e.extended.slots.size = e.size := e.size_extended
  rw [ConstantPool.slot?, hext, Array.getElem?_push, hend]
  rfl

theorem find?_of_add {test : Constant → Bool} (h : e.add k = .ok (index, e'))
    (hnone : ∀ i k', e.extended.slot? i = some k' → test k' = false) (hk : test k = true) :
    e'.extended.find? test = some index := by
  obtain ⟨hindex, _⟩ := add_eq_ok h
  refine ConstantPool.find?_eq_some_iff.2 ⟨⟨k, ?_, hk⟩, fun i k' hi hslot => ?_⟩
  · rw [slot?_of_add h, if_pos hindex]
  · rw [slot?_of_add h, if_neg (by omega)] at hslot
    exact hnone i k' hslot

/-- What is in the extended pool is in the pool or has been added. -/
theorem slot?_extended_cases {i : Nat} (h : e.extended.slot? i = some k) :
    e.pool.slot? i = some k ∨ ∃ j, i = e.pool.size + j ∧ e.added[j]? = some k := by
  by_cases hi : i < e.pool.size
  · have hold : e.pool.slot? i = some e.pool.slots[i] := Array.getElem?_eq_getElem hi
    rw [← h, e.pool_growsTo_extended _ _ hold]
    exact .inl hold
  · obtain ⟨j, rfl⟩ := Nat.exists_eq_add_of_le (Nat.le_of_not_lt hi)
    rw [slot?_extended_added] at h
    exact .inr ⟨j, rfl, h⟩

/-- A text that has been added, and is not in the pool, is first where it was added first. -/
theorem findUtf8?_of_findAdded? (he : e.Sound) (hfind : e.pool.findUtf8? text = none)
    (h : e.findAdded? text = some index) : e.extended.findUtf8? text = some index := by
  have hslot := findAdded?_eq_some he h
  refine ConstantPool.find?_eq_some_iff.2
    ⟨⟨_, hslot, ConstantPool.isUtf8_iff.2 rfl⟩, fun i k hi hk => ?_⟩
  obtain ⟨j, hj, rfl⟩ := Option.map_eq_some_iff.1 h
  obtain ⟨_, _, hbefore⟩ := Array.findIdx?_eq_some_iff_getElem.1 hj
  rcases slot?_extended_cases hk with hold | ⟨m, rfl, hnew⟩
  · exact (ConstantPool.find?_eq_none_iff he.size_pool_le).1 hfind i k hold
  · obtain ⟨_, rfl⟩ := Array.getElem?_eq_some_iff.1 hnew
    have hle : (UInt16.ofNat (e.pool.size + j)).toNat ≤ e.pool.size + j := by
      rw [UInt16.toNat_ofNat']
      exact Nat.mod_le _ _
    exact Bool.eq_false_iff.2 (hbefore m (by omega))

/-- The index of a text is the first that leads to it, whether the text was there or is added. -/
theorem findUtf8?_of_addUtf8 (he : e.Sound) (h : e.addUtf8 text = .ok (index, e')) :
    e'.extended.findUtf8? text = some index := by
  rcases addUtf8_cases h with ⟨hfind, rfl⟩ | ⟨hfind, hadded, rfl⟩ | ⟨hfind, hadded, _, hadd⟩
  · exact (pool_growsTo_extended _).find?_eq (fun _ _ _ => rfl) hfind
  · exact findUtf8?_of_findAdded? he hfind hadded
  · have hold := (ConstantPool.find?_eq_none_iff he.size_pool_le).1 hfind
    have hnew := isNone_findAdded?.1 (Option.isNone_iff_eq_none.2 hadded)
    refine find?_of_add hadd (fun i k hslot => ?_) (ConstantPool.isUtf8_iff.2 rfl)
    rcases slot?_extended_cases hslot with hslot | ⟨j, _, hslot⟩
    · exact hold i k hslot
    · exact hnew k (Array.mem_of_getElem? hslot)

/-! ## Closed pools -/

/-- A pool stays closed if what is added gives a slot that there is. -/
theorem closed_of_add (hc : e.extended.Closed) (h : e.add k = .ok (index, e'))
    (hk : ∀ nameIndex, k = .classRef nameIndex → nameIndex.toNat < e.size) :
    e'.extended.Closed := by
  obtain ⟨_, _, _, hsize⟩ := add_eq_ok h
  intro i nameIndex hslot
  rw [size_extended, hsize]
  rw [slot?_of_add h] at hslot
  by_cases hi : i = e.size
  · rw [if_pos hi] at hslot
    exact Nat.lt_succ_of_lt (hk nameIndex (Option.some.inj hslot))
  · rw [if_neg hi] at hslot
    exact Nat.lt_succ_of_lt (e.size_extended ▸ hc i nameIndex hslot)

/-- A class is found where it was, if what is added is not a reference to it. -/
theorem findClass?_of_add (he' : e.LeadsTo e') (hc : e.extended.Closed)
    (h : e.add k = .ok (index, e')) (hk : e'.extended.isClassNamed text k = false) :
    e'.extended.findClass? text = e.extended.findClass? text := by
  have hsize := he'.sound.size_extended_le
  obtain ⟨_, _, _, hgrown⟩ := add_eq_ok h
  cases hfind : e.extended.findClass? text with
  | some i => exact hc.findClass?_eq he'.grows hfind
  | none =>
    have hsmall : e.extended.size ≤ 0x10000 := by
      rw [size_extended] at hsize ⊢
      omega
    have hnone := (ConstantPool.find?_eq_none_iff hsmall).1 hfind
    refine (ConstantPool.find?_eq_none_iff hsize).2 fun i k' hslot => ?_
    rw [slot?_of_add h] at hslot
    by_cases hi : i = e.size
    · rw [if_pos hi] at hslot
      rw [← Option.some.inj hslot, hk]
    · rw [if_neg hi] at hslot
      rw [hc.isClassNamed_eq he'.grows hslot, hnone i k' hslot]

/-- To add a text makes no difference to references. -/
theorem closed_of_addUtf8 (he : e.Sound) (hc : e.extended.Closed)
    (h : e.addUtf8 text = .ok (index, e')) :
    e'.extended.Closed
      ∧ ∀ name, e'.extended.findClass? name = e.extended.findClass? name := by
  have hleads := (addUtf8_spec he h).1
  rcases addUtf8_cases h with ⟨_, rfl⟩ | ⟨_, _, rfl⟩ | ⟨_, _, _, hadd⟩
  · exact ⟨hc, fun _ => rfl⟩
  · exact ⟨hc, fun _ => rfl⟩
  · exact ⟨closed_of_add hc hadd nofun, fun _ => findClass?_of_add hleads hc hadd rfl⟩

/-- A class is found at the index that is handed out for it, and all other classes are found where
they were. A class that was asked for before is not looked for again, so it has to be one that has
not been added. -/
theorem findClass?_of_addClass (he : e.Sound) (hc : e.extended.Closed)
    (hname : e.extended.findClass? text = e.pool.findClass? text)
    (h : e.addClass text = .ok (index, e')) :
    e'.extended.Closed ∧ e'.extended.findClass? text = some index
      ∧ ∀ other, other ≠ text → e'.extended.findClass? other = e.extended.findClass? other := by
  rcases addClass_cases h with ⟨hfind, rfl⟩ | ⟨hfind, nameIndex, e₁, htext, hadd⟩
  · exact ⟨hc, hname.trans hfind, fun _ _ => rfl⟩
  · obtain ⟨h₁, hslot⟩ := addUtf8_spec he htext
    obtain ⟨hc₁, hsame⟩ := closed_of_addUtf8 he hc htext
    obtain ⟨h₂, _⟩ := add_spec h₁.sound (.inr ⟨nameIndex, rfl⟩) hadd
    have hslot' := h₂.grows _ _ hslot
    refine ⟨closed_of_add hc₁ hadd ?_, find?_of_add hadd ?_ ?_, ?_⟩
    · rintro _ ⟨⟩
      obtain ⟨hlt, _⟩ := Array.getElem?_eq_some_iff.1 hslot
      exact e₁.size_extended ▸ hlt
    · intro i k hk
      have hnone : e₁.extended.findClass? text = none := (hsame text).trans (hname.trans hfind)
      rw [hc₁.isClassNamed_eq h₂.grows hk]
      exact (ConstantPool.find?_eq_none_iff h₁.sound.size_extended_le).1 hnone i k hk
    · exact ConstantPool.isClassNamed_iff.2 ⟨nameIndex, rfl, hslot'⟩
    · intro other hne
      have hother : e'.extended.isClassNamed other (.classRef nameIndex) = false := by
        rw [Bool.eq_false_iff, Ne, ConstantPool.isClassNamed_iff]
        rintro ⟨_, ⟨⟩, hother⟩
        exact hne (Constant.utf8.inj (Option.some.inj (hother.symm.trans hslot')))
      rw [findClass?_of_add h₂ hc₁ hadd hother, hsame]

/-- Different classes are found at the indexes that are handed out for them. -/
theorem findClass?_of_addClasses {texts : List Bytes} {indexes : List UInt16} (he : e.Sound)
    (hc : e.extended.Closed)
    (htexts : ∀ text ∈ texts, e.extended.findClass? text = e.pool.findClass? text)
    (hnodup : texts.Nodup) (h : e.addClasses texts = .ok (indexes, e')) :
    List.Forall₂ (fun text index => e'.extended.findClass? text = some index) texts indexes := by
  induction texts generalizing e indexes with
  | nil =>
    obtain ⟨rfl, _⟩ := addClasses_nil h
    exact .nil
  | cons text texts ih =>
    obtain ⟨hnew, hnodup⟩ := List.nodup_cons.1 hnodup
    obtain ⟨htext, htexts⟩ := List.forall_mem_cons.1 htexts
    obtain ⟨index, rest, e₁, hclass, hclasses, rfl⟩ := addClasses_cons h
    obtain ⟨h₁, _⟩ := addClass_spec he hclass
    obtain ⟨h₂, _⟩ := addClasses_spec h₁.sound hclasses
    obtain ⟨hc₁, hfound, hothers⟩ := findClass?_of_addClass he hc htext hclass
    refine .cons (hc₁.findClass?_eq h₂.grows hfound) (ih h₁.sound hc₁ ?_ hnodup hclasses)
    intro other hother
    rw [hothers other (fun heq => hnew (heq ▸ hother)), h₁.pool_eq]
    exact htexts other hother

/-- In a closed pool, what has been looked up or added for a listing is what is found afterwards. -/
theorem findsListing_of_addListing {pool : ConstantPool} {names : List String} {nameIndex : UInt16}
    {indexes : List UInt16} (hsize : pool.size ≤ maxSlots) (hc : pool.Closed)
    (hnodup : names.Nodup) (h : (ofPool pool).addListing names = .ok ((nameIndex, indexes), e)) :
    e.extended.FindsListing names nameIndex indexes := by
  have he := sound_ofPool hsize
  have hstart := extended_ofPool pool
  obtain ⟨e₁, hname, hclasses⟩ := addListing_steps h
  obtain ⟨h₁, _⟩ := addUtf8_spec he hname
  obtain ⟨h₂, _⟩ := addClasses_spec h₁.sound hclasses
  obtain ⟨hc₁, hsame⟩ := closed_of_addUtf8 he (hstart.symm ▸ hc) hname
  refine ⟨h₂.grows.find?_eq (fun _ _ _ => rfl) (findUtf8?_of_addUtf8 he hname), ?_⟩
  refine findClass?_of_addClasses h₁.sound hc₁ (fun text _ => ?_)
    (hnodup.map ModifiedUtf8.encode_injective) hclasses
  rw [hsame, hstart, h₁.pool_eq, ofPool]

/-- What has been looked up or added for a listing is found afterwards, and in a pool that was closed
it is found at the same indexes. -/
theorem exists_findsListing_of_addListing (p : PoolForm) {names : List String} {nameIndex : UInt16}
    {indexes : List UInt16} (hsize : p.pool.size ≤ maxSlots) (hnodup : names.Nodup)
    (h : (ofPool p.pool).addListing names = .ok ((nameIndex, indexes), e)) :
    ∃ nameIndex' indexes', e.extended.FindsListing names nameIndex' indexes'
      ∧ (p.pool.Closed → nameIndex' = nameIndex ∧ indexes' = indexes) := by
  by_cases hc : p.pool.Closed
  · have hfinds := findsListing_of_addListing hsize hc hnodup h
    exact ⟨nameIndex, indexes, hfinds, fun _ => ⟨rfl, rfl⟩⟩
  · obtain ⟨_, _, _, hslot, hrefers⟩ := addListing_eq_ok p hnodup h
    have hclasses : ∀ text ∈ names.map ModifiedUtf8.encode,
        e.extended.lacksClass text = false := by
      intro text htext
      obtain ⟨index, _, hindex⟩ := Result.forall₂_mem hrefers.flip htext
      exact ConstantPool.lacksClass_eq_false_iff.2 ⟨index, hindex⟩
    obtain ⟨nameIndex', indexes', hfinds⟩ := ConstantPool.exists_findsListing
      (ConstantPool.lacksText_eq_false_iff.2 ⟨nameIndex, hslot⟩) hclasses
    exact ⟨nameIndex', indexes', hfinds, fun hc' => absurd hc' hc⟩

end PoolExtension

end LinkSet
