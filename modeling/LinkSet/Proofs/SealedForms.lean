import LinkSet.Proofs.SealingEnds

/-!
# Sealing, said of forms

Sealing cuts bytes at the places that a class file knows. Said of forms, it puts constants behind
those of the pool and one listing among the attributes, and does nothing else
(`ClassForm.sealTo_encode`). The listing has its place from the attributes alone
(`AttributeForm.ListingPut.unique`), and its length from the number of names
(`AttributeForm.Lists.length_encode`), whatever the indexes are.
-/

namespace LinkSet

/-- The last element with a property splits a list in one way only. -/
theorem last_split_unique {α : Type} {P : α → Prop} {before before' after after' : List α}
    {a a' : α} (h : before ++ a :: after = before' ++ a' :: after') (ha : P a) (ha' : P a')
    (hafter : ∀ x ∈ after, ¬ P x) (hafter' : ∀ x ∈ after', ¬ P x) :
    before = before' ∧ a = a' ∧ after = after' := by
  rcases List.append_eq_append_iff.1 h with ⟨mid, rfl, hmid⟩ | ⟨mid, rfl, hmid⟩
  · cases mid with
    | nil =>
      obtain ⟨rfl, rfl⟩ := List.cons.inj hmid
      exact ⟨(List.append_nil _).symm, rfl, rfl⟩
    | cons x mid =>
      obtain ⟨rfl, rfl⟩ := List.cons.inj hmid
      exact absurd ha' (hafter a' (List.mem_append_right _ List.mem_cons_self))
  · cases mid with
    | nil =>
      obtain ⟨rfl, rfl⟩ := List.cons.inj hmid
      exact ⟨List.append_nil _, rfl, rfl⟩
    | cons x mid =>
      obtain ⟨rfl, rfl⟩ := List.cons.inj hmid
      exact absurd ha (hafter' a (List.mem_append_right _ List.mem_cons_self))

/-! ## Places of listings -/

namespace AttributeForm

variable {pool pool' : ConstantPool} {listing : AttributeForm} {old new new' : List AttributeForm}

/-- The bytes of a listing are as many as its names require. -/
theorem Lists.length_encode {a : AttributeForm} {names : List String} (h : a.Lists pool names) :
    a.encode.length = 8 + 2 * names.length := by
  obtain ⟨indexes, hbody, hnames⟩ := h
  rw [encode, List.length_append, List.length_append, Bytes.length_ofUInt16, Bytes.length_ofUInt32,
    hbody, Table.length_encode_ofUInt16, hnames.length_eq]
  omega

/-- A listing takes the place of the last one that is there. -/
theorem ListingPut.eq_of_last {before after : List AttributeForm} {a : AttributeForm}
    (hput : ListingPut pool listing (before ++ a :: after) new) (ha : a.IsListing pool)
    (hafter : ∀ x ∈ after, ¬ x.IsListing pool) : new = before ++ listing :: after := by
  rcases hput with ⟨before', a', after', hsplit, ha', hafter', rfl⟩ | ⟨hnone, _⟩
  · obtain ⟨rfl, rfl, rfl⟩ := last_split_unique hsplit ha ha' hafter hafter'
    rfl
  · exact absurd ha (hnone a (List.mem_append_right _ List.mem_cons_self))

/-- There is one place for a listing. -/
theorem ListingPut.unique (h : ListingPut pool listing old new)
    (h' : ListingPut pool listing old new') : new' = new := by
  rcases h with ⟨before, a, after, rfl, ha, hafter, rfl⟩ | ⟨hnone, rfl⟩
  · exact h'.eq_of_last ha hafter
  · rcases h' with ⟨before, a, after, rfl, ha, _⟩ | ⟨_, rfl⟩
    · exact absurd ha (hnone a (List.mem_append_right _ List.mem_cons_self))
    · rfl

/-- Where a listing has been put, it has its place again, also in a pool that has grown. -/
theorem ListingPut.again (hput : ListingPut pool listing old new) (h : pool.GrowsTo pool')
    (hold : ∀ a ∈ old, a.Resolves pool) (hl : listing.IsListing pool') :
    ListingPut pool' listing new new := by
  rcases hput with ⟨before, a, after, rfl, _, hafter, rfl⟩ | ⟨_, rfl⟩
  · refine .inl ⟨before, listing, after, rfl, hl, fun x hx hlx => hafter x hx ?_, rfl⟩
    have hres := hold x (List.mem_append_right _ (List.mem_cons_of_mem _ hx))
    exact (isListing_grow h hres).1 hlx
  · exact .inl ⟨old, listing, [], rfl, hl, fun x hx => (nomatch hx), rfl⟩

/-- What lists the same names stands in the same place. -/
theorem ListingPut.lastListing_of_some (hput : ListingPut pool listing old new) {offset : Nat}
    {p : PermittedSubclasses} (hold : LastListing pool offset old (some p))
    (hl : listing.IsListing pool) (hnames : listing.Lists pool p.names) :
    LastListing pool offset new (some p) := by
  obtain ⟨before, a, after, rfl, ha, hlists, hafter, hstart, hstop⟩ := hold
  obtain rfl := hput.eq_of_last ha hafter
  refine ⟨before, listing, after, rfl, hl, hnames, hafter, hstart, ?_⟩
  rw [hstop, hlists.length_encode, hnames.length_encode]

/-- What lists the same names takes as many bytes. -/
theorem ListingPut.length_flatMap (hput : ListingPut pool listing old new) {offset : Nat}
    {p : PermittedSubclasses} (hold : LastListing pool offset old (some p))
    (hnames : listing.Lists pool p.names) :
    (new.flatMap encode).length = (old.flatMap encode).length := by
  obtain ⟨before, a, after, rfl, ha, hlists, hafter, _⟩ := hold
  obtain rfl := hput.eq_of_last ha hafter
  simp only [List.flatMap_append, List.flatMap_cons, List.length_append, hlists.length_encode,
    hnames.length_encode]

end AttributeForm

/-! ## Forms that come of sealing -/

namespace PoolExtension

variable {e : PoolExtension} {names : List String}

theorem sound_of_addListing {pool : ConstantPool} (hsize : pool.size ≤ maxSlots)
    {nameIndex : UInt16} {indexes : List UInt16}
    (h : (ofPool pool).addListing names = .ok ((nameIndex, indexes), e)) : e.Sound := by
  obtain ⟨e₁, hname, hclasses⟩ := addListing_steps h
  obtain ⟨h₁, _⟩ := addUtf8_spec (sound_ofPool hsize) hname
  exact (addClasses_spec h₁.sound hclasses).1.sound

end PoolExtension

/-- What has been looked up or added for a listing can be written: the indexes are few enough for a
table, and the pool with its new constants has a form. -/
theorem PoolForm.exists_listed (p : PoolForm) (hsize : p.pool.size ≤ PoolExtension.maxSlots)
    {names : List String} (hnodup : names.Nodup) {nameIndex : UInt16} {indexes : List UInt16}
    {e : PoolExtension}
    (hadd : (PoolExtension.ofPool p.pool).addListing names = .ok ((nameIndex, indexes), e)) :
    ∃ (table : Table UInt16) (q : PoolForm), table.1 = indexes ∧ q.pool = e.extended
      ∧ p.constants <+: q.constants
      ∧ q.encode = Bytes.ofUInt16 (UInt16.ofNat e.size)
        ++ p.constants.flatMap ConstantForm.encode ++ e.addedBytes := by
  have hlength := PoolExtension.length_le_of_addListing p hnodup hadd
  obtain ⟨hpool, _⟩ := PoolExtension.addListing_eq_ok p hnodup hadd
  obtain ⟨q, hq⟩ := p.exists_extended (PoolExtension.sound_of_addListing hsize hadd) hpool
  exact ⟨⟨indexes, Nat.lt_succ_of_le hlength⟩, q, rfl, hq⟩

namespace ClassForm

open AttributeForm (ListingPut)

variable {f : ClassForm} {cf : ClassFile} {names : List String} {nameIndex : UInt16}
  {indexes : Table UInt16} {e : PoolExtension} {q : PoolForm}

/-- Sealing writes the form with the extended pool and a listing among its attributes, if there is a
place for the listing. -/
theorem sealTo_encode (hd : f.Describes cf)
    (hadd : (PoolExtension.ofPool f.pool.pool).addListing names = .ok ((nameIndex, indexes.1), e))
    (hq : q.encode = Bytes.ofUInt16 (UInt16.ofNat e.size)
      ++ f.pool.constants.flatMap ConstantForm.encode ++ e.addedBytes) :
    (∃ t : Table AttributeForm,
        ListingPut f.pool.pool (.ofIndexes nameIndex indexes) f.attributes.1 t.1
        ∧ (cf.permitted ≠ none ∨ f.attributes.1.length < 65535)
        ∧ cf.sealTo f.encode names = .ok { f with pool := q, attributes := t }.encode)
      ∨ cf.permitted = none ∧ f.attributes.1.length = 65535
        ∧ cf.sealTo f.encode names = .error .attributeOverflow := by
  rw [sealTo_eq_bind, hd.pool, hadd]
  change (∃ t : Table AttributeForm, _ ∧ _ ∧ (if indexes.1.length ≤ 65535 then _ else _) = _)
    ∨ _ ∧ _ ∧ (if indexes.1.length ≤ 65535 then _ else _) = _
  rw [if_pos (Nat.le_of_lt_succ indexes.2), ← AttributeForm.encode_ofIndexes]
  rcases withListing_ends hd (.ofIndexes nameIndex indexes) with
    ⟨t, hput, hplace, htail⟩ | ⟨hmissing, hfull, htail⟩
  · refine .inl ⟨t, hput, hplace, ?_⟩
    have hform : { f with pool := q, attributes := t }.encode
        = f.head ++ q.encode ++ f.body ++ AttributeForm.encodeTable t := rfl
    rw [htail, f.take_head, hd.slice_constants, hform, hq]
    simp only [List.append_assoc]
    rfl
  · refine .inr ⟨hmissing, hfull, ?_⟩
    rw [htail]
    rfl

/-- The form that is written has been sealed. -/
theorem sealedAs_of_addListing (hnodup : names.Nodup)
    (hadd : (PoolExtension.ofPool f.pool.pool).addListing names = .ok ((nameIndex, indexes.1), e))
    (hq : q.pool = e.extended) (hconstants : f.pool.constants <+: q.constants)
    {t : Table AttributeForm}
    (hput : ListingPut f.pool.pool (.ofIndexes nameIndex indexes) f.attributes.1 t.1) :
    f.SealedAs { f with pool := q, attributes := t } (.ofIndexes nameIndex indexes) names := by
  obtain ⟨hpool, _, _, hslot, hrefers⟩ := PoolExtension.addListing_eq_ok f.pool hnodup hadd
  refine ⟨rfl, ?_, hconstants, ?_, ⟨indexes, rfl, ?_⟩, hput⟩
  · rw [hq, ← hpool]
    exact e.pool_growsTo_extended
  · rw [AttributeForm.IsListing, hq]
    exact hslot
  · rw [hq]
    exact names_of_refers hrefers

end ClassForm

end LinkSet
