import LinkSet.Proofs.Changed
import LinkSet.Proofs.Revisions
import LinkSet.Proofs.Shortage

/-!
# When sealing succeeds

To seal a class takes constants that its pool may not have: the name of the attribute, and for each
class that is listed its name and a reference to it. `ConstantPool.needed` counts those that are
missing. Sealing fails if a name is too long, if there is no room for the constants, or if there is
no place for one more attribute, and in no other case (`ClassForm.sealTo_ends`). In particular a
listing never has too many classes, since different classes have different indexes, which are not 0
and have 16 bits (`PoolExtension.length_le_of_addListing`).
-/

namespace LinkSet

/-! ## What is missing -/

namespace ConstantPool

variable {pool : ConstantPool} {text : Bytes}

/-- Some slot holds the text. -/
def hasText (pool : ConstantPool) (text : Bytes) : Bool := pool.slots.any (isUtf8 text)

/-- Some slot refers to a class with this name. -/
def hasClass (pool : ConstantPool) (name : Bytes) : Bool := pool.slots.any (pool.isClassNamed name)

/-- How many constants are missing for a listing of classes: the name of the attribute, and for each
class that the pool does not have, the reference to it and its name. A name that is needed for the
attribute already does not count again. -/
def needed (pool : ConstantPool) (names : List String) : Nat :=
  (if pool.hasText (ModifiedUtf8.encode PermittedSubclasses.attributeName) then 0 else 1)
    + names.countP (fun n => !pool.hasClass (ModifiedUtf8.encode n))
    + names.countP fun n => !pool.hasClass (ModifiedUtf8.encode n)
      && !pool.hasText (ModifiedUtf8.encode n) && n != PermittedSubclasses.attributeName

/-- What is in a slot is found if its index has no more than 16 bits. -/
theorem isSome_find?_eq (hsize : pool.size ≤ 0x10000) (test : Constant → Bool) :
    (pool.find? test).isSome = pool.slots.any test := by
  rw [Bool.eq_iff_iff, Array.any_eq_true]
  constructor
  · intro h
    obtain ⟨index, hindex⟩ := Option.isSome_iff_exists.1 h
    obtain ⟨k, hslot, htest⟩ := find?_eq_some hindex
    obtain ⟨hi, rfl⟩ := Array.getElem?_eq_some_iff.1 hslot
    exact ⟨_, hi, htest⟩
  · rintro ⟨i, hi, htest⟩
    have hlt : i < 0x10000 := Nat.lt_of_lt_of_le hi hsize
    have hslot : pool.slot? (UInt16.ofNat i).toNat = some pool.slots[i] := by
      rw [toNat_ofNat_of_lt hlt, slot?, Array.getElem?_eq_getElem hi]
    exact isSome_find? hslot htest

theorem lacksText_eq (hsize : pool.size ≤ 0x10000) : pool.lacksText text = !pool.hasText text := by
  rw [lacksText, findUtf8?, ← Option.not_isSome, isSome_find?_eq hsize, hasText]

theorem lacksClass_eq (hsize : pool.size ≤ 0x10000) :
    pool.lacksClass text = !pool.hasClass text := by
  rw [lacksClass, findClass?, ← Option.not_isSome, isSome_find?_eq hsize, hasClass]

theorem lacksText_of_lacksClass (h : pool.lacksClass text = false) :
    pool.lacksText text = false := by
  obtain ⟨_, nameIndex, _, htext⟩ := lacksClass_eq_false_iff.1 h
  exact lacksText_eq_false_iff.2 ⟨nameIndex, htext⟩

/-! ## First slots -/

/-- The first slots that serve for a listing of the names. -/
structure FindsListing (pool : ConstantPool) (names : List String) (nameIndex : UInt16)
    (indexes : List UInt16) : Prop where
  name : pool.findUtf8? (ModifiedUtf8.encode PermittedSubclasses.attributeName) = some nameIndex
  classes : List.Forall₂ (fun text index => pool.findClass? text = some index)
    (names.map ModifiedUtf8.encode) indexes

theorem FindsListing.slot?_name {names : List String} {nameIndex : UInt16} {indexes : List UInt16}
    (h : pool.FindsListing names nameIndex indexes) : pool.slot? nameIndex.toNat
      = some (.utf8 (ModifiedUtf8.encode PermittedSubclasses.attributeName)) :=
  findUtf8?_eq_some h.name

theorem FindsListing.refers {names : List String} {nameIndex : UInt16} {indexes : List UInt16}
    (h : pool.FindsListing names nameIndex indexes) :
    List.Forall₂ pool.Refers indexes (names.map ModifiedUtf8.encode) :=
  (h.classes.imp fun _ _ => findClass?_eq_some).flip

theorem exists_findsListing {names : List String}
    (hname : pool.lacksText (ModifiedUtf8.encode PermittedSubclasses.attributeName) = false)
    (hclasses : ∀ text ∈ names.map ModifiedUtf8.encode, pool.lacksClass text = false) :
    ∃ nameIndex indexes, pool.FindsListing names nameIndex indexes := by
  obtain ⟨nameIndex, hindex⟩ := Option.isSome_iff_exists.1 (Option.isNone_eq_false_iff.1 hname)
  obtain ⟨indexes, hindexes⟩ := Result.exists_forall₂_iff.2 fun text htext =>
    Option.isSome_iff_exists.1 (Option.isNone_eq_false_iff.1 (hclasses text htext))
  exact ⟨nameIndex, indexes, hindex, hindexes⟩

/-! ## Indexes of classes -/

theorem Refers.text_eq {index : UInt16} {text' : Bytes} (h : pool.Refers index text)
    (h' : pool.Refers index text') : text = text' := by
  obtain ⟨nameIndex, hslot, htext⟩ := h
  obtain ⟨nameIndex', hslot', htext'⟩ := h'
  obtain rfl := Constant.classRef.inj (Option.some.inj (hslot.symm.trans hslot'))
  exact Constant.utf8.inj (Option.some.inj (htext.symm.trans htext'))

theorem nodup_of_refers {indexes : List UInt16} {texts : List Bytes}
    (h : List.Forall₂ pool.Refers indexes texts) (hnodup : texts.Nodup) : indexes.Nodup := by
  induction h with
  | nil => exact List.nodup_nil
  | @cons index text indexes texts hrefers hrest ih =>
    obtain ⟨htext, hnodup⟩ := List.nodup_cons.1 hnodup
    refine List.nodup_cons.2 ⟨fun hmem => htext ?_, ih hnodup⟩
    obtain ⟨text', hmem', hrefers'⟩ := Result.forall₂_mem hrest hmem
    rwa [hrefers.text_eq hrefers']

/-- Different classes are not more than there are indexes for them. -/
theorem length_le_of_refers (hzero : pool.slot? 0 = some .unusable) {indexes : List UInt16}
    {texts : List Bytes} (h : List.Forall₂ pool.Refers indexes texts) (hnodup : texts.Nodup) :
    indexes.length ≤ 65535 := by
  have hindexes : (indexes.map UInt16.toNat).Nodup :=
    (nodup_of_refers h hnodup).map fun _ _ heq => UInt16.toNat_inj.1 heq
  have hsub : indexes.map UInt16.toNat ⊆ List.range' 1 65535 := by
    intro i hi
    obtain ⟨index, hindex, rfl⟩ := List.mem_map.1 hi
    obtain ⟨_, _, nameIndex, hslot, _⟩ := Result.forall₂_mem h hindex
    have hlt := index.toNat_lt
    have hpos : index.toNat ≠ 0 := by
      intro heq
      rw [heq, hzero] at hslot
      cases hslot
    rw [List.mem_range'_1]
    omega
  have hle := (List.subperm_of_subset hindexes hsub).length_le
  rwa [List.length_map, List.length_range'] at hle

end ConstantPool

/-! ## Pools that are written -/

namespace PoolForm

theorem growsTo_pushAll (pool : ConstantPool) (xs : List ConstantForm) :
    pool.GrowsTo (pushAll pool xs) := by
  induction xs generalizing pool with
  | nil => exact .refl pool
  | cons x xs ih =>
    refine ConstantPool.GrowsTo.trans (fun i k hslot => ?_) (ih (pool.push x.constant))
    obtain ⟨hi, _⟩ := Array.getElem?_eq_some_iff.1 hslot
    rw [ConstantPool.slot?_push_of_lt hi]
    exact hslot

theorem slot?_zero (p : PoolForm) : p.pool.slot? 0 = some .unusable :=
  growsTo_pushAll .empty p.constants 0 _ rfl

theorem mem_pushAll {pool : ConstantPool} {xs : List ConstantForm} {k : Constant}
    (h : k ∈ (pushAll pool xs).slots) :
    k ∈ pool.slots ∨ k = .unusable ∨ ∃ x ∈ xs, x.constant = k := by
  induction xs generalizing pool with
  | nil => exact .inl h
  | cons x xs ih =>
    have hrest : k ∈ (pushAll (pool.push x.constant) xs).slots := h
    rcases ih hrest with hpool | hunusable | ⟨y, hy, rfl⟩
    · unfold ConstantPool.push at hpool
      split at hpool
      · rename_i hwide
        rw [Array.mem_push, Array.mem_push] at hpool
        rcases hpool with (hpool | rfl) | rfl
        · exact .inl hpool
        · exact .inr (.inr ⟨x, List.mem_cons_self, hwide⟩)
        · exact .inr (.inl rfl)
      · rcases Array.mem_push.1 hpool with hpool | rfl
        · exact .inl hpool
        · exact .inr (.inr ⟨x, List.mem_cons_self, rfl⟩)
    · exact .inr (.inl hunusable)
    · exact .inr (.inr ⟨y, List.mem_cons_of_mem _ hy, rfl⟩)

/-- The length of a text is written in 16 bits. -/
theorem length_le_of_slot {p : PoolForm} {i : Nat} {text : Bytes}
    (h : p.pool.slot? i = some (.utf8 text)) : text.length ≤ PoolExtension.maxTextLength := by
  have hmem : Constant.utf8 text ∈ p.pool.slots := by
    obtain ⟨hi, hget⟩ := Array.getElem?_eq_some_iff.1 h
    rw [← hget]
    exact Array.getElem_mem hi
  rcases mem_pushAll hmem with hempty | hunusable | ⟨x, _, hx⟩
  · simp [ConstantPool.empty] at hempty
  · cases hunusable
  · cases x with
    | utf8 text' hshort =>
      obtain rfl := Constant.utf8.inj hx
      exact Nat.le_of_lt_succ hshort
    | _ => cases hx

theorem short_ofPool (p : PoolForm) : (PoolExtension.ofPool p.pool).Short := by
  intro text htext
  have hknown : p.pool.lacksText text = false := by
    simpa [PoolExtension.lacks, PoolExtension.ofPool, PoolExtension.findAdded?] using htext
  obtain ⟨index, hslot⟩ := ConstantPool.lacksText_eq_false_iff.1 hknown
  exact length_le_of_slot hslot

end PoolForm

/-! ## Listings -/

/-- Different names are written differently. -/
theorem ModifiedUtf8.encode_injective : Function.Injective encode := by
  intro m n h
  have hread := decode?_encode m
  rw [h, decode?_encode] at hread
  exact (Option.some.inj hread).symm

namespace PoolExtension

/-- The index of the attribute's name and those of the classes in a listing. -/
def addListing (e : PoolExtension) (names : List String) :
    Except ClassFileError ((UInt16 × List UInt16) × PoolExtension) := do
  let (nameIndex, e) ← e.addUtf8 (ModifiedUtf8.encode PermittedSubclasses.attributeName)
  let (classIndexes, e) ← e.addClasses (names.map ModifiedUtf8.encode)
  return ((nameIndex, classIndexes), e)

theorem addListing_steps {e e' : PoolExtension} {names : List String} {nameIndex : UInt16}
    {indexes : List UInt16} (h : e.addListing names = .ok ((nameIndex, indexes), e')) :
    ∃ e₁, e.addUtf8 (ModifiedUtf8.encode PermittedSubclasses.attributeName) = .ok (nameIndex, e₁)
      ∧ e₁.addClasses (names.map ModifiedUtf8.encode) = .ok (indexes, e') := by
  unfold addListing at h
  obtain ⟨⟨i, e₁⟩, hname, h⟩ := Result.bind_eq_ok.1 h
  obtain ⟨⟨is, e₂⟩, hclasses, h⟩ := Result.bind_eq_ok.1 h
  obtain ⟨⟨⟩, rfl⟩ := Prod.mk.inj (Result.pure_eq_ok.1 h)
  exact ⟨e₁, hname, hclasses⟩

/-- The slots that classes take once the name of the attribute is there. -/
theorem shortage_encode {p : PoolForm} {e : PoolExtension} (hpool : e.pool = p.pool)
    (hlacks : ∀ n, e.lacks (ModifiedUtf8.encode n)
      = (!p.pool.hasText (ModifiedUtf8.encode n) && n != PermittedSubclasses.attributeName))
    (names : List String) :
    e.shortage (names.map ModifiedUtf8.encode)
      = names.countP (fun n => !p.pool.hasClass (ModifiedUtf8.encode n))
        + names.countP fun n => !p.pool.hasClass (ModifiedUtf8.encode n)
          && !p.pool.hasText (ModifiedUtf8.encode n)
          && n != PermittedSubclasses.attributeName := by
  have hclass : ∀ n, e.pool.lacksClass (ModifiedUtf8.encode n)
      = !p.pool.hasClass (ModifiedUtf8.encode n) := by
    intro n
    rw [hpool]
    exact ConstantPool.lacksClass_eq p.size_le
  rw [shortage, List.countP_map, List.countP_map]
  simp only [Function.comp_def, hclass, hlacks, ← Bool.and_assoc]

/-- What a listing takes is what its pool needs. -/
theorem addListing_takes (p : PoolForm) {names : List String} (hnodup : names.Nodup) :
    (ofPool p.pool).Takes (p.pool.needed names)
      (ModifiedUtf8.encode PermittedSubclasses.attributeName :: names.map ModifiedUtf8.encode)
      ((ofPool p.pool).addListing names) := by
  let e := ofPool p.pool
  let attributeText := ModifiedUtf8.encode PermittedSubclasses.attributeName
  have hlacks : ∀ text, e.lacks text = !p.pool.hasText text := by
    intro text
    rw [← ConstantPool.lacksText_eq p.size_le]
    simp [e, lacks, ofPool, findAdded?]
  have hfirst : e.Takes (if e.lacks attributeText then 1 else 0) [attributeText]
      (e.addUtf8 attributeText) := addUtf8_takes p.short_ofPool attributeText
  have hattribute : (if e.lacks attributeText then 1 else 0)
      = if p.pool.hasText attributeText then 0 else 1 := by
    rw [hlacks]
    cases p.pool.hasText attributeText <;> rfl
  rw [ConstantPool.needed, Nat.add_assoc, ← hattribute]
  change e.Takes _ ([attributeText] ++ names.map ModifiedUtf8.encode) _
  refine hfirst.bind fun nameIndex e₁ hname => ?_
  rw [hname] at hfirst
  cases hfirst with
  | added hpool _ _ hshort _ hother =>
    -- the name of the attribute is there by now, all other texts are as they were
    have htext : ∀ n, e₁.lacks (ModifiedUtf8.encode n)
        = (!p.pool.hasText (ModifiedUtf8.encode n) && n != PermittedSubclasses.attributeName) := by
      intro n
      by_cases hn : n = PermittedSubclasses.attributeName
      · rw [hn, lacks_of_addUtf8 hname, bne_self_eq_false, Bool.and_false]
      · have hmem : ModifiedUtf8.encode n ∉ [attributeText] := by
          rw [List.mem_singleton]
          exact fun heq => hn (ModifiedUtf8.encode_injective heq)
        rw [hother _ hmem, hlacks, bne_iff_ne.2 hn, Bool.and_true]
    have hclasses : ∀ text, e₁.pool.lacksClass text = false → e₁.pool.lacksText text = false :=
      fun _ => ConstantPool.lacksText_of_lacksClass
    have hrest := addClasses_takes hshort (hnodup.map ModifiedUtf8.encode_injective) hclasses
    rw [shortage_encode hpool htext] at hrest
    exact hrest.map (nameIndex, ·)

theorem addClasses_of_found {e : PoolExtension} {texts : List Bytes} {indexes : List UInt16}
    (h : List.Forall₂ (fun text index => e.pool.findClass? text = some index) texts indexes) :
    e.addClasses texts = .ok (indexes, e) := by
  induction h with
  | nil => rfl
  | @cons text index texts indexes hfound _ ih =>
    rw [addClasses, addClass, hfound]
    change (e.addClasses texts >>= _) = _
    rw [ih]
    rfl

/-- Where all of a listing is found, nothing is added for it. -/
theorem addListing_of_found {pool : ConstantPool} {names : List String} {nameIndex : UInt16}
    {indexes : List UInt16} (h : pool.FindsListing names nameIndex indexes) :
    (ofPool pool).addListing names = .ok ((nameIndex, indexes), ofPool pool) := by
  have hname : (ofPool pool).addUtf8 (ModifiedUtf8.encode PermittedSubclasses.attributeName)
      = .ok (nameIndex, ofPool pool) := by
    rw [addUtf8, ofPool, h.name]
  have hclasses : (ofPool pool).addClasses (names.map ModifiedUtf8.encode)
      = .ok (indexes, ofPool pool) := addClasses_of_found h.classes
  rw [addListing, hname]
  change ((ofPool pool).addClasses _ >>= _) = _
  rw [hclasses]
  rfl

/-- In a pool that needs nothing, all of the listing is found. -/
theorem findsListing_of_needed_eq_zero (p : PoolForm) {names : List String}
    (h : p.pool.needed names = 0) :
    ∃ nameIndex indexes, p.pool.FindsListing names nameIndex indexes := by
  unfold ConstantPool.needed at h
  have htext : p.pool.lacksText (ModifiedUtf8.encode PermittedSubclasses.attributeName)
      = false := by
    rw [ConstantPool.lacksText_eq p.size_le, Bool.not_eq_false']
    by_contra hno
    rw [if_neg hno] at h
    omega
  have hclasses : ∀ name ∈ names.map ModifiedUtf8.encode, p.pool.lacksClass name = false := by
    have hcount : names.countP (fun n => !p.pool.hasClass (ModifiedUtf8.encode n)) = 0 := by omega
    rw [List.forall_mem_map]
    intro n hn
    rw [ConstantPool.lacksClass_eq p.size_le]
    exact Bool.eq_false_iff.2 (List.countP_eq_zero.1 hcount n hn)
  exact ConstantPool.exists_findsListing htext hclasses

/-- The constants that a listing needs are added, and its indexes lead to what was asked for. -/
theorem addListing_eq_ok (p : PoolForm) {names : List String} (hnodup : names.Nodup)
    {nameIndex : UInt16} {indexes : List UInt16} {e : PoolExtension}
    (h : (ofPool p.pool).addListing names = .ok ((nameIndex, indexes), e)) :
    e.pool = p.pool ∧ e.added.size = p.pool.needed names ∧ (∀ k ∈ e.added.toList, Addable k)
      ∧ e.extended.slot? nameIndex.toNat
        = some (.utf8 (ModifiedUtf8.encode PermittedSubclasses.attributeName))
      ∧ List.Forall₂ e.extended.Refers indexes (names.map ModifiedUtf8.encode) := by
  have htakes := addListing_takes p hnodup
  have hroom := htakes.isOk_iff.1 ⟨_, _, h⟩ |>.2
  rw [h] at htakes
  obtain ⟨hpool, hsize⟩ := htakes.of_ok
  have hcount : e.added.size = p.pool.needed names := by
    simp only [size, hpool, ofPool, Array.size_empty, Nat.add_zero] at hsize
    omega
  refine ⟨hpool, hcount, ?_⟩
  by_cases hzero : p.pool.needed names = 0
  · obtain ⟨_, _, hfinds⟩ := findsListing_of_needed_eq_zero p hzero
    obtain ⟨hindexes, rfl⟩ := Prod.mk.inj (Except.ok.inj ((addListing_of_found hfinds).symm.trans h))
    obtain ⟨rfl, rfl⟩ := Prod.mk.inj hindexes
    have hgrows := (ofPool p.pool).pool_growsTo_extended
    exact ⟨fun k hk => by simp [ofPool] at hk, hgrows _ _ hfinds.slot?_name,
      hfinds.refers.imp fun _ _ hr => hr.grow hgrows⟩
  · have hle : p.pool.size ≤ maxSlots := by
      simp only [size, ofPool, Array.size_empty, Nat.add_zero] at hroom
      omega
    obtain ⟨e₁, hname, hclasses⟩ := addListing_steps h
    obtain ⟨h₁, htext⟩ := addUtf8_spec (sound_ofPool hle) hname
    obtain ⟨h₂, hrefers⟩ := addClasses_spec h₁.sound hclasses
    exact ⟨h₂.sound.addable, h₂.grows _ _ htext, hrefers⟩

/-- A listing never has too many classes. -/
theorem length_le_of_addListing (p : PoolForm) {names : List String} (hnodup : names.Nodup)
    {nameIndex : UInt16} {indexes : List UInt16} {e : PoolExtension}
    (h : (ofPool p.pool).addListing names = .ok ((nameIndex, indexes), e)) :
    indexes.length ≤ 65535 := by
  obtain ⟨hpool, _, _, _, hrefers⟩ := addListing_eq_ok p hnodup h
  have hzero : e.extended.slot? 0 = some .unusable := by
    refine e.pool_growsTo_extended 0 _ ?_
    rw [hpool]
    exact p.slot?_zero
  exact ConstantPool.length_le_of_refers hzero hrefers (hnodup.map ModifiedUtf8.encode_injective)

end PoolExtension

namespace ClassForm

open AttributeForm (encodeTable ListingPut)

variable {f : ClassForm} {cf : ClassFile} {names : List String}

/-! ## Attributes -/

/-- A listing finds its place unless there is none yet and the attributes cannot be more. -/
theorem withListing_ends (hd : f.Describes cf) (listing : AttributeForm) :
    (∃ t : Table AttributeForm, ListingPut f.pool.pool listing f.attributes.1 t.1
        ∧ (cf.permitted ≠ none ∨ f.attributes.1.length < 65535)
        ∧ cf.withListing f.encode listing.encode = .ok (f.body ++ encodeTable t))
      ∨ cf.permitted = none ∧ f.attributes.1.length = 65535
        ∧ cf.withListing f.encode listing.encode = .error .attributeOverflow := by
  cases hlisting : cf.withListing f.encode listing.encode with
  | ok tail =>
    obtain ⟨t, hput, rfl⟩ := withListing_eq_ok hd hlisting
    refine .inl ⟨t, hput, ?_, rfl⟩
    by_cases hnone : cf.permitted = none
    · rw [ClassFile.withListing, hnone] at hlisting
      dsimp only at hlisting
      rw [run_attributesCount hd] at hlisting
      have hlt := (Result.ite_eq_ok rfl).1 hlisting |>.1
      rw [toNat_ofNat_of_lt f.attributes.2] at hlt
      exact .inr hlt
    · exact .inl hnone
  | error cause =>
    cases hpermitted : cf.permitted with
    | some old =>
      rw [ClassFile.withListing, hpermitted] at hlisting
      cases hlisting
    | none =>
      rw [ClassFile.withListing, hpermitted] at hlisting
      dsimp only at hlisting
      rw [run_attributesCount hd] at hlisting
      change (if (UInt16.ofNat f.attributes.1.length).toNat < 65535 then _ else _) = _ at hlisting
      rw [toNat_ofNat_of_lt f.attributes.2] at hlisting
      have hlt := f.attributes.2
      by_cases hroom : f.attributes.1.length < 65535
      · rw [if_pos hroom] at hlisting
        cases hlisting
      · rw [if_neg hroom] at hlisting
        obtain rfl := Except.error.inj hlisting
        exact .inr ⟨rfl, by omega, rfl⟩

/-! ## Ends of sealing -/

/-- What can come of sealing the class file of a form. -/
inductive SealingEnd (f : ClassForm) (permitted : Option PermittedSubclasses)
    (names : List String) : Except ClassFileError Bytes → Prop
  /-- The constants that are needed stand behind the others, and a listing is put among the
  attributes. -/
  | written {added : List Constant} {listing : AttributeForm} {t : Table AttributeForm}
    (short : ∀ n ∈ names, (ModifiedUtf8.encode n).length ≤ PoolExtension.maxTextLength)
    (room : f.pool.pool.needed names = 0
      ∨ f.pool.pool.size + f.pool.pool.needed names ≤ PoolExtension.maxSlots)
    (place : permitted ≠ none ∨ f.attributes.1.length < 65535)
    (addable : ∀ k ∈ added, PoolExtension.Addable k)
    (length_eq : added.length = f.pool.pool.needed names)
    (put : ListingPut f.pool.pool listing f.attributes.1 t.1) :
    SealingEnd f permitted names (.ok (f.head
      ++ Bytes.ofUInt16 (UInt16.ofNat (f.pool.pool.size + f.pool.pool.needed names))
      ++ f.pool.constants.flatMap ConstantForm.encode ++ added.flatMap Constant.encode
      ++ (f.body ++ encodeTable t)))
  | tooLong {name : String} (mem : name ∈ names)
    (long : PoolExtension.maxTextLength < (ModifiedUtf8.encode name).length) :
    SealingEnd f permitted names (.error (.nameTooLong (ModifiedUtf8.encode name).length))
  | noRoom {slots : Nat} (lacking : f.pool.pool.needed names ≠ 0)
    (full : PoolExtension.maxSlots < f.pool.pool.size + f.pool.pool.needed names) :
    SealingEnd f permitted names (.error (.constantPoolOverflow slots))
  | noPlace (room : f.pool.pool.needed names = 0
      ∨ f.pool.pool.size + f.pool.pool.needed names ≤ PoolExtension.maxSlots)
    (missing : permitted = none) (full : f.attributes.1.length = 65535) :
    SealingEnd f permitted names (.error .attributeOverflow)

theorem SealingEnd.isOk_iff {permitted : Option PermittedSubclasses}
    {result : Except ClassFileError Bytes} (h : f.SealingEnd permitted names result) :
    (∃ out, result = .ok out)
      ↔ (∀ n ∈ names, (ModifiedUtf8.encode n).length ≤ PoolExtension.maxTextLength)
        ∧ (f.pool.pool.needed names = 0
          ∨ f.pool.pool.size + f.pool.pool.needed names ≤ PoolExtension.maxSlots)
        ∧ (permitted ≠ none ∨ f.attributes.1.length < 65535) := by
  have hno : ∀ cause : ClassFileError, ¬ ∃ out : Bytes, Except.error cause = .ok out := by
    rintro cause ⟨out, hout⟩
    cases hout
  cases h with
  | written hshort hroom hplace => exact ⟨fun _ => ⟨hshort, hroom, hplace⟩, fun _ => ⟨_, rfl⟩⟩
  | tooLong hname hlong =>
    refine ⟨fun hok => absurd hok (hno _), ?_⟩
    rintro ⟨hshort, -, -⟩
    exact absurd (hshort _ hname) (Nat.not_le.2 hlong)
  | noRoom hlacking hfull =>
    refine ⟨fun hok => absurd hok (hno _), ?_⟩
    rintro ⟨-, hroom, -⟩
    omega
  | noPlace _ hmissing hfull =>
    refine ⟨fun hok => absurd hok (hno _), ?_⟩
    rintro ⟨-, -, hplace | hplace⟩
    · exact absurd hmissing hplace
    · omega

theorem sealTo_eq_bind (cf : ClassFile) (bytes : Bytes) (names : List String) :
    cf.sealTo bytes names = (PoolExtension.ofPool cf.pool).addListing names >>= fun r =>
      if r.1.2.length ≤ 65535 then do
        let tail ← cf.withListing bytes (ClassFile.permittedAttribute r.1.1 r.1.2)
        return bytes.take 8 ++ Bytes.ofUInt16 (UInt16.ofNat r.2.size)
          ++ bytes.slice 10 cf.layout.poolEnd ++ r.2.addedBytes ++ tail
      else throw .attributeOverflow := by
  simp only [ClassFile.sealTo, PoolExtension.addListing, bind_assoc, pure_bind]

/-- Sealing comes to one of these ends. -/
theorem sealTo_ends (hd : f.Describes cf) (hnodup : names.Nodup) :
    f.SealingEnd cf.permitted names (cf.sealTo f.encode names) := by
  rw [sealTo_eq_bind, hd.pool]
  have htakes := PoolExtension.addListing_takes f.pool hnodup
  cases hlisting : (PoolExtension.ofPool f.pool.pool).addListing names with
  | error cause =>
    rw [hlisting] at htakes
    cases htakes with
    | @tooLong text hmem hlong =>
      rcases List.mem_cons.1 hmem with rfl | hmem
      · exact absurd hlong (by decide)
      · obtain ⟨name, hname, rfl⟩ := List.mem_map.1 hmem
        exact .tooLong hname hlong
    | noRoom hlacking hfull => exact .noRoom hlacking hfull
  | ok result =>
    obtain ⟨⟨nameIndex, indexes⟩, e⟩ := result
    obtain ⟨hpool, hcount, haddable, _⟩ :=
      PoolExtension.addListing_eq_ok f.pool hnodup hlisting
    obtain ⟨hshort, hroom⟩ := htakes.isOk_iff.1 ⟨_, _, hlisting⟩
    have hsize : e.size = f.pool.pool.size + f.pool.pool.needed names := by
      rw [PoolExtension.size, hpool, hcount]
    have hlength := PoolExtension.length_le_of_addListing f.pool hnodup hlisting
    change f.SealingEnd cf.permitted names (if indexes.length ≤ 65535 then _ else _)
    rw [if_pos hlength, f.take_head, hd.slice_constants, hsize,
      ← AttributeForm.encode_ofIndexes nameIndex ⟨indexes, Nat.lt_succ_of_le hlength⟩]
    rcases withListing_ends hd (.ofIndexes nameIndex ⟨indexes, Nat.lt_succ_of_le hlength⟩) with
      ⟨t, hput, hplace, htail⟩ | ⟨hmissing, hfull, htail⟩
    · rw [htail]
      refine .written ?_ hroom hplace haddable hcount hput
      intro n hn
      exact hshort _ (List.mem_cons_of_mem _ (List.mem_map_of_mem hn))
    · rw [htail]
      exact .noPlace hroom hmissing hfull

end ClassForm

namespace ClassFile

open AttributeForm (encodeTable ListingPut)

/-- Sealing succeeds exactly if no name is too long for a constant, there is room for the constants
that are needed, and there is a place for the listing. Then the needed constants, and no others,
stand behind those of the pool. Only a class with as many attributes as can be has no place for a
listing. -/
theorem apply_sealTo_isOk_iff {b : Bytes} {cf : ClassFile} (hparse : parse b = .ok cf)
    (subtypes : NameSet) :
    ∃ old : Table AttributeForm, b.drop cf.layout.attributesCount = encodeTable old
      ∧ ((∃ out, cf.apply (.sealTo subtypes) b = .ok out)
        ↔ (∀ n ∈ subtypes, (ModifiedUtf8.encode n).length ≤ 65535)
          ∧ (cf.pool.needed subtypes.toList = 0
            ∨ cf.pool.size + cf.pool.needed subtypes.toList ≤ 65535)
          ∧ (cf.permitted ≠ none ∨ old.1.length < 65535))
      ∧ (∀ out, cf.apply (.sealTo subtypes) b = .ok out →
        ∃ (added : List Constant) (listing : AttributeForm) (new : Table AttributeForm),
          (∀ k ∈ added, PoolExtension.Addable k)
          ∧ added.length = cf.pool.needed subtypes.toList
          ∧ ListingPut cf.pool listing old.1 new.1
          ∧ out = b.take 8
            ++ Bytes.ofUInt16 (UInt16.ofNat (cf.pool.size + cf.pool.needed subtypes.toList))
            ++ b.slice 10 cf.layout.poolEnd ++ added.flatMap Constant.encode
            ++ (b.slice cf.layout.poolEnd cf.layout.attributesCount ++ encodeTable new))
      ∧ (cf.apply (.sealTo subtypes) b = .error .attributeOverflow →
        cf.permitted = none ∧ old.1.length = 65535) := by
  obtain ⟨f, rfl, _, hd⟩ := parse_eq_ok.1 hparse
  have hend := ClassForm.sealTo_ends hd subtypes.nodup_toList
  have hmem : ∀ n, n ∈ subtypes.toList ↔ n ∈ subtypes := fun n => Std.ExtTreeSet.mem_toList
  rw [hd.apply_sealTo, f.take_head, hd.slice_constants, hd.slice_body, hd.pool]
  refine ⟨f.attributes, hd.drop_attributes, ?_, ?_, ?_⟩
  · rw [hend.isOk_iff]
    simp only [hmem, PoolExtension.maxTextLength, PoolExtension.maxSlots]
  · intro out hout
    rw [hout] at hend
    cases hend with
    | written _ _ _ haddable hlength hput => exact ⟨_, _, _, haddable, hlength, hput, rfl⟩
  · intro herror
    rw [herror] at hend
    cases hend with
    | noPlace _ hmissing hfull => exact ⟨hmissing, hfull⟩

/-- To seal the class `A` to itself and `B` takes three constants: the name of the attribute, the
name `B` and the class with this name. -/
theorem apply_sealTo_isOk_plain :
    ∃ (out : Bytes) (added : List Constant),
      plainClass.apply (.sealTo (NameSet.ofList ["A", "B"])) plainBytes = .ok out
      ∧ added.length = 3 ∧ (∀ k ∈ added, PoolExtension.Addable k)
      ∧ plainBytes.take 8 ++ [0, 6] ++ plainBytes.slice 10 17 ++ added.flatMap Constant.encode
        <+: out := by
  have hneeded : plainClass.pool.needed (NameSet.ofList ["A", "B"]).toList = 3 := by decide +kernel
  have hnames : (NameSet.ofList ["A", "B"]).toList = ["A", "B"] := by decide +kernel
  obtain ⟨old, hold, hok, hwritten, -⟩ := apply_sealTo_isOk_iff parse_plainBytes (NameSet.ofList ["A", "B"])
  have hfew : old.1.length < 65535 := by
    have hbytes : Bytes.ofUInt16 0 ++ []
        = Bytes.ofUInt16 (UInt16.ofNat old.1.length) ++ old.1.flatMap AttributeForm.encode := hold
    have hzero := congrArg UInt16.toNat (delimited_ofUInt16 hbytes).1
    rw [toNat_ofNat_of_lt old.2] at hzero
    exact hzero ▸ by decide
  have hshort : ∀ n ∈ NameSet.ofList ["A", "B"], (ModifiedUtf8.encode n).length ≤ 65535 := by
    intro n hn
    rw [← Std.ExtTreeSet.mem_toList, hnames] at hn
    have hall : ∀ m ∈ ["A", "B"], (ModifiedUtf8.encode m).length ≤ 65535 := by decide +kernel
    exact hall n hn
  have hroom : plainClass.pool.size + plainClass.pool.needed (NameSet.ofList ["A", "B"]).toList
      ≤ 65535 := by
    rw [hneeded]
    decide
  obtain ⟨out, hout⟩ := hok.2 ⟨hshort, .inr hroom, .inr hfew⟩
  obtain ⟨added, listing, new, haddable, hlength, -, rfl⟩ := hwritten out hout
  rw [hneeded] at hlength
  refine ⟨_, added, hout, hlength, haddable, ?_⟩
  rw [hneeded]
  exact List.prefix_append _ _

end ClassFile

end LinkSet
