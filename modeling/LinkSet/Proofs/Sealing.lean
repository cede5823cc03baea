import LinkSet.ClassFile.Change
import LinkSet.Proofs.ClassGrammar
import LinkSet.Proofs.NameOrder
import LinkSet.Proofs.PoolGrowth
import LinkSet.Proofs.Results

/-!
# Sealed class files

What sealing does to the bytes of a class file is a change to its form: constants come behind those
of the pool, and one attribute lists the permitted subclasses (`ClassForm.SealedAs`). The bytes that
come out are those of the new form (`ClassForm.sealTo_eq_ok`). Slots stay as they are, so the
indexes of the new form lead where those of the old one did (`ClassForm.SealedAs.resolves`), and the
output is a class file that says what the input said but for the permitted subclasses
(`ClassForm.SealedAs.describes`).
-/

namespace LinkSet

/-! ## Cuts -/

namespace Bytes

theorem slice_mid {front mid back : Bytes} {start stop : Nat} (hstart : start = front.length)
    (hstop : stop = (front ++ mid).length) : slice (front ++ mid ++ back) start stop = mid := by
  rw [slice, hstop, List.take_left, hstart, List.drop_left]

theorem drop_end {front back : Bytes} {start : Nat} (hstart : start = front.length) :
    (front ++ back).drop start = back := by
  rw [hstart, List.drop_left]

/-- Bytes with which a longer piece begins stand in the same places. -/
theorem slice_eq_of_prefix {b b' : Bytes} {start stop stop' : Nat} (hstop : stop ≤ b.length)
    (h : b.slice start stop <+: b'.slice start stop') :
    b'.slice start stop = b.slice start stop := by
  have hlength : (b.slice start stop).length = stop - start := by
    rw [length_slice, Nat.min_eq_left hstop]
  have hdrop : b.slice start stop <+: b'.drop start := by
    refine h.trans ?_
    rw [slice, List.drop_take]
    exact List.take_prefix _ _
  have htake := List.prefix_iff_eq_take.1 hdrop
  rw [hlength, ← List.drop_take] at htake
  exact htake.symm

end Bytes

/-! ## Attribute tables -/

namespace AttributeForm

/-- The new attributes are the old ones with `listing` in place of the last one that has permitted
subclasses, or else behind all of them. -/
def ListingPut (pool : ConstantPool) (listing : AttributeForm) (old new : List AttributeForm) :
    Prop :=
  (∃ before a after, old = before ++ a :: after ∧ a.IsListing pool
      ∧ (∀ x ∈ after, ¬ x.IsListing pool) ∧ new = before ++ listing :: after)
    ∨ ((∀ a ∈ old, ¬ a.IsListing pool) ∧ new = old ++ [listing])

variable {pool pool' : ConstantPool}

/-- Which attributes have permitted subclasses does not change while the pool grows. -/
theorem isListing_grow (h : pool.GrowsTo pool') {a : AttributeForm} (ha : a.Resolves pool) :
    a.IsListing pool' ↔ a.IsListing pool := by
  obtain ⟨⟨text, htext⟩, _⟩ := ha
  constructor
  · intro hl
    have heq := Option.some.inj ((h _ _ htext).symm.trans hl)
    rw [IsListing, htext, heq]
  · exact h _ _

theorem Lists.grow (h : pool.GrowsTo pool') {a : AttributeForm} {names : List String}
    (ha : a.Lists pool names) : a.Lists pool' names := by
  obtain ⟨indexes, hbody, hnames⟩ := ha
  exact ⟨indexes, hbody, hnames.imp fun _ _ hn => hn.grow h⟩

theorem Resolves.grow (h : pool.GrowsTo pool') {a : AttributeForm} (ha : a.Resolves pool) :
    a.Resolves pool' := by
  obtain ⟨text, htext⟩ := ha.1
  refine ⟨⟨text, h _ _ htext⟩, fun hl => ?_⟩
  obtain ⟨names, hnames⟩ := ha.2 ((isListing_grow h ha).1 hl)
  exact ⟨names, hnames.grow h⟩

variable {listing : AttributeForm} {old new : List AttributeForm}

theorem ListingPut.resolves (hput : ListingPut pool listing old new) (h : pool.GrowsTo pool')
    (hold : ∀ a ∈ old, a.Resolves pool) (hl : listing.Resolves pool') :
    ∀ a ∈ new, a.Resolves pool' := by
  rcases hput with ⟨before, b, after, rfl, _, _, rfl⟩ | ⟨_, rfl⟩
  · intro a ha
    rcases List.mem_append.1 ha with ha | ha
    · exact (hold a (List.mem_append_left _ ha)).grow h
    · rcases List.mem_cons.1 ha with rfl | ha
      · exact hl
      · exact (hold a (List.mem_append_right _ (List.mem_cons_of_mem _ ha))).grow h
  · intro a ha
    rcases List.mem_append.1 ha with ha | ha
    · exact (hold a ha).grow h
    · rw [List.mem_singleton.1 ha]
      exact hl

/-- The new attribute is the last one with permitted subclasses. -/
theorem ListingPut.lastListing (hput : ListingPut pool listing old new) (h : pool.GrowsTo pool')
    (hold : ∀ a ∈ old, a.Resolves pool) (hl : listing.IsListing pool') {names : List String}
    (hnames : listing.Lists pool' names) (offset : Nat) :
    ∃ p, p.names = names ∧ LastListing pool' offset new (some p) := by
  rcases hput with ⟨before, b, after, rfl, _, hafter, rfl⟩ | ⟨_, rfl⟩
  · let start := offset + (before.flatMap encode).length
    refine ⟨⟨names, start, start + listing.encode.length⟩, rfl, before, listing, after, rfl, hl,
      hnames, ?_, rfl, rfl⟩
    intro x hx hlx
    have hres := hold x (List.mem_append_right _ (List.mem_cons_of_mem _ hx))
    exact hafter x hx ((isListing_grow h hres).1 hlx)
  · let start := offset + (old.flatMap encode).length
    exact ⟨⟨names, start, start + listing.encode.length⟩, rfl, old, listing, [], rfl, hl, hnames,
      fun x hx => (nomatch hx), rfl, rfl⟩

/-- The attribute that lists the classes with the given indexes. -/
def ofIndexes (nameIndex : UInt16) (indexes : Table UInt16) : AttributeForm where
  nameIndex := nameIndex
  body := indexes.encode Bytes.ofUInt16
  short := by
    have h := indexes.2
    rw [Table.length_encode_ofUInt16]
    omega

theorem encode_ofIndexes (nameIndex : UInt16) (indexes : Table UInt16) :
    (ofIndexes nameIndex indexes).encode = ClassFile.permittedAttribute nameIndex indexes.1 := by
  have hlen : (ofIndexes nameIndex indexes).body.length = 2 + 2 * indexes.1.length :=
    indexes.length_encode_ofUInt16
  rw [encode, hlen, ClassFile.permittedAttribute]
  simp only [ofIndexes, Table.encode, List.append_assoc]

end AttributeForm

namespace ClassForm

variable {f : ClassForm} {cf : ClassFile}

/-! ## The places of a form -/

theorem length_head (f : ClassForm) : f.head.length = 8 := rfl

theorem take_head (f : ClassForm) : f.encode.take 8 = f.head := by
  rw [encode, List.append_assoc, List.append_assoc, ← f.length_head]
  exact List.take_left

theorem bodyStart_eq (f : ClassForm) :
    f.bodyStart = 10 + (f.pool.constants.flatMap ConstantForm.encode).length := by
  rw [bodyStart, PoolForm.encode]
  simp only [List.length_append, length_head, Bytes.length_ofUInt16]
  omega

/-- The first constants stand right behind the number of slots. -/
theorem slice_constants (f : ClassForm) {xs : List ConstantForm} (h : xs <+: f.pool.constants) :
    Bytes.slice f.encode 10 (10 + (xs.flatMap ConstantForm.encode).length)
      = xs.flatMap ConstantForm.encode := by
  obtain ⟨ys, hys⟩ := h
  have hsplit : f.encode = (f.head ++ Bytes.ofUInt16 f.pool.count)
      ++ xs.flatMap ConstantForm.encode
      ++ (ys.flatMap ConstantForm.encode
        ++ (f.body ++ AttributeForm.encodeTable f.attributes)) := by
    rw [encode, PoolForm.encode, ← hys, List.flatMap_append]
    simp only [List.append_assoc]
  rw [hsplit]
  refine Bytes.slice_mid rfl ?_
  simp only [List.length_append, length_head, Bytes.length_ofUInt16]

theorem slice_body (f : ClassForm) : Bytes.slice f.encode f.bodyStart f.attributesStart = f.body :=
  Bytes.slice_mid rfl rfl

theorem drop_attributesStart (f : ClassForm) :
    f.encode.drop f.attributesStart = AttributeForm.encodeTable f.attributes :=
  Bytes.drop_end rfl

/-! ## The places of a class file -/

theorem Describes.slice_constants (hd : f.Describes cf) :
    Bytes.slice f.encode 10 cf.layout.poolEnd
      = f.pool.constants.flatMap ConstantForm.encode := by
  rw [hd.layout, bodyStart_eq]
  exact f.slice_constants (List.prefix_refl _)

theorem Describes.slice_body (hd : f.Describes cf) :
    Bytes.slice f.encode cf.layout.poolEnd cf.layout.attributesCount = f.body := by
  rw [hd.layout]
  exact f.slice_body

theorem Describes.drop_attributes (hd : f.Describes cf) :
    f.encode.drop cf.layout.attributesCount = AttributeForm.encodeTable f.attributes := by
  rw [hd.layout]
  exact f.drop_attributesStart

theorem Describes.apply_sealTo (hd : f.Describes cf) (subtypes : NameSet) :
    cf.apply (.sealTo subtypes) f.encode = cf.sealTo f.encode subtypes.toList := by
  have hsize : f.encode.length = cf.layout.size := by rw [hd.layout]
  rw [ClassFile.apply, if_pos hsize]

/-! ## The tail of a class file -/

/-- With attributes that are not changed, the bytes can be cut in front of any of them. -/
theorem encode_eq_of_attributes {before after : List AttributeForm}
    (h : f.attributes.1 = before ++ after) :
    f.encode = (f.head ++ f.pool.encode)
      ++ (f.body ++ (Bytes.ofUInt16 (UInt16.ofNat f.attributes.1.length)
        ++ before.flatMap AttributeForm.encode)) ++ after.flatMap AttributeForm.encode := by
  have ht : AttributeForm.encodeTable f.attributes
      = Bytes.ofUInt16 (UInt16.ofNat f.attributes.1.length)
        ++ (before.flatMap AttributeForm.encode ++ after.flatMap AttributeForm.encode) := by
    rw [← List.flatMap_append, ← h]
    rfl
  rw [encode, ht]
  simp only [List.append_assoc]

/-- In place of a listing that is there, the tail has the new one. -/
theorem withListing_of_some (hd : f.Describes cf) {old : PermittedSubclasses}
    (hold : cf.permitted = some old) {listing : AttributeForm} {tail : Bytes}
    (h : cf.withListing f.encode listing.encode = .ok tail) :
    ∃ t : Table AttributeForm, AttributeForm.ListingPut f.pool.pool listing f.attributes.1 t.1
      ∧ tail = f.body ++ AttributeForm.encodeTable t := by
  have hlast := hd.permitted
  rw [hold] at hlast
  obtain ⟨before, a, after, hattrs, hl, _, hafter, hstart, hstop⟩ := hlast
  have hlen : (before ++ listing :: after).length = f.attributes.1.length := by
    rw [hattrs, List.length_append, List.length_append, List.length_cons, List.length_cons]
  let front := f.body ++ (Bytes.ofUInt16 (UInt16.ofNat f.attributes.1.length)
    ++ before.flatMap AttributeForm.encode)
  have hcut : old.start = (f.head ++ f.pool.encode ++ front).length := by
    rw [hstart, attributesStart]
    simp only [front, List.length_append, Bytes.length_ofUInt16]
    omega
  have hslice : Bytes.slice f.encode cf.layout.poolEnd old.start = front := by
    rw [encode_eq_of_attributes hattrs, hd.layout]
    exact Bytes.slice_mid rfl hcut
  have hdrop : f.encode.drop old.stop = after.flatMap AttributeForm.encode := by
    have hsplit : f.attributes.1 = (before ++ [a]) ++ after := by
      rw [hattrs, List.append_assoc]
      rfl
    rw [encode_eq_of_attributes hsplit]
    refine Bytes.drop_end ?_
    rw [hstop, hcut, List.flatMap_append, List.flatMap_singleton]
    simp only [front, List.length_append]
    omega
  refine ⟨⟨before ++ listing :: after, hlen ▸ f.attributes.2⟩,
    .inl ⟨before, a, after, hattrs, hl, hafter, rfl⟩, ?_⟩
  rw [ClassFile.withListing, hold] at h
  obtain rfl := Except.ok.inj h
  rw [hslice, hdrop]
  simp only [front, Table.encode, hlen, List.flatMap_append, List.flatMap_cons, List.append_assoc]

theorem run_attributesCount (hd : f.Describes cf) :
    Reader.u16.run (f.encode.drop cf.layout.attributesCount)
      = .ok (UInt16.ofNat f.attributes.1.length) := by
  rw [hd.drop_attributes]
  exact Reader.run_eq_ok.2 ⟨⟨2, f.attributes.1.flatMap AttributeForm.encode⟩,
    Reader.u16_eq_ok.2 ⟨rfl, rfl⟩⟩

/-- If there is no listing, the tail has the new one behind all attributes, and their number is one
more. -/
theorem withListing_of_none (hd : f.Describes cf) (hnone : cf.permitted = none)
    {listing : AttributeForm} {tail : Bytes}
    (h : cf.withListing f.encode listing.encode = .ok tail) :
    ∃ t : Table AttributeForm, AttributeForm.ListingPut f.pool.pool listing f.attributes.1 t.1
      ∧ tail = f.body ++ AttributeForm.encodeTable t := by
  have hlast := hd.permitted
  rw [hnone] at hlast
  have hrest : f.encode.drop (cf.layout.attributesCount + 2)
      = f.attributes.1.flatMap AttributeForm.encode := by
    rw [← List.drop_drop, hd.drop_attributes]
    exact Bytes.drop_end rfl
  rw [ClassFile.withListing, hnone] at h
  obtain ⟨count, hcount, h⟩ := Result.bind_eq_ok.1 h
  rw [run_attributesCount hd] at hcount
  obtain rfl := Except.ok.inj hcount
  obtain ⟨hlt, h⟩ := (Result.ite_eq_ok rfl).1 h
  rw [toNat_ofNat_of_lt f.attributes.2] at hlt
  have hlen : (f.attributes.1 ++ [listing]).length = f.attributes.1.length + 1 := by
    rw [List.length_append, List.length_singleton]
  refine ⟨⟨f.attributes.1 ++ [listing], by omega⟩, .inr ⟨hlast, rfl⟩, ?_⟩
  rw [← Result.pure_eq_ok.1 h, hd.slice_body, hrest]
  simp only [Table.encode, hlen, List.flatMap_append, List.flatMap_singleton, UInt16.ofNat_add,
    List.append_assoc]
  rfl

/-- The tail with a new listing is the one of a table in which this listing is put. -/
theorem withListing_eq_ok (hd : f.Describes cf) {listing : AttributeForm} {tail : Bytes}
    (h : cf.withListing f.encode listing.encode = .ok tail) :
    ∃ t : Table AttributeForm, AttributeForm.ListingPut f.pool.pool listing f.attributes.1 t.1
      ∧ tail = f.body ++ AttributeForm.encodeTable t := by
  cases hp : cf.permitted with
  | some old => exact withListing_of_some hd hp h
  | none => exact withListing_of_none hd hp h

/-! ## Forms that are sealed -/

/-- The second form is the first with constants behind those of its pool, and with `listing`, which
lists the names, put among its attributes. -/
structure SealedAs (f f' : ClassForm) (listing : AttributeForm) (names : List String) : Prop where
  rest : f' = { f with pool := f'.pool, attributes := f'.attributes }
  grows : f.pool.pool.GrowsTo f'.pool.pool
  constants : f.pool.constants <+: f'.pool.constants
  isListing : listing.IsListing f'.pool.pool
  lists : listing.Lists f'.pool.pool names
  put : AttributeForm.ListingPut f.pool.pool listing f.attributes.1 f'.attributes.1

variable {f' : ClassForm} {listing : AttributeForm} {names : List String}

/-- Indexes lead where they did, because slots are only added. -/
theorem SealedAs.resolves (hs : f.SealedAs f' listing names) (h : f.Resolves) : f'.Resolves := by
  have hattributes := hs.put.resolves hs.grows h.attributes
    ⟨⟨_, hs.isListing⟩, fun _ => ⟨_, hs.lists⟩⟩
  obtain ⟨q, t, rfl⟩ : ∃ q t, f' = { f with pool := q, attributes := t } := ⟨_, _, hs.rest⟩
  refine ⟨?_, ?_, ?_, hattributes⟩
  · obtain ⟨name, hname⟩ := h.thisIndex
    exact ⟨name, hname.grow hs.grows⟩
  · intro hne
    obtain ⟨name, hname⟩ := h.superIndex hne
    exact ⟨name, hname.grow hs.grows⟩
  · intro index hindex
    obtain ⟨name, hname⟩ := h.interfaces index hindex
    exact ⟨name, hname.grow hs.grows⟩

/-- The new form says what the old one does, apart from the permitted subclasses. -/
theorem SealedAs.describes (hs : f.SealedAs f' listing names) (h : f.Resolves)
    (hd : f.Describes cf) :
    ∃ p, p.names = names ∧ f'.Describes { cf with
      permitted := some p, pool := f'.pool.pool,
      layout := ⟨f'.bodyStart, f'.attributesStart, f'.encode.length⟩ } := by
  obtain ⟨p, hp, hlast⟩ := hs.put.lastListing hs.grows h.attributes hs.isListing hs.lists
    (f'.attributesStart + 2)
  obtain ⟨q, t, rfl⟩ : ∃ q t, f' = { f with pool := q, attributes := t } := ⟨_, _, hs.rest⟩
  refine ⟨p, hp, hd.minorVersion, hd.majorVersion, hd.access, rfl, hd.thisName.grow hs.grows,
    hd.noSuper, ?_, hd.interfaces.imp fun _ _ hn => hn.grow hs.grows, hlast, rfl⟩
  intro hne
  obtain ⟨name, hname, hnames⟩ := hd.superName hne
  exact ⟨name, hname, hnames.grow hs.grows⟩

/-- Texts that classes refer to are read as the names that they are written forms of. -/
theorem names_of_refers {pool : ConstantPool} {indexes : List UInt16}
    (h : List.Forall₂ pool.Refers indexes (names.map ModifiedUtf8.encode)) :
    List.Forall₂ pool.Names indexes names := by
  rw [List.forall₂_map_right_iff] at h
  exact h.imp fun _ name hr => ⟨_, hr, ModifiedUtf8.decode?_encode name⟩

/-- Sealing looks up or adds the constants, then writes the tail. -/
theorem sealTo_steps {bytes out : Bytes} (h : cf.sealTo bytes names = .ok out) :
    ∃ nameIndex e₁ indexes e tail,
      (PoolExtension.ofPool cf.pool).addUtf8
          (ModifiedUtf8.encode PermittedSubclasses.attributeName) = .ok (nameIndex, e₁)
        ∧ e₁.addClasses (names.map ModifiedUtf8.encode) = .ok (indexes, e)
        ∧ indexes.length ≤ 65535
        ∧ cf.withListing bytes (ClassFile.permittedAttribute nameIndex indexes) = .ok tail
        ∧ out = bytes.take 8 ++ Bytes.ofUInt16 (UInt16.ofNat e.size)
          ++ bytes.slice 10 cf.layout.poolEnd ++ e.addedBytes ++ tail := by
  unfold ClassFile.sealTo at h
  obtain ⟨⟨nameIndex, e₁⟩, hname, h⟩ := Result.bind_eq_ok.1 h
  obtain ⟨⟨indexes, e⟩, hclasses, h⟩ := Result.bind_eq_ok.1 h
  obtain ⟨hlen, h⟩ := (Result.ite_eq_ok rfl).1 h
  obtain ⟨tail, htail, h⟩ := Result.bind_eq_ok.1 h
  exact ⟨nameIndex, e₁, indexes, e, tail, hname, hclasses, hlen, htail,
    (Result.pure_eq_ok.1 h).symm⟩

/-- Sealing writes a sealed form, over the pool that it has extended. -/
theorem sealTo_written (hd : f.Describes cf) (hsize : cf.pool.size ≤ PoolExtension.maxSlots)
    {out : Bytes} (h : cf.sealTo f.encode names = .ok out) :
    ∃ f' listing nameIndex e₁ indexes e, f'.encode = out ∧ f.SealedAs f' listing names
      ∧ (PoolExtension.ofPool cf.pool).addUtf8
          (ModifiedUtf8.encode PermittedSubclasses.attributeName) = .ok (nameIndex, e₁)
      ∧ e₁.addClasses (names.map ModifiedUtf8.encode) = .ok (indexes, e)
      ∧ f'.pool.pool = e.extended := by
  obtain ⟨nameIndex, e₁, indexes, e, tail, hname, hclasses, hlen, htail, rfl⟩ := sealTo_steps h
  obtain ⟨h₁, htext⟩ := PoolExtension.addUtf8_spec (PoolExtension.sound_ofPool hsize) hname
  obtain ⟨h₂, hrefers⟩ := PoolExtension.addClasses_spec h₁.sound hclasses
  have hleads := h₁.trans h₂
  have hpool : e.pool = f.pool.pool := hleads.pool_eq.trans hd.pool
  obtain ⟨q, hq, hconstants, hbytes⟩ := f.pool.exists_extended hleads.sound hpool
  rw [← AttributeForm.encode_ofIndexes nameIndex ⟨indexes, Nat.lt_succ_of_le hlen⟩] at htail
  obtain ⟨t, hput, rfl⟩ := withListing_eq_ok hd htail
  refine ⟨{ f with pool := q, attributes := t }, _, nameIndex, e₁, indexes, e, ?_,
    ⟨rfl, ?_, hconstants, ?_, ⟨_, rfl, ?_⟩, hput⟩, hname, hclasses, hq⟩
  · rw [f.take_head, hd.slice_constants, encode, hbytes]
    simp only [head, body, List.append_assoc]
  · rw [hq, ← hpool]
    exact e.pool_growsTo_extended
  · rw [AttributeForm.IsListing, hq]
    exact h₂.grows _ _ htext
  · rw [hq]
    exact names_of_refers hrefers

/-- Sealing writes a sealed form. -/
theorem sealTo_eq_ok (hd : f.Describes cf) (hsize : cf.pool.size ≤ PoolExtension.maxSlots)
    {out : Bytes} (h : cf.sealTo f.encode names = .ok out) :
    ∃ f' listing, f'.encode = out ∧ f.SealedAs f' listing names := by
  obtain ⟨f', listing, _, _, _, _, hout, hs, _⟩ := sealTo_written hd hsize h
  exact ⟨f', listing, hout, hs⟩

end ClassForm

namespace ClassFile

open AttributeForm (encodeTable ListingPut)

/-- A class file that is sealed is a class file again. It lists the given subclasses and no others,
in the order of their UTF-8 bytes, and all else that it says stays as it was. Constants keep their
indexes. The bytes in front of the number of slots, those of the old constants and those from the
flags up to the number of attributes are still there, and the attributes are the old ones apart from
the listing. -/
theorem parse_apply_sealTo {b out : Bytes} {cf : ClassFile} {subtypes : NameSet}
    (hparse : parse b = .ok cf) (hsize : cf.pool.size ≤ PoolExtension.maxSlots)
    (happly : cf.apply (.sealTo subtypes) b = .ok out) :
    ∃ cf', parse out = .ok cf'
      ∧ (∃ names, cf'.permittedSubclasses = some names ∧ (∀ n, n ∈ names ↔ n ∈ subtypes)
        ∧ names.Pairwise fun m n => Utf8.bytes m < Utf8.bytes n)
      ∧ cf'.minorVersion = cf.minorVersion ∧ cf'.majorVersion = cf.majorVersion
      ∧ cf'.access = cf.access ∧ cf'.thisName = cf.thisName ∧ cf'.superName = cf.superName
      ∧ cf'.interfaces = cf.interfaces
      ∧ cf.pool.GrowsTo cf'.pool
      ∧ out.take 8 = b.take 8
      ∧ out.slice 10 cf.layout.poolEnd = b.slice 10 cf.layout.poolEnd
      ∧ out.slice cf'.layout.poolEnd cf'.layout.attributesCount
        = b.slice cf.layout.poolEnd cf.layout.attributesCount
      ∧ ∃ (old new : Table AttributeForm) (listing : AttributeForm),
        b.drop cf.layout.attributesCount = encodeTable old
          ∧ out.drop cf'.layout.attributesCount = encodeTable new
          ∧ listing.IsListing cf'.pool ∧ listing.Lists cf'.pool subtypes.toList
          ∧ ListingPut cf.pool listing old.1 new.1 := by
  obtain ⟨f, rfl, hres, hd⟩ := parse_eq_ok.1 hparse
  have hseal : cf.sealTo f.encode subtypes.toList = .ok out := (Result.ite_eq_ok rfl).1 happly |>.2
  obtain ⟨f', listing, rfl, hs⟩ := ClassForm.sealTo_eq_ok hd hsize hseal
  obtain ⟨p, hp, hd'⟩ := hs.describes hres hd
  have hhead : f'.head = f.head := by rw [hs.rest]; rfl
  have hbody : f'.body = f.body := by rw [hs.rest]; rfl
  refine ⟨_, parse_eq_ok.2 ⟨f', rfl, hs.resolves hres, hd'⟩, ⟨subtypes.toList, congrArg some hp,
    fun n => Std.ExtTreeSet.mem_toList, subtypes.pairwise_bytes_toList⟩, rfl, rfl, rfl, rfl, rfl,
    rfl, ?_, ?_, ?_, ?_, f.attributes, f'.attributes, listing, ?_, f'.drop_attributesStart, hs.isListing,
    hs.lists, ?_⟩
  · rw [hd.pool]
    exact hs.grows
  · rw [f'.take_head, f.take_head, hhead]
  · rw [hd.layout, f.bodyStart_eq, f'.slice_constants hs.constants,
      f.slice_constants (List.prefix_refl _)]
  · rw [f'.slice_body, hd.layout, f.slice_body, hbody]
  · rw [hd.layout]
    exact f.drop_attributesStart
  · rw [hd.pool]
    exact hs.put

/-- Sealing the class `A` to `B` and `C`. -/
theorem parse_apply_sealTo_plain :
    ∃ out cf', plainClass.apply (.sealTo (NameSet.ofList ["C", "B"])) plainBytes = .ok out
      ∧ parse out = .ok cf' ∧ cf'.access = plainClass.access
      ∧ ∃ names, cf'.permittedSubclasses = some names
        ∧ ∀ n, n ∈ names ↔ n ∈ NameSet.ofList ["C", "B"] := by
  have hsize : plainClass.pool.size ≤ PoolExtension.maxSlots := by decide
  have hok : (plainClass.apply (.sealTo (NameSet.ofList ["C", "B"])) plainBytes).isOk := by
    decide +kernel
  cases happly : plainClass.apply (.sealTo (NameSet.ofList ["C", "B"])) plainBytes with
  | error cause =>
    rw [happly] at hok
    cases hok
  | ok out =>
    obtain ⟨cf', hparse', ⟨names, hnames, hmem, _⟩, _, _, haccess, _⟩ :=
      parse_apply_sealTo parse_plainBytes hsize happly
    exact ⟨out, cf', rfl, hparse', haccess, names, hnames, hmem⟩

end ClassFile

end LinkSet
