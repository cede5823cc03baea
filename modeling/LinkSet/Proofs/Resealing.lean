import LinkSet.Proofs.FirstSlots
import LinkSet.Proofs.SealedForms

/-!
# Sealing again

A class that has been sealed has all the constants that its listing needs. To seal it to the same
types once more adds nothing, and writes a listing as long as the one that is there in its place
(`ClassFile.apply_sealTo_again`).

The indexes in the listing are another matter. If the pool has a reference that leads nowhere, it may
give the slot at which a name is added. Then it stands in front of the reference that is added with
the name, and the second listing refers to it. In a closed pool all indexes are found again, and the
bytes stay as they are.
-/

namespace LinkSet

/-! ## Listings put again -/

namespace ClassForm

open AttributeForm (ListingPut)

variable {f : ClassForm} {cf : ClassFile} {names : List String} {nameIndex : UInt16}
  {indexes : Table UInt16} {t : Table AttributeForm}

theorem length_encode (f : ClassForm) : f.encode.length
    = f.attributesStart + 2 + (f.attributes.1.flatMap AttributeForm.encode).length := by
  rw [encode, attributesStart, AttributeForm.encodeTable, Table.encode]
  simp only [List.length_append, Bytes.length_ofUInt16, Nat.add_assoc]

/-- With a listing of the same names in place of the one that counts, a form says the same. -/
theorem Describes.withListing {listing : AttributeForm} (hd : f.Describes cf)
    {p : PermittedSubclasses} (hp : cf.permitted = some p)
    (hl : listing.IsListing f.pool.pool) (hnames : listing.Lists f.pool.pool p.names)
    (hput : ListingPut f.pool.pool listing f.attributes.1 t.1) :
    { f with attributes := t }.Describes cf := by
  have hlast := hd.permitted
  rw [hp] at hlast
  refine ⟨hd.minorVersion, hd.majorVersion, hd.access, hd.pool, hd.thisName, hd.noSuper,
    hd.superName, hd.interfaces, ?_, ?_⟩
  · rw [hp]
    exact hput.lastListing_of_some hlast hl hnames
  · have hlen : { f with attributes := t }.encode.length = f.encode.length := by
      rw [length_encode, length_encode, hput.length_flatMap hlast hnames]
      rfl
    rw [hd.layout, hlen]
    rfl

/-- What is known of a form that sealing has written: its pool is the extended one, and its number of
slots is that of this pool. -/
theorem exists_sealed (hd : f.Describes cf) (hsize : cf.pool.size ≤ PoolExtension.maxSlots)
    (hnodup : names.Nodup) {out : Bytes} (h : cf.sealTo f.encode names = .ok out) :
    ∃ (nameIndex : UInt16) (indexes : Table UInt16) (e : PoolExtension) (q : PoolForm)
      (t : Table AttributeForm),
      (PoolExtension.ofPool f.pool.pool).addListing names = .ok ((nameIndex, indexes.1), e)
        ∧ q.pool = e.extended ∧ q.count = UInt16.ofNat q.pool.size
        ∧ ListingPut f.pool.pool (.ofIndexes nameIndex indexes) f.attributes.1 t.1
        ∧ f.SealedAs { f with pool := q, attributes := t } (.ofIndexes nameIndex indexes) names
        ∧ { f with pool := q, attributes := t }.encode = out := by
  have hbind := h
  rw [sealTo_eq_bind, hd.pool] at hbind
  rw [hd.pool] at hsize
  obtain ⟨⟨⟨nameIndex, indexes⟩, e⟩, hadd, _⟩ := Result.bind_eq_ok.1 hbind
  obtain ⟨indexes, q, rfl, hq, hconstants, hbytes⟩ := f.pool.exists_listed hsize hnodup hadd
  have hcount : q.count = UInt16.ofNat q.pool.size := by
    rw [PoolForm.encode, List.append_assoc] at hbytes
    rw [(delimited_ofUInt16 hbytes).1, hq, e.size_extended]
  rcases sealTo_encode hd hadd hbytes with ⟨t, hput, _, hout⟩ | ⟨_, _, hout⟩
  · exact ⟨nameIndex, indexes, e, q, t, hadd, hq, hcount, hput,
      sealedAs_of_addListing hnodup hadd hq hconstants hput, Except.ok.inj (hout.symm.trans h)⟩
  · cases hout.symm.trans h

/-- A form in which all of a listing is found, and which lists the same names already, is sealed by
putting a listing among its attributes. It says the same as before. -/
theorem exists_sealed_again (hres : f.Resolves) (hd : f.Describes cf) {p : PermittedSubclasses}
    (hp : cf.permitted = some p) (hcount : f.pool.count = UInt16.ofNat f.pool.pool.size)
    (hfinds : f.pool.pool.FindsListing p.names nameIndex indexes.1) :
    ∃ t : Table AttributeForm,
      ListingPut f.pool.pool (.ofIndexes nameIndex indexes) f.attributes.1 t.1
        ∧ cf.sealTo f.encode p.names = .ok { f with attributes := t }.encode
        ∧ { f with attributes := t }.Resolves ∧ { f with attributes := t }.Describes cf := by
  have hbytes : f.pool.encode = Bytes.ofUInt16 (UInt16.ofNat (PoolExtension.ofPool f.pool.pool).size)
      ++ f.pool.constants.flatMap ConstantForm.encode
      ++ (PoolExtension.ofPool f.pool.pool).addedBytes := by
    rw [PoolForm.encode, hcount]
    exact (List.append_nil _).symm
  have hl : (AttributeForm.ofIndexes nameIndex indexes).IsListing f.pool.pool := hfinds.slot?_name
  have hnames : (AttributeForm.ofIndexes nameIndex indexes).Lists f.pool.pool p.names :=
    ⟨indexes, rfl, names_of_refers hfinds.refers⟩
  rcases sealTo_encode hd (PoolExtension.addListing_of_found hfinds) hbytes with
    ⟨t, hput, _, hout⟩ | ⟨hmissing, _⟩
  · have hattributes := hput.resolves (.refl _) hres.attributes
      ⟨⟨_, hl⟩, fun _ => ⟨p.names, hnames⟩⟩
    exact ⟨t, hput, hout, ⟨hres.thisIndex, hres.superIndex, hres.interfaces, hattributes⟩,
      hd.withListing hp hl hnames hput⟩
  · rw [hp] at hmissing
    cases hmissing

theorem Describes.slice_pool (hd : f.Describes cf) :
    Bytes.slice f.encode 8 cf.layout.poolEnd = f.pool.encode := by
  rw [hd.layout, encode, List.append_assoc]
  exact Bytes.slice_mid f.length_head.symm rfl

end ClassForm

namespace ClassFile

/-- To seal a sealed class to the same types again succeeds, and what comes out is as long, has the
same constants and says the same. If all references to classes in the first pool give slots that it
has, not a byte changes. -/
theorem apply_sealTo_again {b out : Bytes} {cf : ClassFile} {subtypes : NameSet}
    (hparse : parse b = .ok cf) (hsize : cf.pool.size ≤ PoolExtension.maxSlots)
    (happly : cf.apply (.sealTo subtypes) b = .ok out) :
    ∃ cf' out', parse out = .ok cf' ∧ cf'.apply (.sealTo subtypes) out = .ok out'
      ∧ out'.length = out.length
      ∧ out'.slice 8 cf'.layout.poolEnd = out.slice 8 cf'.layout.poolEnd
      ∧ parse out' = .ok cf'
      ∧ (cf.pool.Closed → out' = out) := by
  obtain ⟨f, rfl, hres, hd⟩ := parse_eq_ok.1 hparse
  have hnodup := subtypes.nodup_toList
  rw [hd.apply_sealTo] at happly
  obtain ⟨nameIndex, indexes, e, q, t, hadd, hq, hcount, hput, hs, rfl⟩ :=
    ClassForm.exists_sealed hd hsize hnodup happly
  obtain ⟨p, hp, hd'⟩ := hs.describes hres hd
  have hres' := hs.resolves hres
  rw [hd.pool] at hsize ⊢
  obtain ⟨nameIndex', indexes', hfinds, hsame⟩ :=
    PoolExtension.exists_findsListing_of_addListing f.pool hsize hnodup hadd
  rw [← hq] at hfinds
  have hlength := PoolExtension.length_le_of_addListing q hnodup
    (PoolExtension.addListing_of_found hfinds)
  obtain ⟨indexes', rfl⟩ : ∃ table : Table UInt16, table.1 = indexes' :=
    ⟨⟨indexes', Nat.lt_succ_of_le hlength⟩, rfl⟩
  rw [← hp] at hfinds
  obtain ⟨t', hput', hseal', hres'', hd''⟩ :=
    ClassForm.exists_sealed_again hres' hd' rfl hcount hfinds
  rw [hp, ← hd'.apply_sealTo] at hseal'
  refine ⟨_, _, parse_eq_ok.2 ⟨_, rfl, hres', hd'⟩, hseal', ?_, ?_,
    parse_eq_ok.2 ⟨_, rfl, hres'', hd''⟩, fun hc => ?_⟩
  · exact congrArg ClassLayout.size (hd''.layout.symm.trans hd'.layout)
  · rw [hd'.slice_pool, hd''.slice_pool]
  · obtain ⟨rfl, hindexes⟩ := hsame hc
    obtain rfl := Subtype.ext hindexes
    have hagain := hput.again hs.grows hres.attributes hs.isListing
    obtain rfl : t' = t := Subtype.ext (hagain.unique hput')
    rfl

/-- The class `A` is sealed to `B` and `C` once and for all. -/
theorem apply_sealTo_again_plain :
    ∃ out cf', plainClass.apply (.sealTo (NameSet.ofList ["C", "B"])) plainBytes = .ok out
      ∧ parse out = .ok cf' ∧ cf'.apply (.sealTo (NameSet.ofList ["C", "B"])) out = .ok out := by
  have hsize : plainClass.pool.size ≤ PoolExtension.maxSlots := by decide
  have hclosed : plainClass.pool.Closed := by
    intro i nameIndex hslot
    obtain ⟨hi, hget⟩ := Array.getElem?_eq_some_iff.1 hslot
    have hcases : i = 0 ∨ i = 1 ∨ i = 2 := by
      have hlt : i < 3 := hi
      omega
    rcases hcases with rfl | rfl | rfl <;> cases hget
    decide
  have hok : (plainClass.apply (.sealTo (NameSet.ofList ["C", "B"])) plainBytes).isOk := by
    decide +kernel
  cases happly : plainClass.apply (.sealTo (NameSet.ofList ["C", "B"])) plainBytes with
  | error cause =>
    rw [happly] at hok
    cases hok
  | ok out =>
    obtain ⟨cf', out', hparse', hagain, _, _, _, hsame⟩ := apply_sealTo_again parse_plainBytes hsize happly
    rw [hsame hclosed] at hagain
    exact ⟨out, cf', rfl, hparse', hagain⟩

/-- The bytes of a class `A` with a reference to a class whose name would be in slot 5, behind the
end of the pool. -/
def danglingBytes : Bytes :=
  [0xCA, 0xFE, 0xBA, 0xBE, 0, 0, 0, 52] ++ [0, 4, 1, 0, 1, 65, 7, 0, 1, 7, 0, 5]
    ++ [0, 0x21, 0, 2, 0, 0, 0, 0, 0, 0, 0, 0, 0, 0]

/-- Sealed to `B`, whose name comes to slot 5, the class lists slot 6, which was added for it. Sealed
again, it lists slot 3, which leads to the same name by now. -/
example :
    (do let out ← revise (.sealTo (NameSet.ofList ["B"])) danglingBytes
        let out' ← revise (.sealTo (NameSet.ofList ["B"])) out
        return (out.drop 69, out'.drop 69))
      = Except.ok ([0, 1, 0, 6], [0, 1, 0, 3]) := by
  decide +kernel

end ClassFile

end LinkSet
