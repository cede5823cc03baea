import LinkSet.Proofs.FormUniqueness
import LinkSet.Proofs.PoolRoom
import LinkSet.Proofs.Sealing

/-!
# Changed class files

To mark a class final is to write the form with one flag more (`ClassForm.markFinal_encode`).
Together with what is known of sealing, this says for each decision what the class file that comes
out of it says (`ClassForm.apply_eq_ok`, `ClassFile.parse_changed`).

A pool of 65536 slots, which a wide constant in the last slot can bring about, is the one exception:
its number of slots cannot be written. Sealed without a new constant, such a class file is not one
any more (`ClassFile.size_le_of_parse_sealTo`), so what can be read after a change says what it has
to in any case (`ClassFile.changedBy_of_parse`).
-/

namespace LinkSet

/-! ## Other flags -/

namespace ClassForm

variable {f : ClassForm} {cf : ClassFile} {flags : UInt16}

theorem attributesStart_withFlags : { f with flags }.attributesStart = f.attributesStart := by
  simp only [attributesStart, head, body, List.length_append, Bytes.length_ofUInt16]

theorem length_withFlags : { f with flags }.encode.length = f.encode.length := by
  simp only [encode, head, body, List.length_append, Bytes.length_ofUInt16]

/-- No index depends on the flags. -/
theorem Resolves.withFlags (h : f.Resolves) : { f with flags }.Resolves :=
  ⟨h.thisIndex, h.superIndex, h.interfaces, h.attributes⟩

/-- With other flags, a form says the same apart from them, in the same places. -/
theorem Describes.withFlags (hd : f.Describes cf) :
    { f with flags }.Describes { cf with access := ⟨flags⟩ } := by
  refine ⟨hd.minorVersion, hd.majorVersion, rfl, hd.pool, hd.thisName, hd.noSuper, hd.superName,
    hd.interfaces, ?_, ?_⟩
  · rw [attributesStart_withFlags]
    exact hd.permitted
  · rw [attributesStart_withFlags, length_withFlags]
    exact hd.layout

/-- What stands behind the flags. -/
def behindFlags (f : ClassForm) : Bytes :=
  Bytes.ofUInt16 f.thisIndex ++ Bytes.ofUInt16 f.superIndex ++ f.interfaces.encode Bytes.ofUInt16
    ++ f.fields.encode MemberForm.encode ++ f.methods.encode MemberForm.encode
    ++ AttributeForm.encodeTable f.attributes

/-- What stands between the flags and the attributes of the class. -/
def inner (f : ClassForm) : Bytes :=
  Bytes.ofUInt16 f.thisIndex ++ Bytes.ofUInt16 f.superIndex ++ f.interfaces.encode Bytes.ofUInt16
    ++ f.fields.encode MemberForm.encode ++ f.methods.encode MemberForm.encode

theorem slice_inner (f : ClassForm) :
    Bytes.slice f.encode (f.bodyStart + 2) f.attributesStart = f.inner := by
  have hbody : f.body = Bytes.ofUInt16 f.flags ++ f.inner := by
    simp only [body, inner, List.append_assoc]
  have hfront : (f.head ++ f.pool.encode) ++ f.body
      = (f.head ++ f.pool.encode ++ Bytes.ofUInt16 f.flags) ++ f.inner := by
    rw [hbody]
    simp only [List.append_assoc]
  rw [encode, attributesStart, hfront]
  refine Bytes.slice_mid ?_ rfl
  rw [List.length_append, Bytes.length_ofUInt16]
  rfl

theorem encode_eq_flags (f : ClassForm) :
    f.encode = (f.head ++ f.pool.encode) ++ Bytes.ofUInt16 f.flags ++ f.behindFlags := by
  simp only [encode, body, behindFlags, List.append_assoc]

/-- Marking final writes the flags with one more of them. -/
theorem markFinal_encode (hd : f.Describes cf) :
    cf.markFinal f.encode = { f with flags := f.flags ||| AccessFlags.finalBit }.encode := by
  have hfront : f.encode.take cf.layout.poolEnd = f.head ++ f.pool.encode := by
    rw [hd.layout, encode_eq_flags, List.append_assoc]
    exact List.take_left
  have hback : f.encode.drop (cf.layout.poolEnd + 2) = f.behindFlags := by
    have hcut : cf.layout.poolEnd + 2
        = (f.head ++ f.pool.encode ++ Bytes.ofUInt16 f.flags).length := by
      rw [hd.layout, List.length_append, Bytes.length_ofUInt16]
      rfl
    rw [encode_eq_flags]
    exact Bytes.drop_end hcut
  rw [ClassFile.markFinal, hfront, hback, hd.access, encode_eq_flags]
  rfl

end ClassForm

/-! ## Decisions carried out -/

namespace ClassFile

/-- What the class file says once the decision has been carried out on it. -/
def ChangedBy (decision : Decision) (cf cf' : ClassFile) : Prop :=
  match decision with
  | .keep => cf' = cf
  | .markFinal => cf' = { cf with access := cf.access.insert AccessFlags.finalBit }
  | .sealTo subtypes => ∃ p : PermittedSubclasses, p.names = subtypes.toList
      ∧ cf.pool.GrowsTo cf'.pool
      ∧ cf' = { cf with permitted := some p, pool := cf'.pool, layout := cf'.layout }

variable {cf cf' : ClassFile} {decision : Decision}

/-- Class files that say the same, apart from whether the class is final and what it permits, and
whose constants are at the same indexes. -/
structure Alike (cf cf' : ClassFile) : Prop where
  minorVersion : cf'.minorVersion = cf.minorVersion
  majorVersion : cf'.majorVersion = cf.majorVersion
  otherFlags : cf'.access.bits &&& ~~~AccessFlags.finalBit
    = cf.access.bits &&& ~~~AccessFlags.finalBit
  thisName : cf'.thisName = cf.thisName
  superName : cf'.superName = cf.superName
  interfaces : cf'.interfaces = cf.interfaces
  grows : cf.pool.GrowsTo cf'.pool

theorem Alike.refl (cf : ClassFile) : cf.Alike cf := ⟨rfl, rfl, rfl, rfl, rfl, rfl, .refl _⟩

theorem Alike.trans {cf₁ : ClassFile} (h₁ : cf.Alike cf₁) (h₂ : cf₁.Alike cf') : cf.Alike cf' where
  minorVersion := h₂.minorVersion.trans h₁.minorVersion
  majorVersion := h₂.majorVersion.trans h₁.majorVersion
  otherFlags := h₂.otherFlags.trans h₁.otherFlags
  thisName := h₂.thisName.trans h₁.thisName
  superName := h₂.superName.trans h₁.superName
  interfaces := h₂.interfaces.trans h₁.interfaces
  grows := h₁.grows.trans h₂.grows

theorem ChangedBy.alike (h : ChangedBy decision cf cf') : cf.Alike cf' := by
  cases decision with
  | keep =>
    obtain rfl := h
    exact .refl _
  | markFinal =>
    obtain rfl := h
    exact ⟨rfl, rfl, AccessFlags.insert_and_not, rfl, rfl, rfl, .refl _⟩
  | sealTo subtypes =>
    obtain ⟨_, _, hgrows, hcf⟩ := h
    rw [hcf]
    exact ⟨rfl, rfl, rfl, rfl, rfl, rfl, hgrows⟩

theorem ChangedBy.contains (h : ChangedBy decision cf cf') {mask : UInt16}
    (hmask : AccessFlags.finalBit &&& mask = 0) :
    cf'.access.contains mask = cf.access.contains mask := by
  cases decision with
  | keep => rw [show cf' = cf from h]
  | markFinal =>
    obtain rfl := h
    exact AccessFlags.contains_insert_of_disjoint hmask
  | sealTo subtypes =>
    obtain ⟨_, _, _, hcf⟩ := h
    rw [hcf]

theorem ChangedBy.isFinal_iff (h : ChangedBy decision cf cf') :
    cf'.isFinal = true ↔ cf.isFinal = true ∨ decision = .markFinal := by
  cases decision with
  | keep =>
    obtain rfl := h
    simp
  | markFinal =>
    obtain rfl := h
    have hfinal : (cf.access.insert AccessFlags.finalBit).contains AccessFlags.finalBit = true :=
      AccessFlags.contains_insert_self
    simp [isFinal, hfinal]
  | sealTo subtypes =>
    obtain ⟨_, _, _, hcf⟩ := h
    rw [hcf]
    simp [isFinal]

/-- A class permits the types that it is sealed to, in order, and else what it did. -/
theorem ChangedBy.permittedSubclasses_eq (h : ChangedBy decision cf cf') :
    cf'.permittedSubclasses
      = (decision.subtypes?.map fun subtypes => subtypes.toList).or cf.permittedSubclasses := by
  cases decision with
  | keep =>
    obtain rfl := h
    rfl
  | markFinal =>
    obtain rfl := h
    rfl
  | sealTo subtypes =>
    obtain ⟨p, hp, _, hcf⟩ := h
    rw [hcf]
    exact congrArg some hp

theorem apply_keep {b : Bytes} {cf : ClassFile} (h : parse b = .ok cf) :
    cf.apply .keep b = .ok b := by
  obtain ⟨f, rfl, _, hd⟩ := parse_eq_ok.1 h
  have hsize : f.encode.length = cf.layout.size := by rw [hd.layout]
  rw [apply, if_pos hsize]

end ClassFile

namespace ClassForm

variable {f : ClassForm} {cf : ClassFile}

/-- A decision that is carried out on a form writes a form again. The constants of the first are
those that the second begins with, and what stands between the flags and the attributes is the same
in both. -/
theorem apply_eq_ok {decision : Decision} {out : Bytes} (hres : f.Resolves) (hd : f.Describes cf)
    (hsize : ∀ names, decision = .sealTo names → cf.pool.size ≤ PoolExtension.maxSlots)
    (h : cf.apply decision f.encode = .ok out) :
    ∃ (f' : ClassForm) (cf' : ClassFile), f'.encode = out ∧ f'.Resolves ∧ f'.Describes cf'
      ∧ ClassFile.ChangedBy decision cf cf' ∧ f.pool.constants <+: f'.pool.constants
      ∧ f'.inner = f.inner := by
  cases decision with
  | keep =>
    obtain ⟨_, h⟩ := (Result.ite_eq_ok rfl).1 h
    exact ⟨f, cf, Except.ok.inj h, hres, hd, rfl, List.prefix_refl _, rfl⟩
  | markFinal =>
    obtain ⟨_, h⟩ := (Result.ite_eq_ok rfl).1 h
    obtain rfl := Except.ok.inj h
    refine ⟨_, _, (markFinal_encode hd).symm, hres.withFlags, hd.withFlags, ?_, List.prefix_refl _,
      rfl⟩
    rw [ClassFile.ChangedBy, AccessFlags.insert, hd.access]
  | sealTo subtypes =>
    obtain ⟨_, h⟩ := (Result.ite_eq_ok rfl).1 h
    obtain ⟨f', listing, rfl, hs⟩ := sealTo_eq_ok hd (hsize _ rfl) h
    obtain ⟨p, hp, hd'⟩ := hs.describes hres hd
    have hgrows : cf.pool.GrowsTo f'.pool.pool := by
      rw [hd.pool]
      exact hs.grows
    have hinner : f'.inner = f.inner := by
      rw [hs.rest]
      rfl
    refine ⟨f', _, rfl, hs.resolves hres, hd', ?_, hs.constants, hinner⟩
    exact ⟨p, hp, hgrows, rfl⟩

end ClassForm

namespace ClassFile

/-- A class file on which a decision has been carried out is a class file again. Only sealing needs
room in the pool. -/
theorem parse_apply {b out : Bytes} {cf : ClassFile} {decision : Decision}
    (hparse : parse b = .ok cf)
    (hsize : ∀ names, decision = .sealTo names → cf.pool.size ≤ PoolExtension.maxSlots)
    (happly : cf.apply decision b = .ok out) :
    ∃ cf', parse out = .ok cf' ∧ ChangedBy decision cf cf' := by
  obtain ⟨f, rfl, hres, hd⟩ := parse_eq_ok.1 hparse
  obtain ⟨f', cf', rfl, hres', hd', hchanged, _⟩ := ClassForm.apply_eq_ok hres hd hsize happly
  exact ⟨cf', parse_eq_ok.2 ⟨f', rfl, hres', hd'⟩, hchanged⟩

theorem parse_changed {b out : Bytes} {cf : ClassFile} {decision : Decision}
    (hparse : parse b = .ok cf) (hsize : cf.pool.size ≤ PoolExtension.maxSlots)
    (happly : cf.apply decision b = .ok out) :
    ∃ cf', parse out = .ok cf' ∧ ChangedBy decision cf cf' :=
  parse_apply hparse (fun _ _ => hsize) happly

/-! ## Pools with a slot too many -/

variable {b out : Bytes} {cf cf' : ClassFile}

/-- No index leads anywhere in a class file that announces no slots. -/
theorem ne_zero_of_resolves {f : ClassForm} (hres : f.Resolves) : f.pool.count ≠ 0 := by
  intro hzero
  obtain ⟨name, _, ⟨nameIndex, hslot, _⟩, _⟩ := hres.thisIndex
  have hfills := f.pool.fills
  rw [hzero] at hfills
  have hnone : f.pool.constants = [] := by
    cases hconstants : f.pool.constants with
    | nil => rfl
    | cons x xs =>
      rw [hconstants] at hfills
      exact absurd (ConstantForm.fills_cons.1 hfills).1 (Nat.lt_irrefl 0)
  have hempty : f.pool.pool = .empty := by
    rw [PoolForm.pool, hnone]
    rfl
  rw [hempty] at hslot
  obtain ⟨hlt, hget⟩ := Array.getElem?_eq_some_iff.1 hslot
  have hfirst : f.thisIndex.toNat = 0 := Nat.lt_one_iff.1 hlt
  simp [ConstantPool.empty, hfirst] at hget

/-- A class file that can be read after it has been sealed had a number of slots that can be
written. -/
theorem size_le_of_parse_sealTo {subtypes : NameSet} (hparse : parse b = .ok cf)
    (happly : cf.apply (.sealTo subtypes) b = .ok out) (hout : parse out = .ok cf') :
    cf.pool.size ≤ PoolExtension.maxSlots := by
  by_contra hlarge
  obtain ⟨f, rfl, _, hd⟩ := parse_eq_ok.1 hparse
  obtain ⟨_, hseal⟩ := (Result.ite_eq_ok rfl).1 happly
  obtain ⟨nameIndex, e₁, indexes, e, tail, hname, hclasses, _, _, rfl⟩ :=
    ClassForm.sealTo_steps hseal
  have hgrows := (PoolExtension.grows_addUtf8 hname).trans (PoolExtension.grows_addClasses hclasses)
  have hstart : (PoolExtension.ofPool cf.pool).size = cf.pool.size := rfl
  have hsize : e.size = 65536 := by
    have hbound := f.pool.size_le
    rw [← hd.pool] at hbound
    have hroom := hgrows.room
    have hle := hgrows.le_size
    unfold PoolExtension.maxSlots at hlarge hroom
    rcases hroom with rfl | hroom
    · omega
    · omega
  obtain ⟨g, hg, hres, _⟩ := parse_eq_ok.1 hout
  -- behind a head of eight bytes, the number of slots is written as 0
  have hbytes : g.head ++ (Bytes.ofUInt16 g.pool.count
        ++ (g.pool.constants.flatMap ConstantForm.encode
          ++ (g.body ++ AttributeForm.encodeTable g.attributes)))
      = f.head ++ (Bytes.ofUInt16 0
        ++ (Bytes.slice f.encode 10 cf.layout.poolEnd ++ (e.addedBytes ++ tail))) := by
    have hzero : UInt16.ofNat e.size = 0 := by rw [hsize]; rfl
    rw [ClassForm.encode, PoolForm.encode, f.take_head, hzero] at hg
    simpa only [List.append_assoc] using hg
  obtain ⟨_, hrest⟩ := List.append_inj hbytes rfl
  exact ne_zero_of_resolves hres (delimited_ofUInt16 hrest).1

/-- What can be read after a decision has been carried out says what it has to. -/
theorem changedBy_of_parse {decision : Decision} (hparse : parse b = .ok cf)
    (happly : cf.apply decision b = .ok out) (hout : parse out = .ok cf') :
    ChangedBy decision cf cf' := by
  have hsize : ∀ names, decision = .sealTo names → cf.pool.size ≤ PoolExtension.maxSlots := by
    rintro names rfl
    exact size_le_of_parse_sealTo hparse happly hout
  obtain ⟨cf₁, hout₁, hchanged⟩ := parse_apply hparse hsize happly
  obtain rfl := Except.ok.inj (hout₁.symm.trans hout)
  exact hchanged

end ClassFile

end LinkSet
