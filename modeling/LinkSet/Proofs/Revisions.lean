import LinkSet.Proofs.Changed

/-!
# Revisions

A class file can be changed any number of times: it is read, a decision is carried out on it, and
what comes out is read again (`ClassFile.reviseAll`). Each of these revisions leaves what
`ClassFile.Revision` says, and a run of them is a chain of such steps (`ClassFile.Revised`), so what
holds of a run is shown step by step.

The pool may grow with each revision, but a constant is added only if the pool lacks it. So the size
of the pool together with all that it still lacks never grows (`ConstantPool.ceiling`), and this
bounds what a run of any length adds.
-/

namespace LinkSet

/-! ## Sets of names that are sealed to -/

namespace Decision

/-- The types of the last decision that seals. -/
def lastSubtypes? (decisions : List Decision) : Option NameSet :=
  (decisions.filterMap subtypes?).getLast?

/-- All names that the decisions seal to. -/
def listedNames (decisions : List Decision) : NameSet :=
  NameSet.ofList ((decisions.filterMap subtypes?).flatMap fun subtypes => subtypes.toList)

theorem lastSubtypes?_cons (d : Decision) (ds : List Decision) :
    lastSubtypes? (d :: ds) = (lastSubtypes? ds).or d.subtypes? := by
  unfold lastSubtypes?
  cases hd : d.subtypes? with
  | none => rw [List.filterMap_cons_none hd, Option.or_none]
  | some subtypes =>
    rw [List.filterMap_cons_some hd, List.getLast?_cons]
    cases (ds.filterMap subtypes?).getLast? <;> rfl

theorem mem_listedNames {decisions : List Decision} {d : Decision} (hd : d ∈ decisions)
    {subtypes : NameSet} (hsubtypes : d.subtypes? = some subtypes) {n : String}
    (hn : n ∈ subtypes) : n ∈ listedNames decisions := by
  rw [listedNames, NameSet.mem_ofList, List.mem_flatMap]
  exact ⟨subtypes, List.mem_filterMap.2 ⟨d, hd, hsubtypes⟩, Std.ExtTreeSet.mem_toList.2 hn⟩

end Decision

theorem NameSet.nodup_toList (names : NameSet) : names.toList.Nodup :=
  names.distinct_toList.imp fun {a b} hne heq => hne (by rw [heq]; exact Std.ReflCmp.compare_self)

/-- The names of a set as a finite set of as many members. -/
theorem NameSet.exists_finset (names : NameSet) :
    ∃ s : Finset String, s.card = names.size ∧ ∀ n ∈ names, n ∈ s := by
  refine ⟨names.toList.toFinset, ?_, fun n hn => ?_⟩
  · rw [List.toFinset_card_of_nodup names.nodup_toList, Std.ExtTreeSet.length_toList]
  · exact List.mem_toFinset.2 (Std.ExtTreeSet.mem_toList.2 hn)

/-! ## How far a pool can grow -/

namespace ConstantPool

variable {pool : ConstantPool} {names : Finset String}

/-- How many slots the pool has, and how many more it can get by listing some of these names. -/
def ceiling (pool : ConstantPool) (names : Finset String) : Nat :=
  pool.size + pool.lacking (ModifiedUtf8.encode PermittedSubclasses.attributeName) names

theorem size_le_ceiling : pool.size ≤ pool.ceiling names := Nat.le_add_right _ _

theorem ceiling_le : pool.ceiling names ≤ pool.size + 1 + 2 * names.card := by
  have hlacking :=
    pool.lacking_le (ModifiedUtf8.encode PermittedSubclasses.attributeName) names
  unfold ceiling
  omega

end ConstantPool

namespace PoolExtension

/-- Constants for a listing are paid for by what the pool lacked of it. -/
theorem ceiling_extended_le {pool : ConstantPool} {subtypes : NameSet}
    (hsize : pool.size ≤ maxSlots) {e₁ e : PoolExtension} {nameIndex : UInt16}
    {indexes : List UInt16}
    (hname : (ofPool pool).addUtf8 (ModifiedUtf8.encode PermittedSubclasses.attributeName)
      = .ok (nameIndex, e₁))
    (hclasses : e₁.addClasses (subtypes.toList.map ModifiedUtf8.encode) = .ok (indexes, e)) :
    e.extended.size ≤ maxSlots ∧ ∀ names : Finset String, (∀ n ∈ subtypes, n ∈ names) →
      e.extended.ceiling names ≤ pool.ceiling names := by
  obtain ⟨h₁, htext⟩ := addUtf8_spec (sound_ofPool hsize) hname
  obtain ⟨h₂, hrefers⟩ := addClasses_spec h₁.sound hclasses
  have hleads := h₁.trans h₂
  have hgrows : pool.GrowsTo e.extended := by
    have h := e.pool_growsTo_extended
    rwa [hleads.pool_eq] at h
  have hlisting : e.extended.lacksText (ModifiedUtf8.encode PermittedSubclasses.attributeName)
      = false := ConstantPool.lacksText_eq_false_iff.2 ⟨nameIndex, h₂.grows _ _ htext⟩
  have hlisted : ∀ n ∈ subtypes.toList,
      e.extended.lacksClass (ModifiedUtf8.encode n) = false := by
    intro n hn
    obtain ⟨index, _, hindex⟩ :=
      Result.forall₂_mem hrefers.flip (List.mem_map_of_mem hn)
    exact ConstantPool.lacksClass_eq_false_iff.2 ⟨index, hindex⟩
  have hcount : e.size ≤ pool.size
      + ((if pool.lacksText (ModifiedUtf8.encode PermittedSubclasses.attributeName) then 1 else 0)
        + 2 * (subtypes.toList.map ModifiedUtf8.encode).countP pool.lacksClass) := by
    have h := ((grows_addUtf8 hname).trans (grows_addClasses hclasses)).size_le
    rw [show e₁.pool = pool from h₁.pool_eq] at h
    exact h
  have hroom := hleads.sound.size_le
  rw [size_extended]
  refine ⟨hroom, fun names hnames => ?_⟩
  have hpays := hgrows.lacking_add_le subtypes.nodup_toList
    (fun n hn => hnames n (Std.ExtTreeSet.mem_toList.1 hn)) hlisting hlisted
  rw [ConstantPool.ceiling, ConstantPool.ceiling, size_extended]
  omega

end PoolExtension

namespace ClassForm

theorem ceiling_of_sealTo {f f' : ClassForm} {cf : ClassFile} (hd : f.Describes cf)
    (hsize : cf.pool.size ≤ PoolExtension.maxSlots) {subtypes : NameSet}
    (h : cf.sealTo f.encode subtypes.toList = .ok f'.encode) :
    f'.pool.pool.size ≤ PoolExtension.maxSlots
      ∧ ∀ names : Finset String, (∀ n ∈ subtypes, n ∈ names) →
        f'.pool.pool.ceiling names ≤ cf.pool.ceiling names := by
  obtain ⟨g, _, nameIndex, e₁, indexes, e, hg, _, hname, hclasses, hpool⟩ :=
    sealTo_written hd hsize h
  -- the bytes tell the form, so this is the form whose pool was extended
  obtain rfl := encode_injective hg
  rw [hpool]
  exact PoolExtension.ceiling_extended_le hsize hname hclasses

end ClassForm

namespace ClassFile

/-! ## Steps -/

/-- Reads a class file and carries a decision out on it. -/
def revise (decision : Decision) (bytes : Bytes) : Except ClassFileError Bytes := do
  let cf ← parse bytes
  cf.apply decision bytes

/-- Carries decisions out one after the other, each on what has come of those before. -/
def reviseAll (decisions : List Decision) (bytes : Bytes) : Except ClassFileError Bytes :=
  decisions.foldlM (fun bytes decision => revise decision bytes) bytes

variable {b b' out : Bytes} {cf cf' : ClassFile} {d : Decision} {ds : List Decision}

/-- What one revision makes of a class file. -/
structure Revision (d : Decision) (b : Bytes) (cf : ClassFile) (b' : Bytes) (cf' : ClassFile) :
    Prop where
  parse_eq : parse b' = .ok cf'
  changed : ChangedBy d cf cf'
  constants : b.slice 10 cf.layout.poolEnd <+: b'.slice 10 cf'.layout.poolEnd
  inner : b'.slice (cf'.layout.poolEnd + 2) cf'.layout.attributesCount
    = b.slice (cf.layout.poolEnd + 2) cf.layout.attributesCount
  size_le : cf'.pool.size ≤ PoolExtension.maxSlots
  ceiling_le : ∀ names : Finset String, (∀ subtypes, d.subtypes? = some subtypes →
    ∀ n ∈ subtypes, n ∈ names) → cf'.pool.ceiling names ≤ cf.pool.ceiling names

theorem poolEnd_le_length (hparse : parse b = .ok cf) : cf.layout.poolEnd ≤ b.length := by
  obtain ⟨f, rfl, _, hd⟩ := parse_eq_ok.1 hparse
  rw [hd.layout, ClassForm.encode, List.append_assoc, List.length_append]
  exact Nat.le_add_right _ _

theorem revise_eq_ok (hparse : parse b = .ok cf) :
    revise d b = .ok b' ↔ cf.apply d b = .ok b' := by
  rw [revise, hparse]
  exact Iff.rfl

theorem exists_revision (hparse : parse b = .ok cf)
    (hsize : cf.pool.size ≤ PoolExtension.maxSlots) (h : revise d b = .ok b') :
    ∃ cf', Revision d b cf b' cf' := by
  have happly := (revise_eq_ok hparse).1 h
  obtain ⟨f, rfl, hres, hd⟩ := parse_eq_ok.1 hparse
  obtain ⟨f', cf', rfl, hres', hd', hchanged, hconstants, hinner⟩ :=
    ClassForm.apply_eq_ok hres hd (fun _ _ => hsize) happly
  have hkept : Bytes.slice f.encode 10 cf.layout.poolEnd
      <+: Bytes.slice f'.encode 10 cf'.layout.poolEnd := by
    rw [hd.slice_constants, hd'.slice_constants]
    exact hconstants.flatMap _
  have hsame : Bytes.slice f'.encode (cf'.layout.poolEnd + 2) cf'.layout.attributesCount
      = Bytes.slice f.encode (cf.layout.poolEnd + 2) cf.layout.attributesCount := by
    rw [hd.layout, hd'.layout, f.slice_inner, f'.slice_inner, hinner]
  have hroom : cf'.pool.size ≤ PoolExtension.maxSlots
      ∧ ∀ names : Finset String, (∀ subtypes, d.subtypes? = some subtypes →
        ∀ n ∈ subtypes, n ∈ names) → cf'.pool.ceiling names ≤ cf.pool.ceiling names := by
    cases d with
    | keep =>
      obtain rfl := hchanged
      exact ⟨hsize, fun names _ => Nat.le_refl _⟩
    | markFinal =>
      obtain rfl := hchanged
      exact ⟨hsize, fun names _ => Nat.le_refl _⟩
    | sealTo subtypes =>
      obtain ⟨_, hseal⟩ := (Result.ite_eq_ok rfl).1 happly
      obtain ⟨hsize', hceiling⟩ := ClassForm.ceiling_of_sealTo hd hsize hseal
      rw [hd'.pool]
      exact ⟨hsize', fun names hnames => hceiling names (hnames subtypes rfl)⟩
  exact ⟨cf', parse_eq_ok.2 ⟨f', rfl, hres', hd'⟩, hchanged, hkept, hsame, hroom.1, hroom.2⟩

/-! ## Runs -/

/-- The second class file has come from the first by revisions, one for each decision. -/
inductive Revised : List Decision → Bytes → ClassFile → Bytes → ClassFile → Prop
  | none {b : Bytes} {cf : ClassFile} : Revised [] b cf b cf
  | more {d : Decision} {ds : List Decision} {b b₁ b' : Bytes} {cf cf₁ cf' : ClassFile}
    (first : Revision d b cf b₁ cf₁) (rest : Revised ds b₁ cf₁ b' cf') :
    Revised (d :: ds) b cf b' cf'

theorem exists_revised (hparse : parse b = .ok cf)
    (hsize : cf.pool.size ≤ PoolExtension.maxSlots) (h : reviseAll ds b = .ok b') :
    ∃ cf', Revised ds b cf b' cf' := by
  induction ds generalizing b cf with
  | nil =>
    obtain rfl := Result.pure_eq_ok.1 h
    exact ⟨cf, .none⟩
  | cons d ds ih =>
    rw [reviseAll, List.foldlM_cons] at h
    obtain ⟨b₁, hfirst, hrest⟩ := Result.bind_eq_ok.1 h
    obtain ⟨cf₁, hrevision⟩ := exists_revision hparse hsize hfirst
    obtain ⟨cf', hrevised⟩ := ih hrevision.parse_eq hrevision.size_le hrest
    exact ⟨cf', .more hrevision hrevised⟩

theorem reviseAll_of_prefix {front : List Decision} (hfront : front <+: ds)
    (h : reviseAll ds b = .ok out) : ∃ b', reviseAll front b = .ok b' := by
  obtain ⟨back, rfl⟩ := hfront
  rw [reviseAll, List.foldlM_append] at h
  obtain ⟨b', hb', _⟩ := Result.bind_eq_ok.1 h
  exact ⟨b', hb'⟩

namespace Revised

theorem parse_eq (h : Revised ds b cf b' cf') (hparse : parse b = .ok cf) :
    parse b' = .ok cf' := by
  induction h with
  | none => exact hparse
  | more first _ ih => exact ih first.parse_eq

theorem alike (h : Revised ds b cf b' cf') : cf.Alike cf' := by
  induction h with
  | none => exact .refl _
  | more first _ ih => exact first.changed.alike.trans ih

theorem isFinal_iff (h : Revised ds b cf b' cf') :
    cf'.isFinal = true ↔ cf.isFinal = true ∨ .markFinal ∈ ds := by
  induction h with
  | none => simp
  | more first _ ih =>
    rw [ih, first.changed.isFinal_iff, List.mem_cons, or_assoc, eq_comm (a := Decision.markFinal)]

/-- Each sealing replaces what the class permitted, so the last one counts. -/
theorem permittedSubclasses_eq (h : Revised ds b cf b' cf') :
    cf'.permittedSubclasses = ((Decision.lastSubtypes? ds).map fun subtypes => subtypes.toList).or
      cf.permittedSubclasses := by
  induction h with
  | none => rfl
  | more first _ ih =>
    rw [ih, first.changed.permittedSubclasses_eq, Decision.lastSubtypes?_cons, Option.map_or,
      Option.or_assoc]

/-- The bytes of the first constants stay in front of those of all later ones. -/
theorem constants (h : Revised ds b cf b' cf') :
    b.slice 10 cf.layout.poolEnd <+: b'.slice 10 cf'.layout.poolEnd := by
  induction h with
  | none => exact List.prefix_refl _
  | more first _ ih => exact first.constants.trans ih

/-- So the bytes between the number of slots and the old end of the pool are still there. -/
theorem slice_constants (h : Revised ds b cf b' cf') (hparse : parse b = .ok cf) :
    b'.slice 10 cf.layout.poolEnd = b.slice 10 cf.layout.poolEnd :=
  Bytes.slice_eq_of_prefix (poolEnd_le_length hparse) h.constants

theorem inner (h : Revised ds b cf b' cf') :
    b'.slice (cf'.layout.poolEnd + 2) cf'.layout.attributesCount
      = b.slice (cf.layout.poolEnd + 2) cf.layout.attributesCount := by
  induction h with
  | none => rfl
  | more first _ ih => exact ih.trans first.inner

theorem ceiling_le (h : Revised ds b cf b' cf') {names : Finset String}
    (hnames : ∀ d ∈ ds, ∀ subtypes, d.subtypes? = some subtypes → ∀ n ∈ subtypes, n ∈ names) :
    cf'.pool.ceiling names ≤ cf.pool.ceiling names := by
  induction h with
  | none => exact Nat.le_refl _
  | more first _ ih =>
    obtain ⟨hfirst, hrest⟩ := List.forall_mem_cons.1 hnames
    exact (ih hrest).trans (first.ceiling_le names hfirst)

/-- However often names are listed, each takes two slots at most. -/
theorem size_le (h : Revised ds b cf b' cf') :
    cf'.pool.size ≤ cf.pool.size + 1 + 2 * (Decision.listedNames ds).size := by
  obtain ⟨names, hcard, hnames⟩ := (Decision.listedNames ds).exists_finset
  calc cf'.pool.size
      ≤ cf'.pool.ceiling names := ConstantPool.size_le_ceiling
    _ ≤ cf.pool.ceiling names := h.ceiling_le fun d hd subtypes hsubtypes n hn =>
        hnames n (Decision.mem_listedNames hd hsubtypes hn)
    _ ≤ cf.pool.size + 1 + 2 * names.card := ConstantPool.ceiling_le
    _ = cf.pool.size + 1 + 2 * (Decision.listedNames ds).size := by rw [hcard]

end Revised

/-- Decisions that can be carried out one after the other leave a class file at every stage. In the
end it is final if it was so or a decision made it final, it lists the types of the last decision
that seals, in the order of their UTF-8 bytes, and all else that it says stays as it was. Its inner
bytes are still there, and so are the bytes of its constants, which have their indexes. The pool has
one more slot for the name of the attribute and two for each name that was ever listed, at most. -/
theorem parse_reviseAll (hparse : parse b = .ok cf)
    (hsize : cf.pool.size ≤ PoolExtension.maxSlots) (hrun : reviseAll ds b = .ok out) :
    (∀ front, front <+: ds → ∃ b' cf', reviseAll front b = .ok b' ∧ parse b' = .ok cf')
      ∧ ∃ cf', parse out = .ok cf'
        ∧ (cf'.isFinal = true ↔ cf.isFinal = true ∨ .markFinal ∈ ds)
        ∧ (∀ subtypes, Decision.lastSubtypes? ds = some subtypes →
          ∃ names, cf'.permittedSubclasses = some names ∧ (∀ n, n ∈ names ↔ n ∈ subtypes)
            ∧ names.Pairwise fun m n => Utf8.bytes m < Utf8.bytes n)
        ∧ (Decision.lastSubtypes? ds = none → cf'.permittedSubclasses = cf.permittedSubclasses)
        ∧ cf'.access.bits &&& ~~~AccessFlags.finalBit = cf.access.bits &&& ~~~AccessFlags.finalBit
        ∧ cf'.minorVersion = cf.minorVersion ∧ cf'.majorVersion = cf.majorVersion
        ∧ cf'.thisName = cf.thisName ∧ cf'.superName = cf.superName
        ∧ cf'.interfaces = cf.interfaces
        ∧ out.slice (cf'.layout.poolEnd + 2) cf'.layout.attributesCount
          = b.slice (cf.layout.poolEnd + 2) cf.layout.attributesCount
        ∧ out.slice 10 cf.layout.poolEnd = b.slice 10 cf.layout.poolEnd
        ∧ cf.pool.GrowsTo cf'.pool
        ∧ cf'.pool.size ≤ cf.pool.size + 1 + 2 * (Decision.listedNames ds).size := by
  constructor
  · intro front hfront
    obtain ⟨b', hb'⟩ := reviseAll_of_prefix hfront hrun
    obtain ⟨cf', hrevised⟩ := exists_revised hparse hsize hb'
    exact ⟨b', cf', hb', hrevised.parse_eq hparse⟩
  · obtain ⟨cf', hrevised⟩ := exists_revised hparse hsize hrun
    have halike := hrevised.alike
    have hpermitted := hrevised.permittedSubclasses_eq
    refine ⟨cf', hrevised.parse_eq hparse, hrevised.isFinal_iff, ?_, ?_, halike.otherFlags,
      halike.minorVersion, halike.majorVersion, halike.thisName, halike.superName,
      halike.interfaces, hrevised.inner, hrevised.slice_constants hparse, halike.grows,
      hrevised.size_le⟩
    · intro subtypes hlast
      rw [hlast] at hpermitted
      exact ⟨subtypes.toList, hpermitted, fun n => Std.ExtTreeSet.mem_toList,
        subtypes.pairwise_bytes_toList⟩
    · intro hnone
      rw [hnone] at hpermitted
      exact hpermitted

/-- Seals to `B` and `C`, makes final, and seals to `B` alone. -/
def threeDecisions : List Decision :=
  [.sealTo (NameSet.ofList ["C", "B"]), .markFinal, .sealTo (NameSet.ofList ["B"])]

/-- The class `A` with all three decisions carried out has the names of the last one, and behind its
own two constants no more than two names need. -/
theorem parse_reviseAll_plain :
    ∃ out cf', reviseAll threeDecisions plainBytes = .ok out ∧ parse out = .ok cf'
      ∧ cf'.isFinal = true
      ∧ (∃ names, cf'.permittedSubclasses = some names ∧ ∀ n, n ∈ names ↔ n ∈ NameSet.ofList ["B"])
      ∧ out.slice 10 17 = [1, 0, 1, 65, 7, 0, 1]
      ∧ cf'.pool.size ≤ 8 := by
  have hsize : plainClass.pool.size ≤ PoolExtension.maxSlots := by decide
  have hok : (reviseAll threeDecisions plainBytes).isOk := by decide +kernel
  have hnames : (Decision.listedNames threeDecisions).size = 2 := by decide +kernel
  cases hrun : reviseAll threeDecisions plainBytes with
  | error cause =>
    rw [hrun] at hok
    cases hok
  | ok out =>
    obtain ⟨_, cf', hparse', hfinal, hlast, _, _, _, _, _, _, _, _, hconstants, _, hpool⟩ :=
      parse_reviseAll parse_plainBytes hsize hrun
    obtain ⟨names, hpermitted, hmem, _⟩ := hlast (NameSet.ofList ["B"]) rfl
    rw [hnames] at hpool
    exact ⟨out, cf', rfl, hparse', hfinal.2 (.inr (by simp [threeDecisions])),
      ⟨names, hpermitted, hmem⟩, hconstants, hpool⟩

end ClassFile

end LinkSet
