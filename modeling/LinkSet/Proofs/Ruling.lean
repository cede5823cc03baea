import LinkSet.Classification
import LinkSet.Proofs.IndexLookup

/-!
# Rulings

What is to become of a type can be told from the types of the link set, without an index and without
an order in which anything is tried: `Ruling.decision` looks at the types that extend the one in
question and at those that its unit declares. The verdict of the program is this decision, and
counts as `Ruling.tally` says.
-/

namespace LinkSet

variable {settings : Settings} {decls : List TypeDecl} {d : TypeDecl}

namespace Ruling

/-! ## Conditions -/

/-- The names of the types that extend the given one. -/
def subtypes (decls : List TypeDecl) (d : TypeDecl) : NameSet :=
  NameSet.ofList ((decls.filter fun e => e.Extends d.name).map (·.name))

theorem mem_subtypes {sub : String} :
    sub ∈ subtypes decls d ↔ ∃ e ∈ decls, e.name = sub ∧ e.Extends d.name := by
  rw [subtypes, NameSet.mem_ofList, List.mem_map]
  simp only [List.mem_filter, decide_eq_true_eq]
  constructor
  · rintro ⟨e, ⟨he, hext⟩, hname⟩
    exact ⟨e, he, hname, hext⟩
  · rintro ⟨e, he, hname, hext⟩
    exact ⟨e, ⟨he, hext⟩, hname⟩

/-- The type may become final, if nothing extends it. -/
def MayBeFinal (settings : Settings) (d : TypeDecl) : Prop :=
  d.classFile.isInterface = false ∧ d.classFile.isFinal = false ∧ settings.finalizing = true

/-- The type lists no permitted subclass. -/
def IsOpen (d : TypeDecl) : Prop :=
  d.classFile.permittedSubclasses = none ∨ d.classFile.permittedSubclasses = some []

/-- The type may list `sub`: it is not nested, the unit of the type declares it, and it is of the
same package or public. -/
def MayList (decls : List TypeDecl) (d : TypeDecl) (sub : String) : Prop :=
  TypeName.isNested sub = false ∧ ∃ e ∈ decls, e.unit = d.unit ∧ e.name = sub
    ∧ (TypeName.package sub = TypeName.package d.name ∨ e.classFile.isPublic = true)

/-- The type may become sealed, if something extends it. -/
def MayBeSealed (settings : Settings) (decls : List TypeDecl) (d : TypeDecl) : Prop :=
  IsOpen d ∧ settings.sealing = true ∧ ∀ sub ∈ (subtypes decls d).toList, MayList decls d sub

instance : Decidable (MayBeFinal settings d) := inferInstanceAs (Decidable (_ ∧ _))

instance : Decidable (IsOpen d) := inferInstanceAs (Decidable (_ ∨ _))

instance (sub : String) : Decidable (MayList decls d sub) := inferInstanceAs (Decidable (_ ∧ _))

instance : Decidable (MayBeSealed settings decls d) := inferInstanceAs (Decidable (_ ∧ _))

theorem mayBeFinal_congr {d' : TypeDecl} (h : d'.classFile = d.classFile) :
    MayBeFinal settings d' ↔ MayBeFinal settings d := by
  rw [MayBeFinal, h, ← MayBeFinal]

theorem isOpen_congr {d' : TypeDecl} (h : d'.classFile = d.classFile) : IsOpen d' ↔ IsOpen d := by
  rw [IsOpen, h, ← IsOpen]

/-! ## The ruling -/

/-- What is to become of a type. -/
def decision (decls : List TypeDecl) (settings : Settings) (d : TypeDecl) : Decision :=
  if settings.filter.accepts d.unit then
    if subtypes decls d = ∅ then
      if MayBeFinal settings d then .markFinal else .keep
    else
      if MayBeSealed settings decls d then .sealTo (subtypes decls d) else .keep
  else
    .keep

/-- How a type counts. -/
def tally (decls : List TypeDecl) (settings : Settings) (d : TypeDecl) : Tally :=
  if settings.filter.accepts d.unit then
    if subtypes decls d = ∅ then
      { total := 1, withoutSubtypes := 1, madeFinal := if MayBeFinal settings d then 1 else 0 }
    else
      { total := 1, withSubtypes := 1, notYetSealed := if IsOpen d then 1 else 0
        madeSealed := if MayBeSealed settings decls d then 1 else 0 }
  else
    {}

/-! ## What the index answers -/

theorem isSealed_eq_false_iff : d.classFile.isSealed = false ↔ IsOpen d := by
  unfold ClassFile.isSealed IsOpen
  cases d.classFile.permittedSubclasses with
  | none => simp
  | some names =>
    cases names with
    | nil => simp
    | cons n names => simp

theorem not_isOpen_of_lists {names : List String}
    (hlisted : d.classFile.permittedSubclasses = some names) (hne : names ≠ []) : ¬ IsOpen d := by
  rintro (hnone | hempty)
  · rw [hlisted] at hnone
    cases hnone
  · rw [hlisted] at hempty
    exact hne (Option.some.inj hempty)

/-- The index has no subtypes for a type exactly if nothing extends it. -/
theorem subtypes_eq_empty_iff :
    subtypes decls d = ∅ ↔ (Index.ofDecls decls).subtypes.get? d.name = none := by
  rw [Index.subtypes_eq_none, Std.ExtTreeSet.eq_empty_iff_forall_not_mem]
  constructor
  · intro h e he hext
    exact h e.name (mem_subtypes.2 ⟨e, he, rfl, hext⟩)
  · intro h sub hmem
    obtain ⟨e, he, _, hext⟩ := mem_subtypes.1 hmem
    exact h e he hext

/-- What the index has for a type are the names of those that extend it. -/
theorem eq_subtypes {names : NameSet}
    (h : (Index.ofDecls decls).subtypes.get? d.name = some names) : names = subtypes decls d := by
  apply Std.ExtTreeSet.ext_mem
  intro sub
  rw [Index.mem_of_subtypes h, mem_subtypes]

/-- All subtypes are local and may be listed exactly if the type may list each of them. That the
unit declares them is what makes the look-up by path find them. -/
theorem value_isClosed (hplaced : ∀ e ∈ decls, e.IsPlaced) (hpaths : (decls.map TypeDecl.path).Nodup)
    {names : List String} :
    (Verdict.isClosed (Index.ofDecls decls) settings d names).value = true
      ↔ ∀ n ∈ names, MayList decls d n := by
  have hfound : ∀ {n e}, e ∈ decls → e.unit = d.unit → e.name = n →
      ∀ {e'}, (Index.ofDecls decls).byPath[EntryPath.ofType d.unit n]? = some e' ↔ e' = e := by
    intro n e he hunit hname e'
    have hpath : e.path = EntryPath.ofType d.unit n := by
      rw [(hplaced e he).1, hunit, hname]
    rw [Index.byPath_iff hpaths, ← hpath]
    constructor
    · rintro ⟨he', heq⟩
      exact List.inj_on_of_nodup_map hpaths he' he heq
    · rintro rfl
      exact ⟨he, rfl⟩
  unfold Verdict.isClosed
  by_cases hlocal : (Index.ofDecls decls).declaresAll d.unit names = true
  · rw [if_pos hlocal, Index.value_permitsAll]
    rw [Index.declaresAll_iff] at hlocal
    refine forall₂_congr fun n hn => ?_
    obtain ⟨e, he, hunit, hname⟩ := hlocal n hn
    rw [Index.value_permits, MayList]
    refine and_congr_right fun _ => ?_
    constructor
    · rintro (hpackage | ⟨e', he', hpublic⟩)
      · exact ⟨e, he, hunit, hname, .inl hpackage.symm⟩
      · obtain rfl := (hfound he hunit hname).1 he'
        exact ⟨e', he, hunit, hname, .inr hpublic⟩
    · rintro ⟨e', he', hunit', hname', hpackage | hpublic⟩
      · exact .inl hpackage.symm
      · exact .inr ⟨e', (hfound he' hunit' hname').2 rfl, hpublic⟩
  · rw [if_neg hlocal]
    constructor
    · intro h
      cases h
    · intro h
      refine absurd (Index.declaresAll_iff.2 fun n hn => ?_) hlocal
      obtain ⟨_, e, he, hunit, hname, _⟩ := h n hn
      exact ⟨e, he, hunit, hname⟩

end Ruling

namespace Verdict

/-! ## What is found on the way to a verdict -/

variable {ix : Index}

theorem value_ofDecl_of_none (hunit : settings.filter.accepts d.unit = true)
    (hleaf : ix.subtypes.get? d.name = none) :
    (ofDecl ix settings d).value = (ofLeaf settings d).value := by
  rw [ofDecl, if_pos hunit, hleaf]

theorem value_ofDecl_of_some (hunit : settings.filter.accepts d.unit = true) {names : NameSet}
    (hparent : ix.subtypes.get? d.name = some names) :
    (ofDecl ix settings d).value = (ofParent ix settings d names).value := by
  rw [ofDecl, if_pos hunit, hparent]

/-- A type that lists subclasses stays as it is. -/
theorem value_ofParent_of_sealed {names : NameSet} (hsealed : ¬ Ruling.IsOpen d) :
    (ofParent ix settings d names).value = ⟨.keep, { total := 1, withSubtypes := 1 }⟩ := by
  have h : d.classFile.isSealed = true := by
    rw [← Bool.not_eq_false, Ruling.isSealed_eq_false_iff]
    exact hsealed
  rw [ofParent, if_pos h]
  rfl

/-- A type that lists none is sealed exactly if it may list all of its subtypes and sealing is on. -/
theorem value_ofParent_of_open {names : NameSet} (hopen : Ruling.IsOpen d) :
    (ofParent ix settings d names).value
      = if (isClosed ix settings d names.toList).value = true ∧ settings.sealing = true then
          ⟨.sealTo names, { total := 1, withSubtypes := 1, notYetSealed := 1, madeSealed := 1 }⟩
        else ⟨.keep, { total := 1, withSubtypes := 1, notYetSealed := 1 }⟩ := by
  have h : d.classFile.isSealed = false := Ruling.isSealed_eq_false_iff.2 hopen
  unfold ofParent
  by_cases hyes : (isClosed ix settings d names.toList).value = true ∧ settings.sealing = true
  · simp [h, hyes.1, hyes.2]
  · simp [h, hyes]

end Verdict

namespace Ruling

/-! ## The verdict -/

theorem value_ofLeaf : (Verdict.ofLeaf settings d).value
    = ⟨if MayBeFinal settings d then .markFinal else .keep,
      { total := 1, withoutSubtypes := 1
        madeFinal := if MayBeFinal settings d then 1 else 0 }⟩ := by
  have hcondition : (d.classFile.isInterface || d.classFile.isFinal || !settings.finalizing) = true
      ↔ ¬ MayBeFinal settings d := by
    unfold MayBeFinal
    cases d.classFile.isInterface <;> cases d.classFile.isFinal <;> cases settings.finalizing <;>
      decide
  unfold Verdict.ofLeaf
  by_cases h : MayBeFinal settings d
  · simp [h, hcondition]
  · simp [h, hcondition]

theorem value_ofParent (hread : ∀ e ∈ decls, e.IsRead) (hpaths : (decls.map TypeDecl.path).Nodup) :
    (Verdict.ofParent (Index.ofDecls decls) settings d (subtypes decls d)).value
      = ⟨if MayBeSealed settings decls d then .sealTo (subtypes decls d) else .keep,
        { total := 1, withSubtypes := 1, notYetSealed := if IsOpen d then 1 else 0
          madeSealed := if MayBeSealed settings decls d then 1 else 0 }⟩ := by
  by_cases hopen : IsOpen d
  · have hcondition : ((Verdict.isClosed (Index.ofDecls decls) settings d
        (subtypes decls d).toList).value = true ∧ settings.sealing = true)
        ↔ MayBeSealed settings decls d := by
      rw [value_isClosed (fun e he => (hread e he).isPlaced) hpaths, MayBeSealed, and_iff_right hopen, and_comm]
    rw [Verdict.value_ofParent_of_open hopen]
    by_cases hyes : MayBeSealed settings decls d
    · rw [if_pos (hcondition.2 hyes), if_pos hyes, if_pos hopen, if_pos hyes]
    · rw [if_neg (fun h => hyes (hcondition.1 h)), if_neg hyes, if_pos hopen, if_neg hyes]
  · have hno : ¬ MayBeSealed settings decls d := fun h => hopen h.1
    rw [Verdict.value_ofParent_of_sealed hopen, if_neg hno, if_neg hopen, if_neg hno]

theorem value_ofDecl_of_rejected {ix : Index} (h : ¬ settings.filter.accepts d.unit = true) :
    (Verdict.ofDecl ix settings d).value = ⟨.keep, {}⟩ := by
  rw [Verdict.ofDecl, if_neg h]
  rfl

theorem value_ofDecl_of_leaf (haccepts : settings.filter.accepts d.unit = true)
    (hleaf : subtypes decls d = ∅) :
    (Verdict.ofDecl (Index.ofDecls decls) settings d).value
      = ⟨if MayBeFinal settings d then .markFinal else .keep,
        { total := 1, withoutSubtypes := 1
          madeFinal := if MayBeFinal settings d then 1 else 0 }⟩ := by
  rw [Verdict.value_ofDecl_of_none haccepts (subtypes_eq_empty_iff.1 hleaf)]
  exact value_ofLeaf

theorem value_ofDecl_of_parent (hread : ∀ e ∈ decls, e.IsRead)
    (hpaths : (decls.map TypeDecl.path).Nodup) (haccepts : settings.filter.accepts d.unit = true)
    (hparent : ¬ subtypes decls d = ∅) :
    (Verdict.ofDecl (Index.ofDecls decls) settings d).value
      = ⟨if MayBeSealed settings decls d then .sealTo (subtypes decls d) else .keep,
        { total := 1, withSubtypes := 1, notYetSealed := if IsOpen d then 1 else 0
          madeSealed := if MayBeSealed settings decls d then 1 else 0 }⟩ := by
  cases hget : (Index.ofDecls decls).subtypes.get? d.name with
  | none => exact absurd (subtypes_eq_empty_iff.2 hget) hparent
  | some names =>
    obtain rfl := eq_subtypes hget
    rw [Verdict.value_ofDecl_of_some haccepts hget]
    exact value_ofParent hread hpaths

end Ruling

/-- The verdict on a type of a link set is the ruling on it. -/
theorem Verdict.ofDecl_eq_ruling (decls : List TypeDecl) (settings : Settings) (d : TypeDecl)
    (hread : ∀ e ∈ decls, e.IsRead) (hpaths : (decls.map TypeDecl.path).Nodup) :
    (ofDecl (Index.ofDecls decls) settings d).value
      = ⟨Ruling.decision decls settings d, Ruling.tally decls settings d⟩ := by
  unfold Ruling.decision Ruling.tally
  by_cases haccepts : settings.filter.accepts d.unit = true
  · simp only [if_pos haccepts]
    by_cases hleaf : Ruling.subtypes decls d = ∅
    · simp only [if_pos hleaf]
      exact Ruling.value_ofDecl_of_leaf haccepts hleaf
    · simp only [if_neg hleaf]
      exact Ruling.value_ofDecl_of_parent hread hpaths haccepts hleaf
  · simp only [if_neg haccepts]
    exact Ruling.value_ofDecl_of_rejected haccepts

namespace Ruling

/-- A public class file whose pool has the names of `A` and of `B`, with the given indexes. -/
def pairBytes (thisIndex superIndex : UInt8) : Bytes :=
  [0xCA, 0xFE, 0xBA, 0xBE, 0, 0, 0, 52] ++ [0, 5, 1, 0, 1, 65, 7, 0, 1, 1, 0, 1, 66, 7, 0, 3]
    ++ [0, 0x21, 0, thisIndex, 0, superIndex, 0, 0, 0, 0, 0, 0, 0, 0]

/-- What `pairBytes` say. -/
def pairClass (name : String) (superName : Option String) : ClassFile where
  minorVersion := 0
  majorVersion := 52
  access := ⟨0x21⟩
  thisName := name
  superName := superName
  interfaces := []
  permitted := none
  pool := ⟨#[.unusable, .utf8 [65], .classRef 1, .utf8 [66], .classRef 3]⟩
  layout := ⟨24, 36, 38⟩

/-- The class `A` of the unit `u`, and the class `B` that extends it. -/
def pair : List TypeDecl :=
  [⟨"/u/A.class", "u", "A", pairClass "A" none⟩, ⟨"/u/B.class", "u", "B", pairClass "B" (some "A")⟩]

end Ruling

/-- The class `A` is sealed to `B`. -/
theorem Verdict.ofDecl_eq_ruling_pair :
    (ofDecl (Index.ofDecls Ruling.pair) {}
        ⟨"/u/A.class", "u", "A", Ruling.pairClass "A" none⟩).value.tally
      = { total := 1, withSubtypes := 1, notYetSealed := 1, madeSealed := 1 } := by
  have hread : ∀ e ∈ Ruling.pair, e.IsRead := by
    have hA : TypeDecl.IsRead ⟨"/u/A.class", "u", "A", Ruling.pairClass "A" none⟩ :=
      ⟨⟨"/u/A.class", .ofUnit, Ruling.pairBytes 2 0⟩, by decide +kernel⟩
    have hB : TypeDecl.IsRead ⟨"/u/B.class", "u", "B", Ruling.pairClass "B" (some "A")⟩ :=
      ⟨⟨"/u/B.class", .ofUnit, Ruling.pairBytes 4 2⟩, by decide +kernel⟩
    exact List.forall_mem_cons.2 ⟨hA, List.forall_mem_singleton.2 hB⟩
  have hpaths : (Ruling.pair.map TypeDecl.path).Nodup := by decide +kernel
  rw [ofDecl_eq_ruling Ruling.pair {} _ hread hpaths]
  decide +kernel

end LinkSet
