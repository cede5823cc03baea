import LinkSet.Proofs.Ruling

/-!
# Verdicts and their grounds

There are six ways to a verdict, and each leaves behind what was found on it: whether the unit of the
type may be changed, whether the index has subtypes for it, what its class file says already, and
whether it may list its subtypes (`Verdict.Grounds`). A verdict is given exactly on its grounds
(`Verdict.value_ofDecl_iff`), so nothing that follows has to go through the classification again.

Nothing is asked of the index for this. In particular several types may have one path. Where each type
has a path of its own, it can be told when a type is sealed and to which subtypes, without the index
(`Verdict.decision_eq_sealTo_iff`).
-/

namespace LinkSet

namespace Verdict

open Ruling (MayBeFinal)

variable {ix : Index} {settings : Settings} {d : TypeDecl}

/-- The ways to a verdict on a type, each with its conditions. -/
inductive Grounds (ix : Index) (settings : Settings) (d : TypeDecl) : Verdict → Prop
  /-- The unit of the type may not be changed. -/
  | excluded (hunit : ¬ settings.filter.accepts d.unit = true) :
    Grounds ix settings d ⟨.keep, {}⟩
  /-- The type has no subtypes and may not become final. -/
  | keptLeaf (hunit : settings.filter.accepts d.unit = true)
    (hleaf : ix.subtypes.get? d.name = none) (hno : ¬ MayBeFinal settings d) :
    Grounds ix settings d ⟨.keep, { total := 1, withoutSubtypes := 1 }⟩
  /-- The type has no subtypes and becomes final. -/
  | finalLeaf (hunit : settings.filter.accepts d.unit = true)
    (hleaf : ix.subtypes.get? d.name = none) (hyes : MayBeFinal settings d) :
    Grounds ix settings d ⟨.markFinal, { total := 1, withoutSubtypes := 1, madeFinal := 1 }⟩
  /-- The type has subtypes and lists some already. -/
  | sealedBefore {names : NameSet} (hunit : settings.filter.accepts d.unit = true)
    (hparent : ix.subtypes.get? d.name = some names) (hsealed : ¬ Ruling.IsOpen d) :
    Grounds ix settings d ⟨.keep, { total := 1, withSubtypes := 1 }⟩
  /-- The type has subtypes and may not become sealed to them. -/
  | keptParent {names : NameSet} (hunit : settings.filter.accepts d.unit = true)
    (hparent : ix.subtypes.get? d.name = some names) (hopen : Ruling.IsOpen d)
    (hno : ¬ ((isClosed ix settings d names.toList).value = true ∧ settings.sealing = true)) :
    Grounds ix settings d ⟨.keep, { total := 1, withSubtypes := 1, notYetSealed := 1 }⟩
  /-- The type has subtypes and becomes sealed to them. -/
  | sealedParent {names : NameSet} (hunit : settings.filter.accepts d.unit = true)
    (hparent : ix.subtypes.get? d.name = some names) (hopen : Ruling.IsOpen d)
    (hclosed : (isClosed ix settings d names.toList).value = true)
    (hsealing : settings.sealing = true) :
    Grounds ix settings d
      ⟨.sealTo names, { total := 1, withSubtypes := 1, notYetSealed := 1, madeSealed := 1 }⟩

/-- A verdict is given exactly on its grounds. -/
theorem value_ofDecl_iff {v : Verdict} :
    (ofDecl ix settings d).value = v ↔ Grounds ix settings d v := by
  constructor
  · rintro rfl
    by_cases hunit : settings.filter.accepts d.unit = true
    · cases hget : ix.subtypes.get? d.name with
      | none =>
        rw [value_ofDecl_of_none hunit hget, Ruling.value_ofLeaf]
        by_cases hfinal : MayBeFinal settings d
        · simp only [if_pos hfinal]
          exact .finalLeaf hunit hget hfinal
        · simp only [if_neg hfinal]
          exact .keptLeaf hunit hget hfinal
      | some names =>
        rw [value_ofDecl_of_some hunit hget]
        by_cases hopen : Ruling.IsOpen d
        · rw [value_ofParent_of_open hopen]
          by_cases hyes : (isClosed ix settings d names.toList).value = true
              ∧ settings.sealing = true
          · rw [if_pos hyes]
            exact .sealedParent hunit hget hopen hyes.1 hyes.2
          · rw [if_neg hyes]
            exact .keptParent hunit hget hopen hyes
        · rw [value_ofParent_of_sealed hopen]
          exact .sealedBefore hunit hget hopen
    · rw [Ruling.value_ofDecl_of_rejected hunit]
      exact .excluded hunit
  · intro h
    cases h with
    | excluded hunit => exact Ruling.value_ofDecl_of_rejected hunit
    | keptLeaf hunit hleaf hno =>
      rw [value_ofDecl_of_none hunit hleaf, Ruling.value_ofLeaf]
      simp only [if_neg hno]
    | finalLeaf hunit hleaf hyes =>
      rw [value_ofDecl_of_none hunit hleaf, Ruling.value_ofLeaf]
      simp only [if_pos hyes]
    | sealedBefore hunit hparent hsealed =>
      rw [value_ofDecl_of_some hunit hparent, value_ofParent_of_sealed hsealed]
    | keptParent hunit hparent hopen hno =>
      rw [value_ofDecl_of_some hunit hparent, value_ofParent_of_open hopen, if_neg hno]
    | sealedParent hunit hparent hopen hclosed hsealing =>
      rw [value_ofDecl_of_some hunit hparent, value_ofParent_of_open hopen,
        if_pos ⟨hclosed, hsealing⟩]

theorem grounds (ix : Index) (settings : Settings) (d : TypeDecl) :
    Grounds ix settings d (ofDecl ix settings d).value :=
  value_ofDecl_iff.1 rfl

/-! ## Decisions that change a type -/

/-- A type becomes final exactly if it may, is of a unit that may be changed and has no subtypes. -/
theorem decision_eq_markFinal_iff :
    (ofDecl ix settings d).value.decision = .markFinal
      ↔ settings.filter.accepts d.unit = true ∧ ix.subtypes.get? d.name = none
        ∧ MayBeFinal settings d := by
  constructor
  · intro h
    have hg := grounds ix settings d
    generalize (ofDecl ix settings d).value = v at h hg
    cases hg with
    | finalLeaf hunit hleaf hyes => exact ⟨hunit, hleaf, hyes⟩
    | _ => cases h
  · rintro ⟨hunit, hleaf, hyes⟩
    rw [value_ofDecl_iff.2 (.finalLeaf hunit hleaf hyes)]

/-- Types become final only if nothing extends them. -/
theorem not_extends_of_markFinal {decls : List TypeDecl}
    (h : (ofDecl (Index.ofDecls decls) settings d).value.decision = .markFinal) :
    ∀ e ∈ decls, ¬ e.Extends d.name := by
  obtain ⟨_, hleaf, _⟩ := decision_eq_markFinal_iff.1 h
  exact Index.subtypes_eq_none.1 hleaf

/-- A type is sealed to its subtypes only if it lists none yet and may list them all. -/
theorem of_sealTo {names : NameSet} (h : (ofDecl ix settings d).value.decision = .sealTo names) :
    ix.subtypes.get? d.name = some names ∧ Ruling.IsOpen d
      ∧ (isClosed ix settings d names.toList).value = true ∧ settings.sealing = true := by
  have hg := grounds ix settings d
  generalize (ofDecl ix settings d).value = v at h hg
  cases hg with
  | sealedParent hunit hparent hopen hclosed hsealing =>
    obtain rfl := Decision.sealTo.inj h
    exact ⟨hparent, hopen, hclosed, hsealing⟩
  | _ => cases h

/-- A type is sealed exactly if it may be, is of a unit that may be changed and has subtypes, and it
is sealed to these. -/
theorem decision_eq_sealTo_iff {decls : List TypeDecl} (hplaced : ∀ e ∈ decls, e.IsPlaced)
    (hpaths : (decls.map TypeDecl.path).Nodup) {names : NameSet} :
    (ofDecl (Index.ofDecls decls) settings d).value.decision = .sealTo names
      ↔ settings.filter.accepts d.unit = true ∧ names = Ruling.subtypes decls d ∧ names ≠ ∅
        ∧ Ruling.MayBeSealed settings decls d := by
  constructor
  · intro h
    have hg := grounds (Index.ofDecls decls) settings d
    generalize (ofDecl (Index.ofDecls decls) settings d).value = v at h hg
    cases hg with
    | sealedParent hunit hparent hopen hclosed hsealing =>
      obtain rfl := Decision.sealTo.inj h
      obtain rfl := Ruling.eq_subtypes hparent
      have hne : Ruling.subtypes decls d ≠ ∅ := by
        intro hempty
        rw [Ruling.subtypes_eq_empty_iff.1 hempty] at hparent
        cases hparent
      exact ⟨hunit, rfl, hne, hopen, hsealing, (Ruling.value_isClosed hplaced hpaths).1 hclosed⟩
    | _ => cases h
  · rintro ⟨hunit, rfl, hne, hopen, hsealing, hlist⟩
    cases hparent : (Index.ofDecls decls).subtypes.get? d.name with
    | none => exact absurd (Ruling.subtypes_eq_empty_iff.2 hparent) hne
    | some names =>
      obtain rfl := Ruling.eq_subtypes hparent
      have hclosed : (isClosed (Index.ofDecls decls) settings d
          (Ruling.subtypes decls d).toList).value = true :=
        (Ruling.value_isClosed hplaced hpaths).2 hlist
      rw [value_ofDecl_iff.2 (.sealedParent hunit hparent hopen hclosed hsealing)]

end Verdict

/-- A type is sealed only to the types that extend it, and only if it may be sealed. -/
theorem Ruling.mayBeSealed_of_sealTo {settings : Settings} {decls : List TypeDecl} {d : TypeDecl}
    (hread : ∀ e ∈ decls, e.IsRead) (hpaths : (decls.map TypeDecl.path).Nodup) {names : NameSet}
    (h : (Verdict.ofDecl (Index.ofDecls decls) settings d).value.decision = .sealTo names) :
    names = subtypes decls d ∧ MayBeSealed settings decls d := by
  have hplaced : ∀ e ∈ decls, e.IsPlaced := fun e he => (hread e he).isPlaced
  obtain ⟨_, hnames, _, hmay⟩ := (Verdict.decision_eq_sealTo_iff hplaced hpaths).1 h
  exact ⟨hnames, hmay⟩

end LinkSet
