import LinkSet.Proofs.Totals
import LinkSet.Proofs.Verdicts

/-!
# Settings as a mask

The default settings accept every unit and allow every change. What other settings decide on a type
is what these decide, as far as it is let through: a decision on a type of an accepted unit passes
if its kind is allowed, and all else is kept (`Verdict.value_ofDecl_masked`). The index knows
nothing of settings, so types of units that may not be changed count as subtypes and members all the
same.
-/

namespace LinkSet

/-! ## What is let through -/

/-- Whether a decision of this kind is carried out. To keep a type is never ruled out. -/
def Settings.allows (settings : Settings) : Decision → Bool
  | .keep => true
  | .markFinal => settings.finalizing
  | .sealTo _ => settings.sealing

/-- A decision on a type of the given unit, as far as it is let through. -/
def Settings.mask (settings : Settings) (unit : String) (decision : Decision) : Decision :=
  if settings.filter.accepts unit && settings.allows decision then decision else .keep

namespace Tally

/-- The counts of what was found, without what was made of it. -/
def found (t : Tally) : Tally := { t with madeFinal := 0, madeSealed := 0 }

theorem found_eq_iff {s t : Tally} : s.found = t.found ↔ s.total = t.total
    ∧ s.withoutSubtypes = t.withoutSubtypes ∧ s.withSubtypes = t.withSubtypes
    ∧ s.notYetSealed = t.notYetSealed := by
  simp [found]

theorem found_sum (ts : List Tally) : (sum ts).found = sum (ts.map found) := by
  induction ts with
  | nil => rfl
  | cons t ts ih =>
    rw [sum_cons, List.map_cons, sum_cons, ← ih]
    rfl

theorem sum_map_add {α : Type} (f g : α → Tally) (xs : List α) :
    sum (xs.map fun x => (f x).add (g x)) = (sum (xs.map f)).add (sum (xs.map g)) := by
  induction xs with
  | nil => rfl
  | cons x xs ih =>
    simp only [List.map_cons, sum_cons, ih]
    ac_rfl

end Tally

namespace Verdict

open Ruling (MayBeFinal)

/-- A verdict on a type of the given unit, as far as it is let through. -/
def masked (settings : Settings) (unit : String) (v : Verdict) : Verdict :=
  if settings.filter.accepts unit then
    if settings.allows v.decision then v else ⟨.keep, v.tally.found⟩
  else
    excluded

variable {ix : Index} {settings : Settings} {d : TypeDecl}

theorem decision_masked (settings : Settings) (unit : String) (v : Verdict) :
    (v.masked settings unit).decision = settings.mask unit v.decision := by
  unfold masked Settings.mask
  cases settings.filter.accepts unit with
  | false => rfl
  | true => cases settings.allows v.decision <;> rfl

/-- What is found does not depend on which changes are allowed. -/
theorem found_tally_masked (settings : Settings) (unit : String) (v : Verdict) :
    (v.masked settings unit).tally.found
      = if settings.filter.accepts unit then v.tally.found else {} := by
  unfold masked
  cases settings.filter.accepts unit with
  | false => rfl
  | true => cases settings.allows v.decision <;> rfl

/-! ## Verdicts under other settings -/

theorem mayBeFinal_iff : MayBeFinal settings d ↔ MayBeFinal {} d ∧ settings.finalizing = true := by
  unfold MayBeFinal
  tauto

/-- Whether a type may list its subtypes does not depend on the settings, which only say how much is
remarked on the way. -/
theorem value_isClosed_settings (settings settings' : Settings) (names : List String) :
    (isClosed ix settings d names).value = (isClosed ix settings' d names).value := by
  unfold isClosed
  by_cases hlocal : ix.declaresAll d.unit names = true
  · rw [if_pos hlocal, if_pos hlocal, Bool.eq_iff_iff, Index.value_permitsAll,
      Index.value_permitsAll]
    simp only [Index.value_permits]
  · rw [if_neg hlocal, if_neg hlocal]

/-- The verdict under any settings is the one under the default settings, as far as it is let
through. -/
theorem value_ofDecl_masked :
    (ofDecl ix settings d).value = (ofDecl ix {} d).value.masked settings d.unit := by
  have hg := grounds ix {} d
  generalize (ofDecl ix {} d).value = v at hg
  by_cases hunit : settings.filter.accepts d.unit = true
  · rw [masked, if_pos hunit, value_ofDecl_iff]
    -- a type that is kept stays kept; one that is changed stays on its grounds if the switch for
    -- its change is on, and else loses the last of them
    cases hg with
    | excluded hno => exact absurd rfl hno
    | keptLeaf _ hleaf hno =>
      have hno' : ¬ MayBeFinal settings d := fun hyes => hno (mayBeFinal_iff.1 hyes).1
      exact .keptLeaf hunit hleaf hno'
    | finalLeaf _ hleaf hyes =>
      by_cases hswitch : settings.allows .markFinal = true
      · have hyes' : MayBeFinal settings d := mayBeFinal_iff.2 ⟨hyes, hswitch⟩
        rw [if_pos hswitch]
        exact .finalLeaf hunit hleaf hyes'
      · have hno : ¬ MayBeFinal settings d := fun h => hswitch (mayBeFinal_iff.1 h).2
        rw [if_neg hswitch]
        exact .keptLeaf hunit hleaf hno
    | sealedBefore _ hparent hsealed => exact .sealedBefore hunit hparent hsealed
    | keptParent _ hparent hopen hno =>
      rw [value_isClosed_settings {} settings] at hno
      exact .keptParent hunit hparent hopen fun h => hno ⟨h.1, rfl⟩
    | @sealedParent names _ hparent hopen hclosed _ =>
      rw [value_isClosed_settings {} settings] at hclosed
      by_cases hswitch : settings.allows (.sealTo names) = true
      · rw [if_pos hswitch]
        exact .sealedParent hunit hparent hopen hclosed hswitch
      · rw [if_neg hswitch]
        exact .keptParent hunit hparent hopen fun h => hswitch h.2
  · rw [masked, if_neg hunit]
    exact Ruling.value_ofDecl_of_rejected hunit

/-! ## Counts under other settings -/

theorem masked_of_rejected {unit : String} (h : ¬ settings.filter.accepts unit = true)
    (v : Verdict) : v.masked settings unit = excluded :=
  if_neg h

/-- Of a filter, all that counts is whether it accepts the unit. -/
theorem masked_congr {f f' : UnitFilter} {unit : String} (h : f.accepts unit = f'.accepts unit)
    (v : Verdict) :
    v.masked { settings with filter := f } unit = v.masked { settings with filter := f' } unit := by
  rw [masked, h]
  rfl

/-- A type counts under two disjoint filters together as under the one or the other. -/
theorem tally_masked_union {A B : NameSet} (hdisjoint : ∀ unit ∈ A, unit ∉ B) (unit : String)
    (v : Verdict) :
    (v.masked { settings with filter := .only (A ∪ B) } unit).tally
      = (v.masked { settings with filter := .only A } unit).tally.add
        (v.masked { settings with filter := .only B } unit).tally := by
  have hunion : (UnitFilter.only (A ∪ B)).accepts unit
      = ((UnitFilter.only A).accepts unit || (UnitFilter.only B).accepts unit) :=
    Std.ExtTreeSet.contains_union
  by_cases hA : (UnitFilter.only A).accepts unit = true
  · have hB : ¬ (UnitFilter.only B).accepts unit = true := fun hB =>
      hdisjoint unit (Std.ExtTreeSet.contains_iff_mem.1 hA) (Std.ExtTreeSet.contains_iff_mem.1 hB)
    have hsame : (UnitFilter.only (A ∪ B)).accepts unit = (UnitFilter.only A).accepts unit := by
      rw [hunion, hA, Bool.true_or]
    rw [masked_congr hsame, @masked_of_rejected { settings with filter := .only B } _ hB]
    exact (Tally.add_empty _).symm
  · have hsame : (UnitFilter.only (A ∪ B)).accepts unit = (UnitFilter.only B).accepts unit := by
      rw [hunion, Bool.eq_false_of_not_eq_true hA, Bool.false_or]
    rw [masked_congr hsame, @masked_of_rejected { settings with filter := .only A } _ hA]
    exact (Tally.empty_add _).symm

end Verdict

namespace Tally

variable {settings : Settings}

theorem ofDecls_masked (settings : Settings) (decls : List TypeDecl) :
    ofDecls settings decls = sum (decls.map fun d =>
      ((Verdict.ofDecl (Index.ofDecls decls) {} d).value.masked settings d.unit).tally) := by
  simp only [ofDecls, @Verdict.value_ofDecl_masked _ settings]

/-- What is found in a link set depends on the units that may be changed, and not on the changes
that are allowed. -/
theorem found_ofDecls {other : Settings} (h : other.filter = settings.filter)
    (decls : List TypeDecl) : (ofDecls other decls).found = (ofDecls settings decls).found := by
  simp only [ofDecls_masked, found_sum, List.map_map, Function.comp_def,
    Verdict.found_tally_masked, h]

theorem ofDecls_union {A B : NameSet} (hdisjoint : ∀ unit ∈ A, unit ∉ B) (decls : List TypeDecl) :
    ofDecls { settings with filter := .only (A ∪ B) } decls
      = (ofDecls { settings with filter := .only A } decls).add
        (ofDecls { settings with filter := .only B } decls) := by
  simp only [ofDecls_masked, Verdict.tally_masked_union hdisjoint, sum_map_add]

end Tally

/-- Settings only mask what the default settings decide. Which types are counted as having subtypes
or not, and as not yet sealed, depends on the accepted units alone, and the counts under two
disjoint sets of units add up to those under both. What is decided on a type of an accepted unit
does not depend on which other units are accepted. -/
theorem Verdict.decision_eq_mask (decls : List TypeDecl) (settings : Settings) :
    (∀ d, (ofDecl (Index.ofDecls decls) settings d).value.decision
        = settings.mask d.unit (ofDecl (Index.ofDecls decls) {} d).value.decision)
    ∧ (∀ other : Settings, other.filter = settings.filter →
        (Tally.ofDecls other decls).total = (Tally.ofDecls settings decls).total
        ∧ (Tally.ofDecls other decls).withoutSubtypes
          = (Tally.ofDecls settings decls).withoutSubtypes
        ∧ (Tally.ofDecls other decls).withSubtypes = (Tally.ofDecls settings decls).withSubtypes
        ∧ (Tally.ofDecls other decls).notYetSealed = (Tally.ofDecls settings decls).notYetSealed)
    ∧ (∀ A B : NameSet, (∀ unit ∈ A, unit ∉ B) →
        Tally.ofDecls { settings with filter := .only (A ∪ B) } decls
          = (Tally.ofDecls { settings with filter := .only A } decls).add
            (Tally.ofDecls { settings with filter := .only B } decls))
    ∧ ∀ filter d, settings.filter.accepts d.unit = true → filter.accepts d.unit = true →
        (ofDecl (Index.ofDecls decls) { settings with filter } d).value.decision
          = (ofDecl (Index.ofDecls decls) settings d).value.decision := by
  refine ⟨fun d => ?_, fun other hfilter => ?_, fun A B hdisjoint => ?_,
    fun filter d hunit hunit' => ?_⟩
  · rw [value_ofDecl_masked, decision_masked]
  · exact Tally.found_eq_iff.1 (Tally.found_ofDecls hfilter decls)
  · exact Tally.ofDecls_union hdisjoint decls
  · have hsame : filter.accepts d.unit = settings.filter.accepts d.unit := hunit'.trans hunit.symm
    rw [value_ofDecl_masked, masked_congr hsame, ← value_ofDecl_masked]

/-- With sealing switched off, the class `A` is kept, which the default settings seal. It is counted
as not yet sealed all the same, also when its unit is one of two that are accepted. -/
theorem Verdict.decision_eq_mask_pair :
    (ofDecl (Index.ofDecls Ruling.pair) { sealing := false }
        ⟨"/u/A.class", "u", "A", Ruling.pairClass "A" none⟩).value.decision.isKeep = true
      ∧ (ofDecl (Index.ofDecls Ruling.pair) {}
        ⟨"/u/A.class", "u", "A", Ruling.pairClass "A" none⟩).value.decision.isKeep = false
      ∧ Tally.ofDecls {} Ruling.pair = { total := 2, withoutSubtypes := 1, madeFinal := 1
                                         withSubtypes := 1, notYetSealed := 1, madeSealed := 1 }
      ∧ (Tally.ofDecls { sealing := false } Ruling.pair).notYetSealed = 1
      ∧ (Tally.ofDecls { filter := .only (NameSet.ofList ["u"] ∪ NameSet.ofList ["v"]) }
        Ruling.pair).total = 2
      ∧ Tally.ofDecls { filter := .only (NameSet.ofList ["u"] ∪ NameSet.ofList ["v"]) } Ruling.pair
        = (Tally.ofDecls { filter := .only (NameSet.ofList ["u"]) } Ruling.pair).add
          (Tally.ofDecls { filter := .only (NameSet.ofList ["v"]) } Ruling.pair) := by
  have hdisjoint : ∀ unit ∈ NameSet.ofList ["u"], unit ∉ NameSet.ofList ["v"] := by
    simp [NameSet.ofList]
  have htally : Tally.ofDecls {} Ruling.pair
      = { total := 2, withoutSubtypes := 1, madeFinal := 1
          withSubtypes := 1, notYetSealed := 1, madeSealed := 1 } := by decide +kernel
  obtain ⟨hmask, _, _, _⟩ := decision_eq_mask Ruling.pair { sealing := false }
  obtain ⟨_, hcounts, hunion, _⟩ := decision_eq_mask Ruling.pair {}
  obtain ⟨_, _, _, hopen⟩ := hcounts { sealing := false } rfl
  rw [htally] at hopen
  refine ⟨?_, by decide +kernel, htally, hopen, by decide +kernel, hunion _ _ hdisjoint⟩
  rw [hmask]
  decide +kernel

end LinkSet
