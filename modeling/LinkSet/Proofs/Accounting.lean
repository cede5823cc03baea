import LinkSet.Proofs.ClosedWorld
import LinkSet.Proofs.Totals

/-!
# Accounting

The counts of a run agree with each other, with the entries that went in and with the changes that
are told (`Tightening.balances_of_run`). Each verdict counts in such a way that this holds of the
one type it is on (`Verdict.Grounds.balances`), and it is kept when counts are added up
(`Tally.Balances.add`).
-/

namespace LinkSet

/-! ## Balanced counts -/

namespace Decision

/-- Whether the type is made final. -/
def isMarkFinal : Decision → Bool
  | .markFinal => true
  | _ => false

/-- Whether the type is sealed. -/
def isSealTo : Decision → Bool
  | .sealTo _ => true
  | _ => false

end Decision

namespace Tally

/-- The counts are those of so many types, on which these decisions were carried out. -/
structure Balances (t : Tally) (types : Nat) (decisions : List Decision) : Prop where
  total : t.total = types
  kinds : t.total = t.withoutSubtypes + t.withSubtypes
  madeFinal_le : t.madeFinal ≤ t.withoutSubtypes
  madeSealed_le : t.madeSealed ≤ t.notYetSealed
  notYetSealed_le : t.notYetSealed ≤ t.withSubtypes
  madeFinal : t.madeFinal = decisions.countP Decision.isMarkFinal
  madeSealed : t.madeSealed = decisions.countP Decision.isSealTo
  length : decisions.length = t.madeFinal + t.madeSealed

theorem Balances.empty : Balances {} 0 [] := by
  constructor <;> decide

theorem Balances.add {s t : Tally} {m n : Nat} {ds es : List Decision} (hs : s.Balances m ds)
    (ht : t.Balances n es) : (s.add t).Balances (m + n) (ds ++ es) := by
  obtain ⟨hs₁, hs₂, hs₃, hs₄, hs₅, hs₆, hs₇, hs₈⟩ := hs
  obtain ⟨ht₁, ht₂, ht₃, ht₄, ht₅, ht₆, ht₇, ht₈⟩ := ht
  constructor <;> simp only [Tally.add, List.countP_append, List.length_append] <;> omega

end Tally

/-- A verdict counts one type, if its unit may be changed, and the change that it makes. -/
theorem Verdict.Grounds.balances {ix : Index} {settings : Settings} {d : TypeDecl} {v : Verdict}
    (h : Grounds ix settings d v) :
    v.tally.Balances (if settings.filter.accepts d.unit then 1 else 0)
      (if v.decision.isKeep then [] else [v.decision]) := by
  cases h with
  | excluded hunit =>
    rw [if_neg hunit]
    exact .empty
  | keptLeaf hunit _ _ =>
    rw [if_pos hunit]
    constructor <;> decide
  | finalLeaf hunit _ _ =>
    rw [if_pos hunit]
    constructor <;> decide
  | sealedBefore hunit _ _ =>
    rw [if_pos hunit]
    constructor <;> decide
  | keptParent hunit _ _ _ =>
    rw [if_pos hunit]
    constructor <;> decide
  | sealedParent hunit _ _ _ _ =>
    rw [if_pos hunit]
    exact ⟨rfl, rfl, Nat.le_refl 0, Nat.le_refl 1, Nat.le_refl 1, rfl, rfl, rfl⟩

namespace Tightening

/-! ## The counts of a run -/

variable {ix : Index} {settings : Settings} {entries : List Entry}

/-- Whether the entry is the class file of a type of a unit that may be changed. -/
def inScope (settings : Settings) (e : Entry) : Bool :=
  e.isClass && match EntryPath.unit e.path with
    | .ok unit => settings.filter.accepts unit
    | .error _ => false

theorem inScope_of_other {e : Entry} (hother : e.isClass = false) : inScope settings e = false := by
  rw [inScope, hother, Bool.false_and]

theorem inScope_of_class {e : Entry} {d : TypeDecl} (hclass : e.isClass = true)
    (hread : TypeDecl.ofEntry e = .ok d) : inScope settings e = settings.filter.accepts d.unit := by
  obtain ⟨_, hunit, _, _⟩ := TypeDecl.ofEntry_eq_ok.1 hread
  rw [inScope, hclass, Bool.true_and, hunit]

theorem StepOf.balances {e : Entry} {s : Step} (h : StepOf ix settings e s) :
    s.tally.Balances (if inScope settings e then 1 else 0)
      (s.change.toList.map (·.decision)) := by
  cases h with
  | other hother =>
    rw [inScope_of_other hother]
    exact .empty
  | kept hclass hread hv hkeep =>
    have hbalances := (Verdict.value_ofDecl_iff.1 hv).balances
    rw [hkeep] at hbalances
    rw [inScope_of_class hclass hread]
    exact hbalances
  | changed hclass hread hv hkeep _ =>
    have hbalances := (Verdict.value_ofDecl_iff.1 hv).balances
    rw [hkeep] at hbalances
    rw [inScope_of_class hclass hread]
    exact hbalances

theorem balances_steps {steps : List Step} (h : List.Forall₂ (StepOf ix settings) entries steps) :
    (Tally.sum (steps.map (·.tally))).Balances (entries.countP (inScope settings))
      ((steps.filterMap (·.change)).map (·.decision)) := by
  induction h with
  | nil => exact .empty
  | @cons e s es ss hstep _ ih =>
    have hchanges : (s :: ss).filterMap (·.change)
        = s.change.toList ++ ss.filterMap (·.change) := by
      rw [List.filterMap_cons]
      cases s.change <;> rfl
    rw [List.map_cons, Tally.sum_cons, List.countP_cons, Nat.add_comm, hchanges, List.map_append]
    exact hstep.balances.add ih

/-- A run counts each class file of a unit that may be changed once, as the class file of a type
without or with subtypes. Types that became final are types without subtypes, types that became
sealed are some with subtypes that were not sealed yet, and there are as many of both as changes are
told. -/
theorem balances_of_run {result : Tightened} (h : (run settings entries).run.value = .ok result) :
    result.tally.Balances (entries.countP (inScope settings))
      (result.changes.map (·.decision)) := by
  obtain ⟨steps, hsteps, rfl⟩ := yields_run.1 h
  exact balances_steps hsteps

/-- Of the classes `A` and `B`, the one is sealed and the other made final. -/
theorem balances_of_run_pair :
    ∃ result, (run {} pairEntries).run.value = .ok result
      ∧ result.tally.Balances 2 (result.changes.map (·.decision)) ∧ result.changes.length = 2 := by
  obtain ⟨result, hrun, hlength⟩ := exists_run_pairEntries
  have hscope : pairEntries.countP (inScope {}) = 2 := by decide +kernel
  have hbalances := balances_of_run hrun
  rw [hscope] at hbalances
  exact ⟨result, hrun, hbalances, hlength⟩

end Tightening

end LinkSet
