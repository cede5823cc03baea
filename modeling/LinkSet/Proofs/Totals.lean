import LinkSet.Proofs.Runs
import Mathlib.Data.List.Perm.Basic

/-!
# Totals

The counts of a run are those of its steps added up, and entries that declare no type add nothing to
them. So they are the counts of the declared types, each by the verdict on it
(`Tightening.tally_of_run`), in whatever order these are added (`Tally.sum_perm`).
-/

namespace LinkSet

namespace Tally

/-! ## Sums -/

/-- The counts of all parts together. -/
def sum (ts : List Tally) : Tally := ts.foldl add {}

instance : Std.Associative add := ⟨add_assoc⟩

instance : Std.Commutative add := ⟨add_comm⟩

theorem sum_cons (t : Tally) (ts : List Tally) : sum (t :: ts) = t.add (sum ts) := by
  calc sum (t :: ts) = ts.foldl add (add {} t) := rfl
    _ = ts.foldl add (t.add {}) := by rw [empty_add, add_empty]
    _ = t.add (sum ts) := List.foldl_assoc

theorem sum_perm {ts ts' : List Tally} (h : ts.Perm ts') : sum ts = sum ts' := by
  refine h.foldl_eq' (fun s _ t _ r => ?_) _
  rw [add_assoc, add_comm s t, ← add_assoc]

/-- The counts of all types of a link set, each by the verdict on it. -/
def ofDecls (settings : Settings) (decls : List TypeDecl) : Tally :=
  sum (decls.map fun d => (Verdict.ofDecl (Index.ofDecls decls) settings d).value.tally)

end Tally

namespace Tightening

/-! ## The counts of a run -/

variable {ix : Index} {settings : Settings} {entries : List Entry}

theorem sum_steps {steps : List Step} (h : List.Forall₂ (StepOf ix settings) entries steps) :
    Tally.sum (steps.map (·.tally))
      = Tally.sum ((declared entries).map fun d => (Verdict.ofDecl ix settings d).value.tally) := by
  induction h with
  | nil => rfl
  | @cons e s es ss hstep _ ih =>
    rw [List.map_cons, Tally.sum_cons, ih, declared_cons, hstep.tally_eq]
    cases declaration e with
    | none => exact Tally.empty_add _
    | some d => exact (Tally.sum_cons _ _).symm

/-- A run counts the declared types. -/
theorem tally_of_run {result : Tightened} (h : Yields (run settings entries) result) :
    result.tally = Tally.ofDecls settings (declared entries) := by
  obtain ⟨steps, hsteps, rfl⟩ := yields_run.1 h
  exact sum_steps hsteps

end Tightening

end LinkSet
