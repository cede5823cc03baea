import LinkSet.Proofs.Ruling
import LinkSet.Proofs.Loading

/-!
# Names that units share

The entries of a link set are loaded only if their paths are different, and the path of a class file
tells the unit and the name of its type. So a unit declares a name once at most: class files of the
same name are in different units (`Storage.pairwise_unit_ne_of_load`).

That a name is declared in one unit only does not follow. A path starts with the unit, so the paths of
two jars are different in any case, and their class files may have the same names
(`Storage.exists_shared_name_of_load`).
-/

namespace LinkSet

theorem EntryPath.unit_eq_error {path : String} {cause : PathError}
    (h : EntryPath.unit path = .error cause) : cause = .missingUnit path := by
  unfold EntryPath.unit at h
  split at h
  · split at h
    · cases h
    · exact (Except.error.inj h).symm
  · exact (Except.error.inj h).symm

/-- Of paths with the same name, no two have the same unit, or the same lack of one. -/
theorem EntryPath.unit_ne {path path' name : String} (hname : typeName path = .ok name)
    (hname' : typeName path' = .ok name) (hne : path ≠ path') :
    EntryPath.unit path ≠ EntryPath.unit path' := by
  intro hsame
  cases hunit : EntryPath.unit path with
  | ok unit =>
    have hunit' : EntryPath.unit path' = .ok unit := hsame.symm.trans hunit
    exact hne ((eq_ofType hunit hname).trans (eq_ofType hunit' hname').symm)
  | error cause =>
    have hmissing := unit_eq_error hunit
    have hmissing' := unit_eq_error (hsame.symm.trans hunit)
    rw [hmissing] at hmissing'
    exact hne (PathError.missingUnit.inj hmissing')

namespace Storage

variable {t : FileTree} {inputs : List String} {entries : List Entry}

/-- Class files of the same name that are loaded together are in different units. -/
theorem pairwise_unit_ne_of_load (h : load t inputs = .ok entries) :
    entries.Pairwise fun e e' => e.isClass = true → e'.isClass = true →
      ∀ name, EntryPath.typeName e.path = .ok name → EntryPath.typeName e'.path = .ok name →
        EntryPath.unit e.path ≠ EntryPath.unit e'.path := by
  obtain ⟨_, _, _, hnodup⟩ := load_eq_ok.1 h
  rw [List.Nodup, List.pairwise_map] at hnodup
  refine hnodup.imp fun hne _ _ name hname hname' => ?_
  exact EntryPath.unit_ne hname hname' hne

/-- Two jars with a class file for `A` each. -/
def sharingJars : FileTree :=
  let jar : Content := .packed { members := [⟨"A.class", Ruling.pairBytes 2 0⟩] }
  (FileTree.empty.put ["a.jar"] (.file jar)).put ["b.jar"] (.file jar)

/-- What is loaded from the two jars. -/
def sharedEntries : List Entry :=
  [⟨"/a/A.class", .ofUnit, Ruling.pairBytes 2 0⟩, ⟨"/b/A.class", .ofUnit, Ruling.pairBytes 2 0⟩]

theorem pairwise_unit_ne_of_load_sharing :
    load sharingJars ["a.jar", "b.jar"] = .ok sharedEntries
      ∧ EntryPath.unit "/a/A.class" ≠ EntryPath.unit "/b/A.class" := by
  have hload : load sharingJars ["a.jar", "b.jar"] = .ok sharedEntries := by decide +kernel
  have hpair := pairwise_unit_ne_of_load hload
  rw [sharedEntries, List.pairwise_pair] at hpair
  exact ⟨hload,
    hpair (by decide +kernel) (by decide +kernel) "A" (by decide +kernel) (by decide +kernel)⟩

/-- The two jars are loaded together although `A` is declared in two units. -/
theorem exists_shared_name_of_load :
    ∃ e e', load sharingJars ["a.jar", "b.jar"] = .ok [e, e'] ∧ e.isClass = true
      ∧ e'.isClass = true ∧ EntryPath.typeName e.path = .ok "A"
      ∧ EntryPath.typeName e'.path = .ok "A" ∧ EntryPath.unit e.path = .ok "a"
      ∧ EntryPath.unit e'.path = .ok "b" := by
  refine ⟨⟨"/a/A.class", .ofUnit, Ruling.pairBytes 2 0⟩,
    ⟨"/b/A.class", .ofUnit, Ruling.pairBytes 2 0⟩, ?_⟩
  decide +kernel

end Storage

end LinkSet
