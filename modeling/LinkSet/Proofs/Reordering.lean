import LinkSet.Proofs.ClosedWorld
import LinkSet.Proofs.Totals

/-!
# Reordering

The order of the entries of a link set does not matter, and neither does what lies between the class
files (`Tightening.run_reordered`). A run looks at a class file, at the index and at nothing else,
and the index does not remember in which order the types were added to it (`Index.ofDecls_perm`).
Only a path that is used twice could tell, since the last type with a path is the one that is found
there.
-/

namespace LinkSet

/-! ## The index of types in another order -/

namespace NameMultimap

theorem ext_get? {m m' : NameMultimap} (h : ∀ k, m.get? k = m'.get? k) : m = m' := by
  obtain ⟨sets⟩ := m
  obtain ⟨sets'⟩ := m'
  exact congrArg mk (Std.ExtTreeMap.ext_getElem? h)

/-- A multimap is determined by its pairs, however often and in whatever order they are added. -/
theorem ofPairs_congr {pairs pairs' : List (String × String)} (h : ∀ p, p ∈ pairs ↔ p ∈ pairs') :
    ofPairs pairs = ofPairs pairs' := by
  refine ext_get? fun k => ?_
  have hnone : (ofPairs pairs).get? k = none ↔ (ofPairs pairs').get? k = none := by
    simp only [get?_ofPairs_eq_none, h]
  cases hvalues : (ofPairs pairs).get? k with
  | none => exact (hnone.1 hvalues).symm
  | some values =>
    cases hvalues' : (ofPairs pairs').get? k with
    | none =>
      rw [hnone.2 hvalues'] at hvalues
      cases hvalues
    | some values' =>
      have hmem : ∀ v, v ∈ values ↔ v ∈ values' := fun v => by
        rw [← contains_of_get? hvalues, ← contains_of_get? hvalues', contains_ofPairs,
          contains_ofPairs, h]
      rw [Std.ExtTreeSet.ext_mem hmem]

end NameMultimap

/-- The index does not depend on the order of the types, if all paths are different. -/
theorem Index.ofDecls_perm {decls decls' : List TypeDecl} (h : decls.Perm decls')
    (hpaths : (decls.map TypeDecl.path).Nodup) : ofDecls decls = ofDecls decls' := by
  have hsubtypes : NameMultimap.ofPairs (subtypePairs decls)
      = NameMultimap.ofPairs (subtypePairs decls') :=
    NameMultimap.ofPairs_congr fun _ => (h.flatMap_right _).mem_iff
  have hmembers : NameMultimap.ofPairs (memberPairs decls)
      = NameMultimap.ofPairs (memberPairs decls') :=
    NameMultimap.ofPairs_congr fun _ => (h.map _).mem_iff
  have hbyPath : (ofDecls decls).byPath = (ofDecls decls').byPath := by
    have hpaths' : (decls'.map TypeDecl.path).Nodup := (h.map _).nodup_iff.1 hpaths
    refine Std.ExtTreeMap.ext_getElem? fun path => Option.ext fun d => ?_
    rw [byPath_iff hpaths, byPath_iff hpaths', h.mem_iff]
  calc ofDecls decls
      = ⟨.ofPairs (subtypePairs decls), .ofPairs (memberPairs decls), (ofDecls decls).byPath⟩ := rfl
    _ = ofDecls decls' := by rw [hsubtypes, hmembers, hbyPath]; rfl

/-- The counts do not depend on the order of the types either. -/
theorem Tally.ofDecls_perm {settings : Settings} {decls decls' : List TypeDecl}
    (h : decls.Perm decls') (hpaths : (decls.map TypeDecl.path).Nodup) :
    ofDecls settings decls = ofDecls settings decls' := by
  rw [ofDecls, ofDecls, Index.ofDecls_perm h hpaths]
  exact sum_perm (h.map _)

namespace Tightening

variable {ix : Index} {settings : Settings} {entries entries' : List Entry}

/-! ## The types that entries declare -/

/-- Entries that are not class files declare nothing. -/
theorem declared_filter : declared (entries.filter Entry.isClass) = declared entries := by
  rw [declared, declared, List.filterMap_filter]
  refine congrArg (List.filterMap · entries) (funext fun e => ?_)
  cases hclass : e.isClass with
  | false => exact (declaration_of_other hclass).symm
  | true => rfl

theorem declared_perm (h : (entries.filter Entry.isClass).Perm (entries'.filter Entry.isClass)) :
    (declared entries).Perm (declared entries') := by
  rw [← declared_filter, ← @declared_filter entries']
  exact h.filterMap _

/-- Types have different paths if their class files have. -/
theorem nodup_declared_path (h : ((entries.filter Entry.isClass).map Entry.path).Nodup) :
    ((declared entries).map TypeDecl.path).Nodup := by
  rw [List.Nodup, List.pairwise_map] at h ⊢
  refine pairwise_declared (fun hread hread' hne hpath => ?_) h
  obtain ⟨hentry, _⟩ := TypeDecl.ofEntry_eq_ok.1 hread
  obtain ⟨hentry', _⟩ := TypeDecl.ofEntry_eq_ok.1 hread'
  exact hne (by rw [hentry, hentry', hpath])

/-! ## What comes of an entry -/

/-- What comes of one entry, if it can be read and changed. -/
def outcome (ix : Index) (settings : Settings) (e : Entry) : Step :=
  match (liftM (declOf? e) >>= step ix settings e).run.value with
  | .ok s => s
  | .error _ => ⟨e, none, {}⟩

theorem yields_declOf?_step {e : Entry} {s : Step} :
    Yields (liftM (declOf? e) >>= step ix settings e) s ↔ StepOf ix settings e s := by
  rw [yields_bind]
  constructor
  · rintro ⟨decl, hdecl, hstep⟩
    exact (yields_step (yields_except.1 hdecl)).1 hstep
  · intro h
    obtain ⟨decl, hdecl⟩ := h.exists_decl
    exact ⟨decl, yields_except.2 hdecl, (yields_step hdecl).2 h⟩

/-- The step on an entry is determined by the entry, the index and the settings. -/
theorem StepOf.eq_outcome {e : Entry} {s : Step} (h : StepOf ix settings e s) :
    s = outcome ix settings e := by
  have hyields : (liftM (declOf? e) >>= step ix settings e).run.value = .ok s :=
    yields_declOf?_step.2 h
  rw [outcome, hyields]

/-- A run comes to what comes of its entries. -/
theorem eq_gather_outcome {result : Tightened} (h : Yields (run settings entries) result) :
    result = gather (entries.map (outcome (Index.ofDecls (declared entries)) settings)) := by
  obtain ⟨steps, hsteps, rfl⟩ := yields_run.1 h
  have heq : List.Forall₂ (· = ·)
      (entries.map (outcome (Index.ofDecls (declared entries)) settings)) steps :=
    List.forall₂_map_left_iff.2 (hsteps.imp fun _ _ hstep => hstep.eq_outcome.symm)
  rw [List.forall₂_eq_eq_eq] at heq
  rw [heq]

/-- An entry keeps its path and its kind. -/
theorem outcome_place (e : Entry) :
    (outcome ix settings e).entry.path = e.path ∧ (outcome ix settings e).entry.kind = e.kind := by
  cases hvalue : (liftM (declOf? e) >>= step ix settings e).run.value with
  | error cause =>
    rw [outcome, hvalue]
    exact ⟨rfl, rfl⟩
  | ok s =>
    have hstep : StepOf ix settings e s := yields_declOf?_step.1 hvalue
    rw [← hstep.eq_outcome, hstep.entry_eq]
    exact ⟨rfl, rfl⟩

theorem outcome_of_other {e : Entry} (hother : e.isClass = false) :
    outcome ix settings e = ⟨e, none, {}⟩ :=
  (StepOf.other hother).eq_outcome.symm

/-! ## Runs on entries in another order -/

theorem exists_run_iff :
    (∃ result, Yields (run settings entries) result)
      ↔ ∀ e ∈ entries.filter Entry.isClass,
        ∃ s, StepOf (Index.ofDecls (declared entries)) settings e s := by
  simp only [yields_run, List.mem_filter]
  constructor
  · rintro ⟨_, steps, hsteps, _⟩ e ⟨he, _⟩
    exact Result.exists_forall₂_iff.1 ⟨steps, hsteps⟩ e he
  · intro h
    have hall : ∀ e ∈ entries, ∃ s, StepOf (Index.ofDecls (declared entries)) settings e s := by
      intro e he
      cases hclass : e.isClass with
      | false => exact ⟨_, .other hclass⟩
      | true => exact h e ⟨he, hclass⟩
    obtain ⟨steps, hsteps⟩ := Result.exists_forall₂_iff.2 hall
    exact ⟨_, steps, hsteps, rfl⟩

/-- If two link sets have the same class files, in whatever order and among whatever other entries,
and no path is that of two class files, then a run succeeds on both or on neither. The decisions are
the same and so are the counts. There is one answer for both to what becomes of an entry and to what
is told of it, and entries and changes come in the order of the link set that they are from. -/
theorem run_reordered
    (hperm : (entries.filter Entry.isClass).Perm (entries'.filter Entry.isClass))
    (hpaths : ((entries.filter Entry.isClass).map Entry.path).Nodup) :
    ((∃ result, (run settings entries).run.value = .ok result)
        ↔ ∃ result, (run settings entries').run.value = .ok result)
      ∧ (∀ e, decisionOn settings entries' e = decisionOn settings entries e)
      ∧ ∃ (become : Entry → Entry) (report : Entry → Option Change),
        (∀ e, (become e).path = e.path ∧ (become e).kind = e.kind
          ∧ (e.isClass = false → become e = e ∧ report e = none))
        ∧ ∀ result result', (run settings entries).run.value = .ok result →
          (run settings entries').run.value = .ok result' →
            result'.tally = result.tally
            ∧ result.entries = entries.map become ∧ result'.entries = entries'.map become
            ∧ result.changes = entries.filterMap report
            ∧ result'.changes = entries'.filterMap report := by
  have hdeclared := declared_perm hperm
  have hnodup := nodup_declared_path hpaths
  have hindex : Index.ofDecls (declared entries) = Index.ofDecls (declared entries') :=
    Index.ofDecls_perm hdeclared hnodup
  refine ⟨?_, fun e => ?_, fun e => (outcome (Index.ofDecls (declared entries)) settings e).entry,
    fun e => (outcome (Index.ofDecls (declared entries)) settings e).change, fun e => ?_, ?_⟩
  · refine exists_run_iff.trans (Iff.trans ?_ exists_run_iff.symm)
    simp only [hperm.mem_iff, hindex]
  · simp only [decisionOn, verdictOn, hindex]
  · refine ⟨(outcome_place e).1, (outcome_place e).2, fun hother => ?_⟩
    simp only [outcome_of_other hother, and_self]
  · intro result result' hrun hrun'
    have htally : result'.tally = result.tally := by
      rw [tally_of_run hrun, tally_of_run hrun', Tally.ofDecls_perm hdeclared hnodup]
    obtain rfl := eq_gather_outcome hrun
    obtain rfl := eq_gather_outcome hrun'
    -- the index is that of either link set, so both results are made by one function of the entries
    rw [← hindex] at htally ⊢
    exact ⟨htally, List.map_map, List.map_map, List.filterMap_map, List.filterMap_map⟩

/-- The class files of `pairEntries` the other way round, with another file before them. -/
def pairReversed : List Entry :=
  ⟨"/u/notes.txt", .ofUnit, [0x41]⟩ :: pairEntries.reverse

/-- The class files of `A` and `B` come out alike in either order, and the other file stays. -/
theorem run_reordered_pair :
    ∃ result result' become, (run {} pairEntries).run.value = .ok result
      ∧ (run {} pairReversed).run.value = .ok result' ∧ result'.tally = result.tally
      ∧ result.entries = pairEntries.map become
      ∧ result'.entries
        = ⟨"/u/notes.txt", .ofUnit, [0x41]⟩ :: (pairEntries.map become).reverse := by
  have hperm : (pairEntries.filter Entry.isClass).Perm (pairReversed.filter Entry.isClass) := by
    have hother : Entry.isClass ⟨"/u/notes.txt", .ofUnit, [0x41]⟩ = false := by decide +kernel
    rw [pairReversed, List.filter_cons_of_neg (by rw [hother]; decide), List.filter_reverse]
    exact (List.reverse_perm _).symm
  have hpaths : ((pairEntries.filter Entry.isClass).map Entry.path).Nodup := by decide +kernel
  obtain ⟨result, hrun, _⟩ := exists_run_pairEntries
  obtain ⟨hiff, _, become, report, hother, hboth⟩ := @run_reordered {} _ _ hperm hpaths
  obtain ⟨result', hrun'⟩ := hiff.1 ⟨result, hrun⟩
  obtain ⟨htally, hentries, hentries', _⟩ := hboth result result' hrun hrun'
  refine ⟨result, result', become, hrun, hrun', htally, hentries, ?_⟩
  rw [hentries', pairReversed, List.map_cons, List.map_reverse,
    ((hother _).2.2 (by decide +kernel)).1]

end Tightening

end LinkSet
