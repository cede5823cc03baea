import LinkSet.Proofs.ClosedWorld

/-!
# Names that class files link by

A run knows a type by the name that its path tells. Class files refer to each other by the names that
they record for themselves, and these are what a type is linked by when it is loaded. Where the path
of a class file tells the name that it records, a class is made final only if no class file names it
as its superclass (`Tightening.superName_ne_of_change`).

It is for the layout of a link set to see to this. In a unit that keeps its class files in a folder of
their own, every path tells a longer name, under which the index has no subtypes.
-/

namespace LinkSet.Tightening

variable {settings : Settings} {entries : List Entry} {result : Tightened} {change : Change}

theorem name_eq_of_path {p e : Entry} {d d' : TypeDecl} (hread : TypeDecl.ofEntry p = .ok d)
    (hread' : TypeDecl.ofEntry e = .ok d') (hpath : p.path = e.path) : d.name = d'.name := by
  obtain ⟨_, _, hname, _⟩ := TypeDecl.ofEntry_eq_ok.1 hread
  obtain ⟨_, _, hname', _⟩ := TypeDecl.ofEntry_eq_ok.1 hread'
  rw [hpath, hname'] at hname
  exact (Except.ok.inj hname).symm

/-- A change that makes a type final is made only if no declared type extends the name that the path
of the change tells. -/
theorem not_extends_of_change (hrun : (run settings entries).run.value = .ok result)
    (hchange : change ∈ result.changes) (hfinal : change.decision = .markFinal) {p : Entry}
    {d : TypeDecl} (hpath : p.path = change.path) (hread : TypeDecl.ofEntry p = .ok d) :
    ∀ sub ∈ declared entries, ¬ sub.Extends d.name := by
  obtain ⟨e, _, _, hchanged, d', hread', hdecision⟩ := exists_entry_of_change hrun hchange
  have hname : d.name = d'.name := name_eq_of_path hread hread' (hpath.trans hchanged)
  rw [hname]
  exact Verdict.not_extends_of_markFinal (hdecision.symm.trans hfinal)

/-- Whether a run makes the type with the given path final. -/
def makesFinal (settings : Settings) (entries : List Entry) (path : String) : Bool :=
  match (run settings entries).run.value with
  | .ok result => result.changes.any fun c =>
    c.path == path && !c.decision.isKeep && c.decision.subtypes?.isNone
  | .error _ => false

theorem exists_change_of_makesFinal {path : String} (h : makesFinal settings entries path = true) :
    ∃ result change, (run settings entries).run.value = .ok result ∧ change ∈ result.changes
      ∧ change.path = path ∧ change.decision = .markFinal := by
  unfold makesFinal at h
  cases hrun : (run settings entries).run.value with
  | error cause =>
    rw [hrun] at h
    cases h
  | ok result =>
    simp only [hrun, List.any_eq_true, Bool.and_eq_true, beq_iff_eq] at h
    obtain ⟨change, hchange, ⟨hpath, hkeep⟩, hnone⟩ := h
    refine ⟨result, change, rfl, hchange, hpath, ?_⟩
    cases hdecision : change.decision with
    | keep => simp [hdecision, Decision.isKeep] at hkeep
    | markFinal => rfl
    | sealTo names => simp [hdecision, Decision.subtypes?] at hnone

/-- If the path of a class file tells the name that the class file records, and the class is made
final, no class file of the link set has this name as that of its superclass. -/
theorem superName_ne_of_change (hrun : (run settings entries).run.value = .ok result)
    (hchange : change ∈ result.changes) (hfinal : change.decision = .markFinal) {p : Entry}
    {d : TypeDecl} (hpath : p.path = change.path) (hread : TypeDecl.ofEntry p = .ok d)
    (hlinked : d.name = d.classFile.thisName) :
    ∀ e ∈ entries, e.isClass = true → ∀ sub, TypeDecl.ofEntry e = .ok sub →
      sub.classFile.superName ≠ some d.classFile.thisName := by
  intro e he hclass sub hsub hsuper
  have hmem : sub ∈ declared entries := mem_declared.2 ⟨e, he, hclass, hsub⟩
  rw [← hlinked] at hsuper
  exact not_extends_of_change hrun hchange hfinal hpath hread sub hmem (.inl hsuper)

/-- The class `B` is made final, so it is not the superclass of `A`. -/
theorem superName_ne_of_change_pair :
    makesFinal {} pairEntries "/u/B.class" = true
      ∧ (Ruling.pairClass "A" none).superName ≠ some "B" := by
  have hmakes : makesFinal {} pairEntries "/u/B.class" = true := by decide +kernel
  obtain ⟨result, change, hrun, hchange, hpath, hfinal⟩ := exists_change_of_makesFinal hmakes
  have hreadB : TypeDecl.ofEntry ⟨"/u/B.class", .ofUnit, Ruling.pairBytes 4 2⟩
      = .ok ⟨"/u/B.class", "u", "B", Ruling.pairClass "B" (some "A")⟩ := by decide +kernel
  have hreadA : TypeDecl.ofEntry ⟨"/u/A.class", .ofUnit, Ruling.pairBytes 2 0⟩
      = .ok ⟨"/u/A.class", "u", "A", Ruling.pairClass "A" none⟩ := by decide +kernel
  exact ⟨hmakes, superName_ne_of_change hrun hchange hfinal hpath.symm hreadB rfl _
    List.mem_cons_self (by decide +kernel) _ hreadA⟩

/-- The class files of `pairEntries` in a folder of their unit. -/
def nestedEntries : List Entry :=
  [⟨"/u/WEB-INF/classes/A.class", .ofUnit, Ruling.pairBytes 2 0⟩,
    ⟨"/u/WEB-INF/classes/B.class", .ofUnit, Ruling.pairBytes 4 2⟩]

/-- In a folder of its unit, the class `A` is made final although it is the superclass of `B`. -/
theorem superName_eq_of_change_nested :
    ∃ result change p d e sub, (run { sealing := false } nestedEntries).run.value = .ok result
      ∧ change ∈ result.changes ∧ change.decision = .markFinal
      ∧ p ∈ nestedEntries ∧ p.path = change.path ∧ TypeDecl.ofEntry p = .ok d
      ∧ e ∈ nestedEntries ∧ e.isClass = true ∧ TypeDecl.ofEntry e = .ok sub
      ∧ sub.classFile.superName = some d.classFile.thisName := by
  have hmakes : makesFinal { sealing := false } nestedEntries "/u/WEB-INF/classes/A.class" = true := by
    decide +kernel
  obtain ⟨result, change, hrun, hchange, hpath, hfinal⟩ := exists_change_of_makesFinal hmakes
  have hreadA : TypeDecl.ofEntry ⟨"/u/WEB-INF/classes/A.class", .ofUnit, Ruling.pairBytes 2 0⟩
      = .ok ⟨"/u/WEB-INF/classes/A.class", "u", "WEB-INF/classes/A", Ruling.pairClass "A" none⟩ := by
    decide +kernel
  have hreadB : TypeDecl.ofEntry ⟨"/u/WEB-INF/classes/B.class", .ofUnit, Ruling.pairBytes 4 2⟩
      = .ok ⟨"/u/WEB-INF/classes/B.class", "u", "WEB-INF/classes/B",
        Ruling.pairClass "B" (some "A")⟩ := by
    decide +kernel
  exact ⟨result, change, _, _, _, _, hrun, hchange, hfinal, List.mem_cons_self, hpath.symm, hreadA,
    List.mem_cons_of_mem _ List.mem_cons_self, by decide +kernel, hreadB, rfl⟩

end LinkSet.Tightening
