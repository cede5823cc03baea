import LinkSet.Proofs.SecondRun

/-!
# Reports of changes

A run tells the changes that it has made, all of them and no others (`Tightening.changes_of_run`).
That a change is told of each type that is not kept is how a step is made. That these are just the
entries whose content is another one afterwards is not: it takes that every change shows in the
bytes (`ClassFile.apply_ne`). A class file whose bytes were the same would say that it is final
already, or that it lists its subtypes already, and then the type would have been kept.
-/

namespace LinkSet

/-! ## Changes that show -/

/-- A change shows in the bytes, unless the class file says already what it is to say. -/
theorem ClassFile.apply_ne {b out : Bytes} {cf : ClassFile} {decision : Decision}
    (hparse : parse b = .ok cf) (happly : cf.apply decision b = .ok out)
    (hnew : ¬ ChangedBy decision cf cf) : out ≠ b := by
  rintro rfl
  exact hnew (changedBy_of_parse hparse happly hparse)

namespace Verdict

variable {ix : Index} {settings : Settings} {d : TypeDecl}

theorem accepts_of_ne_keep (h : (ofDecl ix settings d).value.decision ≠ .keep) :
    settings.filter.accepts d.unit = true := by
  by_contra hunit
  rw [Ruling.value_ofDecl_of_rejected hunit] at h
  exact h rfl

/-- A type that is not kept does not say already what it is to say. -/
theorem not_changedBy_of_ne_keep {decls : List TypeDecl}
    (h : (ofDecl (Index.ofDecls decls) settings d).value.decision ≠ .keep) :
    ¬ ClassFile.ChangedBy (ofDecl (Index.ofDecls decls) settings d).value.decision d.classFile
      d.classFile := by
  intro hsame
  cases hdecision : (ofDecl (Index.ofDecls decls) settings d).value.decision with
  | keep => exact h hdecision
  | markFinal =>
    obtain ⟨_, _, _, hopen, _⟩ := decision_eq_markFinal_iff.1 hdecision
    have hfinal : d.classFile.isFinal = true := hsame.isFinal_iff.2 (.inr hdecision)
    rw [hopen] at hfinal
    cases hfinal
  | sealTo names =>
    obtain ⟨hparent, hopen, _, _⟩ := of_sealTo hdecision
    have hnames : names.toList ≠ [] := Index.toList_ne_nil hparent
    have hlisted : d.classFile.permittedSubclasses = some names.toList := by
      rw [hdecision] at hsame
      exact hsame.permittedSubclasses_eq
    exact Ruling.not_isOpen_of_lists hlisted hnames hopen

end Verdict

namespace Tightening

variable {settings : Settings} {entries : List Entry} {e : Entry}

/-! ## What is told of an entry -/

theorem decisionOn_of_class {d : TypeDecl} (hclass : e.isClass = true)
    (hread : TypeDecl.ofEntry e = .ok d) :
    decisionOn settings entries e = (verdictOn settings entries d).decision := by
  rw [decisionOn, declaration_eq_some.2 ⟨hclass, hread⟩]

theorem decisionOn_of_other (hother : e.isClass = false) :
    decisionOn settings entries e = .keep := by
  rw [decisionOn, declaration_of_other hother]

/-- The entries that are not kept are class files of types, of units that may be changed. -/
theorem decisionOn_ne_keep_iff :
    decisionOn settings entries e ≠ .keep ↔ e.isClass = true ∧ ∃ d, TypeDecl.ofEntry e = .ok d
      ∧ settings.filter.accepts d.unit = true
      ∧ (verdictOn settings entries d).decision ≠ .keep := by
  constructor
  · intro h
    cases hdeclaration : declaration e with
    | none =>
      rw [decisionOn, hdeclaration] at h
      exact absurd rfl h
    | some d =>
      obtain ⟨hclass, hread⟩ := declaration_eq_some.1 hdeclaration
      rw [decisionOn_of_class hclass hread] at h
      exact ⟨hclass, d, hread, Verdict.accepts_of_ne_keep h, h⟩
  · rintro ⟨hclass, d, hread, _, h⟩
    rw [decisionOn_of_class hclass hread]
    exact h

/-- What is told of an entry that comes out with the given content. -/
def changeTo (settings : Settings) (entries : List Entry) (e : Entry) (content : Bytes) : Change :=
  ⟨e.path, decisionOn settings entries e, Sha256.hexDigest content⟩

/-- A step leaves an entry that is kept as it is and tells nothing. It changes the content of any
other, and tells so. -/
theorem StepOf.reports {s : Step} (h : StepOf (Index.ofDecls (declared entries)) settings e s) :
    (decisionOn settings entries e = .keep ∧ s.entry.content = e.content ∧ s.change = none)
      ∨ (decisionOn settings entries e ≠ .keep ∧ s.entry.content ≠ e.content
        ∧ s.change = some (changeTo settings entries e s.entry.content)) := by
  cases h with
  | other hother => exact .inl ⟨decisionOn_of_other hother, rfl, rfl⟩
  | kept hclass hread hv hkeep =>
    refine .inl ⟨?_, rfl, rfl⟩
    rw [decisionOn_of_class hclass hread, verdictOn, hv]
    exact Decision.isKeep_iff.1 hkeep
  | @changed d v content hclass hread hv hkeep happly =>
    have hdecision : decisionOn settings entries e = v.decision := by
      rw [decisionOn_of_class hclass hread, verdictOn, hv]
    have hne : v.decision ≠ .keep := by
      rw [Ne, ← Decision.isKeep_iff, hkeep]
      decide
    have hparse := (TypeDecl.ofEntry_eq_ok.1 hread).2.2.2
    subst hv
    refine .inr ⟨hdecision ▸ hne, ?_, ?_⟩
    · exact ClassFile.apply_ne hparse happly (Verdict.not_changedBy_of_ne_keep hne)
    · rw [changeTo, hdecision]

theorem StepOf.content_ne_iff {s : Step}
    (h : StepOf (Index.ofDecls (declared entries)) settings e s) :
    s.entry.content ≠ e.content ↔ decisionOn settings entries e ≠ .keep := by
  rcases h.reports with ⟨hkeep, hsame, _⟩ | ⟨hne, hdiffers, _⟩
  · exact iff_of_false (fun h => h hsame) (fun h => h hkeep)
  · exact iff_of_true hdiffers hne

/-! ## What a run tells -/

/-- The changes are told of the steps whose entries have another content afterwards. -/
theorem changes_steps {all : List Entry} {steps : List Step}
    (h : List.Forall₂ (StepOf (Index.ofDecls (declared all)) settings) entries steps) :
    steps.filterMap (·.change)
      = ((entries.zip (steps.map (·.entry))).filter fun p => p.2.content ≠ p.1.content).map
        fun p => changeTo settings all p.1 p.2.content := by
  induction h with
  | nil => rfl
  | @cons e s es ss hstep _ ih =>
    rw [List.map_cons, List.zip_cons_cons, List.filter_cons, List.filterMap_cons]
    rcases hstep.reports with ⟨_, hsame, hnone⟩ | ⟨_, hdiffers, hsome⟩
    · simp only [hnone, hsame, ne_eq, not_true, decide_false, Bool.false_eq_true, if_false]
      exact ih
    · simp only [hsome, hdiffers, ne_eq, not_false_eq_true, decide_true, if_true, List.map_cons]
      rw [← ih]

/-- What comes out of a run are the entries that went in, in order and with their paths and kinds.
An entry has another content exactly if it is the class file of a type that is not kept, of a unit
that may be changed. Of these entries, in order, and of no others the run tells a change, with the
path, the decision and the digest of the new content. -/
theorem changes_of_run {result : Tightened} (h : (run settings entries).run.value = .ok result) :
    List.Forall₂ (fun e e' => e'.path = e.path ∧ e'.kind = e.kind
        ∧ (e'.content ≠ e.content ↔ e.isClass = true ∧ ∃ d, TypeDecl.ofEntry e = .ok d
          ∧ settings.filter.accepts d.unit = true
          ∧ (verdictOn settings entries d).decision ≠ .keep)) entries result.entries
      ∧ result.changes
        = ((entries.zip result.entries).filter fun p => p.2.content ≠ p.1.content).map fun p =>
          ⟨p.1.path, decisionOn settings entries p.1, Sha256.hexDigest p.2.content⟩ := by
  obtain ⟨steps, hsteps, rfl⟩ := yields_run.1 h
  refine ⟨?_, changes_steps hsteps⟩
  rw [gather, List.forall₂_map_right_iff]
  refine hsteps.imp fun e s hstep => ⟨?_, ?_, ?_⟩
  · rw [hstep.entry_eq]
  · rw [hstep.entry_eq]
  · exact hstep.content_ne_iff.trans decisionOn_ne_keep_iff

/-- The class file of `B`, which is made final, has another content afterwards, and what is told are
the changes of content. -/
theorem changes_of_run_pair :
    ∃ result, (run {} pairEntries).run.value = .ok result
      ∧ (∃ e', result.entries[1]? = some e' ∧ e'.path = "/u/B.class"
        ∧ e'.content ≠ Ruling.pairBytes 4 2)
      ∧ result.changes
        = ((pairEntries.zip result.entries).filter fun p => p.2.content ≠ p.1.content).map fun p =>
          ⟨p.1.path, decisionOn {} pairEntries p.1, Sha256.hexDigest p.2.content⟩ := by
  obtain ⟨result, hrun, _⟩ := exists_run_pairEntries
  have hread : TypeDecl.ofEntry ⟨"/u/B.class", .ofUnit, Ruling.pairBytes 4 2⟩
      = .ok ⟨"/u/B.class", "u", "B", Ruling.pairClass "B" (some "A")⟩ := by decide +kernel
  have hne : (verdictOn {} pairEntries
      ⟨"/u/B.class", "u", "B", Ruling.pairClass "B" (some "A")⟩).decision ≠ .keep := by
    rw [Ne, ← Decision.isKeep_iff]
    decide +kernel
  obtain ⟨hentries, hchanges⟩ := changes_of_run hrun
  obtain ⟨e', he', hpath, _, hcontent⟩ := Result.forall₂_getElem? hentries
    (show pairEntries[1]? = some ⟨"/u/B.class", .ofUnit, Ruling.pairBytes 4 2⟩ from rfl)
  have hdiffers := hcontent.2 ⟨by decide +kernel, _, hread, rfl, hne⟩
  exact ⟨result, hrun, ⟨e', he', hpath, hdiffers⟩, hchanges⟩

end Tightening

end LinkSet
