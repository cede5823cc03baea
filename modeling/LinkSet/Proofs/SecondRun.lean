import LinkSet.Proofs.ClosedWorld
import LinkSet.Proofs.Verdicts

/-!
# Second runs

A second run changes nothing. What the first one does to a class file leaves its names and its
visibility alone, so the index of what comes out answers as before (`Index.AnswersAlike`). The
verdict on a type is then given on the same grounds, but for what the first run has changed about the
type itself: a type that was made final is final now, and a type that was sealed lists subclasses.
Either way it stays as it is (`Verdict.settled_of_changed`).
-/

namespace LinkSet

/-! ## Counts -/

namespace Tally

/-- How types count before and after they have been changed: as many of each kind, but none to be
changed any more. -/
structure Settles (t t' : Tally) : Prop where
  total : t'.total = t.total
  withoutSubtypes : t'.withoutSubtypes = t.withoutSubtypes
  withSubtypes : t'.withSubtypes = t.withSubtypes
  madeFinal : t'.madeFinal = 0
  madeSealed : t'.madeSealed = 0
  notYetSealed : t'.notYetSealed + t.madeSealed = t.notYetSealed

theorem Settles.empty : Settles {} {} := ⟨rfl, rfl, rfl, rfl, rfl, rfl⟩

theorem Settles.add {s s' t t' : Tally} (hs : s.Settles s') (ht : t.Settles t') :
    (s.add t).Settles (s'.add t') := by
  obtain ⟨hs₁, hs₂, hs₃, hs₄, hs₅, hs₆⟩ := hs
  obtain ⟨ht₁, ht₂, ht₃, ht₄, ht₅, ht₆⟩ := ht
  constructor <;> simp only [Tally.add] <;> omega

theorem Settles.sum {ts ts' : List Tally} (h : List.Forall₂ Settles ts ts') :
    (ts.foldl Tally.add {}).Settles (ts'.foldl Tally.add {}) :=
  List.rel_foldl (fun _ _ hs _ _ ht => hs.add ht) Settles.empty h

end Tally

/-! ## The index of changed types -/

/-- The second type is the first with a class file in which other types find the same. -/
structure TypeDecl.Redeclared (d d' : TypeDecl) : Prop where
  path : d'.path = d.path
  unit : d'.unit = d.unit
  name : d'.name = d.name
  supertypes : d'.supertypes = d.supertypes
  isPublic : d'.classFile.isPublic = d.classFile.isPublic

/-- A decision leaves alone what other types find in a class file. -/
theorem TypeDecl.redeclared_of_changed {d : TypeDecl} {cf' : ClassFile} {decision : Decision}
    (h : ClassFile.ChangedBy decision d.classFile cf') :
    d.Redeclared { d with classFile := cf' } := by
  have hsupertypes : ({ d with classFile := cf' } : TypeDecl).supertypes = d.supertypes := by
    rw [supertypes, supertypes, h.alike.superName, h.alike.interfaces]
  have hpublic : cf'.isPublic = d.classFile.isPublic := h.contains (by decide)
  exact ⟨rfl, rfl, rfl, hsupertypes, hpublic⟩

namespace Index

/-- Whether the type with a given path is public, if there is one. -/
def visibility? (types : Std.ExtTreeMap String TypeDecl) (path : String) : Option Bool :=
  types[path]?.map fun d => d.classFile.isPublic

/-- The indexes give the same answers. -/
structure AnswersAlike (ix ix' : Index) : Prop where
  subtypes : ix'.subtypes = ix.subtypes
  members : ix'.members = ix.members
  visibility : visibility? ix'.byPath = visibility? ix.byPath

variable {decls decls' : List TypeDecl}

theorem subtypePairs_eq (h : List.Forall₂ TypeDecl.Redeclared decls decls') :
    subtypePairs decls' = subtypePairs decls := by
  induction h with
  | nil => rfl
  | cons hd _ ih =>
    rw [subtypePairs, List.flatMap_cons, hd.supertypes, hd.name, ← subtypePairs, ih]
    rfl

theorem memberPairs_eq (h : List.Forall₂ TypeDecl.Redeclared decls decls') :
    memberPairs decls' = memberPairs decls := by
  induction h with
  | nil => rfl
  | cons hd _ ih =>
    rw [memberPairs, List.map_cons, hd.unit, hd.name, ← memberPairs, ih]
    rfl

theorem visibility?_insert {types types' : Std.ExtTreeMap String TypeDecl} {d d' : TypeDecl}
    (htypes : visibility? types' = visibility? types) (hd : d.Redeclared d') :
    visibility? (types'.insert d'.path d') = visibility? (types.insert d.path d) := by
  funext path
  unfold visibility?
  rw [hd.path]
  by_cases hpath : d.path = path
  · rw [hpath, Std.ExtTreeMap.getElem?_insert_self, Std.ExtTreeMap.getElem?_insert_self]
    exact congrArg some hd.isPublic
  · have hne : ¬ compare d.path path = .eq := by simpa using hpath
    rw [Std.ExtTreeMap.getElem?_insert, Std.ExtTreeMap.getElem?_insert, if_neg hne, if_neg hne]
    exact congrFun htypes path

theorem answersAlike_ofDecls (h : List.Forall₂ TypeDecl.Redeclared decls decls') :
    (ofDecls decls).AnswersAlike (ofDecls decls') := by
  refine ⟨?_, ?_, ?_⟩
  · rw [ofDecls, ofDecls, subtypePairs_eq h]
  · rw [ofDecls, ofDecls, memberPairs_eq h]
  · exact List.rel_foldl (R := TypeDecl.Redeclared)
      (P := fun types types' => visibility? types' = visibility? types)
      (fun _ _ htypes _ _ hd => visibility?_insert htypes hd) rfl h

variable {ix ix' : Index}

theorem AnswersAlike.value_permits (h : ix.AnswersAlike ix') {level : Level}
    {owner unit candidate : String} :
    (ix'.permits level owner unit candidate).value
      = (ix.permits level owner unit candidate).value := by
  have hpublic : (∃ d, ix'.byPath[EntryPath.ofType unit candidate]? = some d
      ∧ d.classFile.isPublic = true)
      ↔ ∃ d, ix.byPath[EntryPath.ofType unit candidate]? = some d
        ∧ d.classFile.isPublic = true := by
    rw [← Option.map_eq_some_iff, ← Option.map_eq_some_iff]
    exact iff_of_eq (congrArg (· = some true) (congrFun h.visibility _))
  rw [Bool.eq_iff_iff, Index.value_permits, Index.value_permits, hpublic]

theorem AnswersAlike.value_permitsAll (h : ix.AnswersAlike ix') {level : Level}
    {owner unit : String} {names : List String} :
    (ix'.permitsAll level owner unit names).value
      = (ix.permitsAll level owner unit names).value := by
  rw [Bool.eq_iff_iff, Index.value_permitsAll, Index.value_permitsAll]
  simp only [h.value_permits]

theorem toList_ne_nil {name : String} {names : NameSet}
    (h : (ofDecls decls).subtypes.get? name = some names) : names.toList ≠ [] := by
  intro hnil
  obtain ⟨d, hd, hext⟩ := exists_extends h
  have hmem : d.name ∈ names := (mem_of_subtypes h d.name).2 ⟨d, hd, rfl, hext⟩
  rw [← Std.ExtTreeSet.mem_toList, hnil] at hmem
  cases hmem

end Index

/-! ## Verdicts on changed types -/

namespace Verdict

open Ruling (MayBeFinal)

variable {ix ix' : Index} {settings : Settings} {d d' : TypeDecl}

theorem value_isClosed_alike (hix : ix.AnswersAlike ix') (hd : d.Redeclared d')
    {names : List String} :
    (isClosed ix' settings d' names).value = (isClosed ix settings d names).value := by
  have hlocal : ix'.declaresAll d'.unit names = ix.declaresAll d.unit names := by
    rw [Index.declaresAll, Index.declaresAll, hix.members, hd.unit]
  unfold isClosed
  rw [hlocal, hd.unit, hd.name]
  by_cases hyes : ix.declaresAll d.unit names = true
  · rw [if_pos hyes, if_pos hyes, hix.value_permitsAll]
  · rw [if_neg hyes, if_neg hyes]

/-- A type on which the verdict has been carried out is kept. -/
theorem settled_of_changed {decls : List TypeDecl} (hix : (Index.ofDecls decls).AnswersAlike ix')
    (hd : d.Redeclared d')
    (hchanged : ClassFile.ChangedBy (ofDecl (Index.ofDecls decls) settings d).value.decision
      d.classFile d'.classFile) :
    ∃ t', (ofDecl ix' settings d').value = ⟨.keep, t'⟩
      ∧ (ofDecl (Index.ofDecls decls) settings d).value.tally.Settles t' := by
  have hsubtypes : ix'.subtypes.get? d'.name = (Index.ofDecls decls).subtypes.get? d.name := by
    rw [hix.subtypes, hd.name]
  have hg := grounds (Index.ofDecls decls) settings d
  generalize (ofDecl (Index.ofDecls decls) settings d).value = v at hchanged hg
  -- the grounds hold of the changed type as well, except where the decision has removed one: a type
  -- made final may not become final again, and one that was sealed lists subclasses
  cases hg with
  | excluded hunit =>
    rw [← hd.unit] at hunit
    exact ⟨_, value_ofDecl_iff.2 (.excluded hunit), rfl, rfl, rfl, rfl, rfl, rfl⟩
  | keptLeaf hunit hleaf hno =>
    rw [← hd.unit] at hunit
    rw [← hsubtypes] at hleaf
    rw [← Ruling.mayBeFinal_congr hchanged] at hno
    exact ⟨_, value_ofDecl_iff.2 (.keptLeaf hunit hleaf hno), rfl, rfl, rfl, rfl, rfl, rfl⟩
  | finalLeaf hunit hleaf hyes =>
    rw [← hd.unit] at hunit
    rw [← hsubtypes] at hleaf
    have hfinal : d'.classFile.isFinal = true := hchanged.isFinal_iff.2 (.inr rfl)
    have hno : ¬ MayBeFinal settings d' := by
      rintro ⟨_, hopen, _⟩
      rw [hfinal] at hopen
      cases hopen
    exact ⟨_, value_ofDecl_iff.2 (.keptLeaf hunit hleaf hno), rfl, rfl, rfl, rfl, rfl, rfl⟩
  | sealedBefore hunit hparent hsealed =>
    rw [← hd.unit] at hunit
    rw [← hsubtypes] at hparent
    rw [← Ruling.isOpen_congr hchanged] at hsealed
    exact ⟨_, value_ofDecl_iff.2 (.sealedBefore hunit hparent hsealed), rfl, rfl, rfl, rfl, rfl,
      rfl⟩
  | keptParent hunit hparent hopen hno =>
    rw [← hd.unit] at hunit
    rw [← hsubtypes] at hparent
    rw [← value_isClosed_alike hix hd] at hno
    rw [← Ruling.isOpen_congr hchanged] at hopen
    exact ⟨_, value_ofDecl_iff.2 (.keptParent hunit hparent hopen hno), rfl, rfl, rfl, rfl, rfl,
      rfl⟩
  | @sealedParent names hunit hparent hopen hclosed hsealing =>
    have hnames : names.toList ≠ [] := Index.toList_ne_nil hparent
    have hlisted : d'.classFile.permittedSubclasses = some names.toList :=
      hchanged.permittedSubclasses_eq
    have hsealed : ¬ Ruling.IsOpen d' := Ruling.not_isOpen_of_lists hlisted hnames
    rw [← hd.unit] at hunit
    rw [← hsubtypes] at hparent
    exact ⟨_, value_ofDecl_iff.2 (.sealedBefore hunit hparent hsealed), rfl, rfl, rfl, rfl, rfl,
      rfl⟩

end Verdict

/-! ## Steps of the second run -/

namespace Tightening

variable {ix : Index} {settings : Settings} {entries : List Entry} {e : Entry} {s : Step}

/-- What a step leaves behind: an entry that is no class file, or the class file of a type on which
the verdict has been carried out. -/
inductive Leaves (ix : Index) (settings : Settings) (e : Entry) (s : Step) : Prop
  | other (hbefore : e.isClass = false) (hafter : s.entry.isClass = false) (htally : s.tally = {})
  | type {d d' : TypeDecl} (hbefore : e.isClass = true) (hafter : s.entry.isClass = true)
    (hread : TypeDecl.ofEntry e = .ok d) (hread' : TypeDecl.ofEntry s.entry = .ok d')
    (hd : d.Redeclared d')
    (hchanged : ClassFile.ChangedBy (Verdict.ofDecl ix settings d).value.decision d.classFile
      d'.classFile)
    (htally : s.tally = (Verdict.ofDecl ix settings d).value.tally)

theorem StepOf.leaves (h : StepOf ix settings e s)
    (hsize : e.isClass = true → ∀ cf, ClassFile.parse e.content = .ok cf →
      cf.pool.size ≤ PoolExtension.maxSlots) : Leaves ix settings e s := by
  have hisClass : s.entry.isClass = e.isClass := by
    rw [h.entry_eq]
    rfl
  cases hclass : e.isClass with
  | false =>
    have htally : s.tally = {} := by rw [h.tally_eq, declaration_of_other hclass]
    exact .other hclass (hisClass.trans hclass) htally
  | true =>
    obtain ⟨d, hread, happly⟩ := h.apply_eq_ok hclass
    obtain ⟨hpath, hunit, hname, hparse⟩ := TypeDecl.ofEntry_eq_ok.1 hread
    obtain ⟨cf', hparse', hchanged⟩ :=
      ClassFile.parse_changed hparse (hsize hclass _ hparse) happly
    have hread' : TypeDecl.ofEntry s.entry = .ok { d with classFile := cf' } := by
      have hsame : s.entry.path = e.path := by rw [h.entry_eq]
      refine TypeDecl.ofEntry_eq_ok.2 ⟨?_, ?_, ?_, hparse'⟩
      · rw [hsame, hpath]
      · rw [hsame, hunit]
      · rw [hsame, hname]
    have htally : s.tally = (Verdict.ofDecl ix settings d).value.tally := by
      rw [h.tally_eq, declaration_eq_some.2 ⟨hclass, hread⟩]
    exact .type hclass (hisClass.trans hclass) hread hread'
      (TypeDecl.redeclared_of_changed hchanged) hchanged htally

/-- The types that are declared after a run are those before it, redeclared. -/
theorem redeclared_of_leaves {steps : List Step}
    (h : List.Forall₂ (Leaves ix settings) entries steps) :
    List.Forall₂ TypeDecl.Redeclared (declared entries) (declared (steps.map (·.entry))) := by
  unfold declared
  rw [List.filterMap_map]
  refine List.rel_filterMap (fun e s hleaves => ?_) h
  cases hleaves with
  | other hbefore hafter =>
    rw [Function.comp_apply, declaration_of_other hbefore, declaration_of_other hafter]
    exact .none
  | type hbefore hafter hread hread' hd =>
    rw [Function.comp_apply, declaration_eq_some.2 ⟨hbefore, hread⟩,
      declaration_eq_some.2 ⟨hafter, hread'⟩]
    exact .some hd

theorem exists_second_step {ix' : Index}
    (hix : (Index.ofDecls (declared entries)).AnswersAlike ix')
    (h : Leaves (Index.ofDecls (declared entries)) settings e s) :
    ∃ t', StepOf ix' settings s.entry ⟨s.entry, none, t'⟩ ∧ s.tally.Settles t' := by
  cases h with
  | other _ hafter htally =>
    rw [htally]
    exact ⟨{}, .other hafter, .empty⟩
  | type _ hafter _ hread' hd hchanged htally =>
    obtain ⟨t', hv, hsettles⟩ := Verdict.settled_of_changed hix hd hchanged
    rw [htally]
    exact ⟨t', .kept hafter hread' hv rfl, hsettles⟩

/-! ## The second run -/

/-- A run on what a run has left changes nothing. It finds as many types as before, with and without
subtypes, and of the types that were not yet sealed those that the first run did not seal. -/
theorem run_again {result : Tightened}
    (hsizes : ∀ e ∈ entries, e.isClass = true → ∀ cf, ClassFile.parse e.content = .ok cf →
      cf.pool.size ≤ PoolExtension.maxSlots)
    (hrun : (run settings entries).run.value = .ok result) :
    ∃ again, (run settings result.entries).run.value = .ok again
      ∧ again.entries = result.entries ∧ again.changes = []
      ∧ again.tally.madeSealed = 0 ∧ again.tally.madeFinal = 0
      ∧ again.tally.total = result.tally.total
      ∧ again.tally.withoutSubtypes = result.tally.withoutSubtypes
      ∧ again.tally.withSubtypes = result.tally.withSubtypes
      ∧ result.tally.madeSealed ≤ result.tally.notYetSealed
      ∧ again.tally.notYetSealed = result.tally.notYetSealed - result.tally.madeSealed := by
  obtain ⟨steps, hsteps, rfl⟩ := yields_run.1 hrun
  have hleaves : List.Forall₂ (Leaves (Index.ofDecls (declared entries)) settings) entries steps :=
    ((List.forall₂_and_left _ _).2 ⟨hsizes, hsteps⟩).imp fun e s h => h.2.leaves h.1
  have hix := Index.answersAlike_ofDecls (redeclared_of_leaves hleaves)
  -- each step of the second run starts from what a step of the first has left
  have hsecond : ∀ s ∈ steps, ∃ s', StepOf
      (Index.ofDecls (declared (steps.map (·.entry)))) settings s.entry s'
        ∧ s'.entry = s.entry ∧ s'.change = none ∧ s.tally.Settles s'.tally := by
    intro s hs
    obtain ⟨e, _, hleft⟩ := Result.forall₂_mem hleaves.flip hs
    obtain ⟨t', hstep, hsettles⟩ := exists_second_step hix hleft
    exact ⟨_, hstep, rfl, rfl, hsettles⟩
  obtain ⟨steps', hsteps'⟩ := Result.exists_forall₂_iff.2 hsecond
  have hentries : steps'.map (·.entry) = steps.map (·.entry) := by
    have heach : List.Forall₂ (· = ·) (steps.map (·.entry)) (steps'.map (·.entry)) := by
      rw [List.forall₂_map_left_iff, List.forall₂_map_right_iff]
      exact hsteps'.imp fun _ _ h => h.2.1.symm
    rw [List.forall₂_eq_eq_eq] at heach
    exact heach.symm
  have hchanges : steps'.filterMap (·.change) = [] := by
    refine List.filterMap_eq_nil_iff.2 fun s' hs' => ?_
    obtain ⟨s, _, _, _, hnone, _⟩ := Result.forall₂_mem hsteps'.flip hs'
    exact hnone
  have htally : (gather steps).tally.Settles (gather steps').tally := by
    refine Tally.Settles.sum ?_
    rw [List.forall₂_map_left_iff, List.forall₂_map_right_iff]
    exact hsteps'.imp fun _ _ h => h.2.2.2
  have hle := htally.notYetSealed
  refine ⟨gather steps', yields_run.2 ⟨steps', ?_, rfl⟩, hentries, hchanges, htally.madeSealed,
    htally.madeFinal, htally.total, htally.withoutSubtypes, htally.withSubtypes, by omega,
    by omega⟩
  exact List.forall₂_map_left_iff.2 (hsteps'.imp fun _ _ h => h.1)

/-- Of the classes `A` and `B`, the first is sealed by the first run and nothing is left to the
second. -/
theorem run_again_pair :
    ∃ result again, (run {} pairEntries).run.value = .ok result ∧ result.tally.madeSealed = 1
      ∧ (run {} result.entries).run.value = .ok again ∧ again.entries = result.entries
      ∧ again.changes = [] ∧ again.tally.notYetSealed = 0 := by
  have hok : (run {} pairEntries).run.value.toOption.map (fun r => r.tally)
      = some ⟨2, 1, 1, 1, 1, 1⟩ := by decide +kernel
  cases hrun : (run {} pairEntries).run.value with
  | error cause =>
    rw [hrun] at hok
    cases hok
  | ok result =>
    rw [hrun] at hok
    have htally : result.tally = ⟨2, 1, 1, 1, 1, 1⟩ := Option.some.inj hok
    obtain ⟨again, hagain, hentries, hchanges, _, _, _, _, _, _, hnotYet⟩ :=
      run_again sizes_pairEntries hrun
    refine ⟨result, again, rfl, ?_, hagain, hentries, hchanges, ?_⟩
    · rw [htally]
    · rw [hnotYet, htally]
      rfl

end Tightening

end LinkSet
