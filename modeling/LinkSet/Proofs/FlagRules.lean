import LinkSet.Proofs.ClosedWorld
import LinkSet.Proofs.Verdicts

/-!
# Flags that exclude each other

The format of class files does not let a class be final and abstract, nor final and sealed. A run
carries such rules over from its input in all cases but one: a class without subtypes is made final
whether it is abstract or lists subclasses or not, so these classes are where the rules are broken,
and the only ones (`Tightening.wellFlagged_iff_of_run`).
-/

namespace LinkSet

namespace ClassFile

/-- Whether the class may not be instantiated. -/
def isAbstract (c : ClassFile) : Bool := c.access.contains AccessFlags.abstractBit

theorem isAbstract_eq (c : ClassFile) : c.isAbstract = c.access.bits.toNat.testBit 10 :=
  AccessFlags.contains_eq_testBit rfl

/-- A final class is neither abstract nor sealed. -/
def WellFlagged (c : ClassFile) : Prop :=
  c.isFinal = true → c.isAbstract = false ∧ c.isSealed = false

instance (c : ClassFile) : Decidable c.WellFlagged := inferInstanceAs (Decidable (_ → _))

variable {decision : Decision} {cf cf' : ClassFile}

theorem ChangedBy.isAbstract_eq (h : ChangedBy decision cf cf') :
    cf'.isAbstract = cf.isAbstract :=
  h.contains (by decide)

/-- A class that is made final keeps the rules exactly if it was neither abstract nor sealed. -/
theorem wellFlagged_markFinal_iff (h : ChangedBy .markFinal cf cf') :
    cf'.WellFlagged ↔ cf.isAbstract = false ∧ cf.isSealed = false := by
  have hfinal : cf'.isFinal = true := h.isFinal_iff.2 (.inr rfl)
  have hsealed : cf'.isSealed = cf.isSealed := by
    have hpermitted : cf'.permittedSubclasses = cf.permittedSubclasses :=
      h.permittedSubclasses_eq
    rw [isSealed, hpermitted, ← isSealed]
  rw [WellFlagged, h.isAbstract_eq, hsealed]
  exact ⟨fun hrules => hrules hfinal, fun hrules _ => hrules⟩

theorem wellFlagged_of_sealTo {names : NameSet} (h : ChangedBy (.sealTo names) cf cf')
    (hopen : cf.isFinal = false) : cf'.WellFlagged := by
  intro hfinal
  rcases h.isFinal_iff.1 hfinal with hbefore | hmarked
  · rw [hopen] at hbefore
    cases hbefore
  · cases hmarked

end ClassFile

namespace Tightening

variable {settings : Settings} {entries : List Entry}

/-- All class files that the entries hold keep the rules. -/
def AllWellFlagged (entries : List Entry) : Prop :=
  ∀ e ∈ entries, e.isClass = true → ∀ cf, ClassFile.parse e.content = .ok cf → cf.WellFlagged

/-- No declared type extends a declared type that is final. -/
def NoneExtendsFinal (entries : List Entry) : Prop :=
  ∀ d ∈ declared entries, d.classFile.isFinal = true → ∀ sub ∈ declared entries, ¬ sub.Extends d.name

/-- The type is made final: its unit may be changed, it may be final, and no declared type extends
it. -/
def BecomesFinal (settings : Settings) (entries : List Entry) (d : TypeDecl) : Prop :=
  settings.filter.accepts d.unit = true ∧ Ruling.MayBeFinal settings d
    ∧ ∀ sub ∈ declared entries, ¬ sub.Extends d.name

theorem verdictOn_eq_markFinal_iff {d : TypeDecl} :
    (verdictOn settings entries d).decision = .markFinal ↔ BecomesFinal settings entries d := by
  rw [verdictOn, Verdict.decision_eq_markFinal_iff, Index.subtypes_eq_none, BecomesFinal]
  constructor
  · rintro ⟨hunit, hleaf, hyes⟩
    exact ⟨hunit, hyes, hleaf⟩
  · rintro ⟨hunit, hyes, hleaf⟩
    exact ⟨hunit, hleaf, hyes⟩

/-- One class file that comes out keeps the rules, unless its type is made final although it is
abstract or sealed. -/
theorem wellFlagged_of_changed {d : TypeDecl} {cf : ClassFile} (hd : d ∈ declared entries)
    (hrules : d.classFile.WellFlagged) (hfinal : NoneExtendsFinal entries)
    (hchanged : ClassFile.ChangedBy (verdictOn settings entries d).decision d.classFile cf)
    (hno : BecomesFinal settings entries d →
      d.classFile.isAbstract = false ∧ d.classFile.isSealed = false) : cf.WellFlagged := by
  cases hdecision : (verdictOn settings entries d).decision with
  | keep =>
    rw [hdecision] at hchanged
    obtain rfl := hchanged
    exact hrules
  | markFinal =>
    rw [hdecision] at hchanged
    have hbecomes := verdictOn_eq_markFinal_iff.1 hdecision
    exact (ClassFile.wellFlagged_markFinal_iff hchanged).2 (hno hbecomes)
  | sealTo names =>
    rw [hdecision] at hchanged
    obtain ⟨hparent, _⟩ := Verdict.of_sealTo hdecision
    obtain ⟨sub, hsub, hext⟩ := Index.exists_extends hparent
    have hopen : d.classFile.isFinal = false := by
      by_contra hyes
      exact hfinal d hd (Bool.eq_true_of_not_eq_false hyes) sub hsub hext
    exact ClassFile.wellFlagged_of_sealTo hchanged hopen

/-- If the rules are kept in what goes into a run, and no final type is extended there, they are kept
in what comes out exactly if no type is made final that is abstract or sealed. -/
theorem wellFlagged_iff_of_run {result : Tightened} (hrules : AllWellFlagged entries)
    (hfinal : NoneExtendsFinal entries) (hrun : (run settings entries).run.value = .ok result) :
    AllWellFlagged result.entries
      ↔ ∀ d ∈ declared entries, BecomesFinal settings entries d →
        d.classFile.isAbstract = false ∧ d.classFile.isSealed = false := by
  have hbecomes := forall₂_becomes hrun
  constructor
  · -- a type that is made final comes out with all other flags and with its list
    intro hout d hd hyes
    obtain ⟨e, he, hclass, hread⟩ := mem_declared.1 hd
    obtain ⟨e', he', hbecome⟩ := Result.forall₂_mem hbecomes he
    obtain ⟨d', hread', happly⟩ := hbecome.apply_eq hclass
    obtain rfl := Except.ok.inj (hread.symm.trans hread')
    have hparse := (TypeDecl.ofEntry_eq_ok.1 hread).2.2.2
    rw [verdictOn_eq_markFinal_iff.2 hyes] at happly
    obtain ⟨cf, hcf, hchanged⟩ :=
      ClassFile.parse_apply hparse (fun names hseal => by cases hseal) happly
    have hclass' : e'.isClass = true := hbecome.isClass_eq.trans hclass
    exact (ClassFile.wellFlagged_markFinal_iff hchanged).1 (hout e' he' hclass' cf hcf)
  · -- what can be read of an entry that comes out is a class file that went in, changed
    intro hno e' he' hclass' cf hcf
    obtain ⟨e, he, hbecome⟩ := Result.forall₂_mem hbecomes.flip he'
    have hclass : e.isClass = true := hbecome.isClass_eq.symm.trans hclass'
    obtain ⟨d, hread, happly⟩ := hbecome.apply_eq hclass
    have hparse := (TypeDecl.ofEntry_eq_ok.1 hread).2.2.2
    have hd : d ∈ declared entries := mem_declared.2 ⟨e, he, hclass, hread⟩
    exact wellFlagged_of_changed hd (hrules e he hclass _ hparse) hfinal
      (ClassFile.changedBy_of_parse hparse happly hcf) (hno d hd)

/-- Of the classes `A` and `B`, only `B` is made final, which is neither abstract nor sealed. -/
theorem wellFlagged_iff_of_run_pair :
    ∃ result, (run {} pairEntries).run.value = .ok result ∧ AllWellFlagged result.entries := by
  have hdeclared : declared pairEntries = Ruling.pair := by decide +kernel
  have hrules : AllWellFlagged pairEntries := forall_pairEntries (by decide) (by decide)
  have hfinal : NoneExtendsFinal pairEntries := by
    rw [NoneExtendsFinal, hdeclared]
    decide +kernel
  have hplain : ∀ d ∈ declared pairEntries,
      d.classFile.isAbstract = false ∧ d.classFile.isSealed = false := by
    rw [hdeclared]
    decide +kernel
  have hok : (run {} pairEntries).run.value.isOk := by decide +kernel
  cases hrun : (run {} pairEntries).run.value with
  | error cause =>
    rw [hrun] at hok
    cases hok
  | ok result =>
    have hout := (wellFlagged_iff_of_run hrules hfinal hrun).2 fun d hd _ => hplain d hd
    exact ⟨result, rfl, hout⟩

/-- The bytes of a class `A` with the given flags, which extends `java/lang/Object`, without members
and attributes. -/
def flaggedBytes (high low : UInt8) : Bytes :=
  [0xCA, 0xFE, 0xBA, 0xBE, 0, 0, 0, 61] ++ [0, 5, 1, 0, 1, 65, 7, 0, 1, 1, 0, 16]
    ++ ModifiedUtf8.encode "java/lang/Object" ++ [7, 0, 3]
    ++ [high, low, 0, 2, 0, 4, 0, 0, 0, 0, 0, 0, 0, 0]

/-- What `flaggedBytes` say. -/
def flaggedClass (flags : UInt16) : ClassFile where
  minorVersion := 0
  majorVersion := 61
  access := ⟨flags⟩
  thisName := "A"
  superName := some "java/lang/Object"
  interfaces := []
  permitted := none
  pool := ⟨#[.unusable, .utf8 [65], .classRef 1, .utf8 (ModifiedUtf8.encode "java/lang/Object"),
    .classRef 3]⟩
  layout := ⟨39, 51, 53⟩

/-- The class file of an abstract class that nothing extends. -/
def abstractEntries : List Entry := [⟨"/u/A.class", .ofUnit, flaggedBytes 0x04 0x21⟩]

/-- An abstract class that nothing extends comes out abstract and final. -/
theorem not_wellFlagged_of_run_abstract :
    AllWellFlagged abstractEntries ∧ NoneExtendsFinal abstractEntries
      ∧ ∃ result, (run {} abstractEntries).run.value = .ok result
        ∧ ¬ AllWellFlagged result.entries := by
  have hbefore : ClassFile.parse (flaggedBytes 0x04 0x21) = .ok (flaggedClass 0x0421) := by
    decide +kernel
  have hafter : ClassFile.parse (flaggedBytes 0x04 0x31) = .ok (flaggedClass 0x0431) := by
    decide +kernel
  have hrun : (run {} abstractEntries).run.value.toOption.map (fun r => r.entries)
      = some [⟨"/u/A.class", .ofUnit, flaggedBytes 0x04 0x31⟩] := by decide +kernel
  refine ⟨?_, ?_, ?_⟩
  · refine List.forall_mem_singleton.2 fun _ cf hcf => ?_
    obtain rfl := Except.ok.inj (hbefore.symm.trans hcf)
    decide
  · unfold NoneExtendsFinal
    decide +kernel
  · cases hvalue : (run {} abstractEntries).run.value with
    | error cause =>
      rw [hvalue] at hrun
      cases hrun
    | ok result =>
      rw [hvalue] at hrun
      have hentries : result.entries = [⟨"/u/A.class", .ofUnit, flaggedBytes 0x04 0x31⟩] :=
        Option.some.inj hrun
      refine ⟨result, rfl, fun hrules => ?_⟩
      rw [hentries] at hrules
      have hflags := hrules _ List.mem_cons_self (by decide +kernel) _ hafter
      have hno : ¬ (flaggedClass 0x0431).WellFlagged := by decide
      exact hno hflags

end Tightening

end LinkSet
