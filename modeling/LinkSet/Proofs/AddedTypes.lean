import LinkSet.Proofs.Verdicts

/-!
# Types that are added to a link set

More types can only keep others from being changed. A type that becomes final in the larger link set
becomes final in the smaller one too, and one that is sealed in the larger one is sealed in the
smaller one to the subtypes that it has there, if it has any (`Verdict.decision_of_added`).

Three things are looked up in the index, and more types may change each answer. Subtypes are only
added, which goes against any change. Members of a unit and types by their path are added too, and
this would go in favour of sealing. But a look-up is for a subtype only, and the subtypes of the
smaller link set are declared in it: no added type has the name of one of them, and so none has its
path. What is found for them is the same (`Ruling.MayList.of_added`).

For this each type has to stand where its unit and its name say, as all types do that are read from
entries. One that stands in the place of another is found in its stead, and then a class may be sealed
whose subtypes had kept it from being sealed (`Verdict.decision_of_added_misplaced`).
-/

namespace LinkSet

variable {settings : Settings} {decls added more : List TypeDecl} {d : TypeDecl}

theorem TypeDecl.mem_of_added (hmore : more.Perm (added ++ decls)) {e : TypeDecl} (he : e ∈ decls) :
    e ∈ more :=
  hmore.mem_iff.2 (List.mem_append_right added he)

theorem TypeDecl.nodup_path_of_added (hmore : more.Perm (added ++ decls))
    (hpaths : (more.map TypeDecl.path).Nodup) : (decls.map TypeDecl.path).Nodup := by
  have hall := (hmore.map TypeDecl.path).nodup_iff.1 hpaths
  rw [List.map_append] at hall
  exact hall.of_append_right

namespace Ruling

/-! ## Conditions in the larger and in the smaller link set -/

/-- The subtypes in the larger link set are those among the added types and those from before. -/
theorem mem_subtypes_added (hmore : more.Perm (added ++ decls)) {sub : String} :
    sub ∈ subtypes more d ↔ sub ∈ subtypes added d ∨ sub ∈ subtypes decls d := by
  rw [mem_subtypes, mem_subtypes, mem_subtypes]
  constructor
  · rintro ⟨e, he, hname, hext⟩
    rcases List.mem_append.1 (hmore.mem_iff.1 he) with hadded | hdecls
    · exact .inl ⟨e, hadded, hname, hext⟩
    · exact .inr ⟨e, hdecls, hname, hext⟩
  · rintro (⟨e, he, hname, hext⟩ | ⟨e, he, hname, hext⟩)
    · exact ⟨e, hmore.mem_iff.2 (List.mem_append_left _ he), hname, hext⟩
    · exact ⟨e, TypeDecl.mem_of_added hmore he, hname, hext⟩

/-- What may be listed in the larger link set may be listed in the smaller one, if it is declared
there. -/
theorem MayList.of_added (hmore : more.Perm (added ++ decls))
    (hnames : (more.map TypeDecl.name).Nodup) {e : TypeDecl} (he : e ∈ decls)
    (h : MayList more d e.name) : MayList decls d e.name := by
  obtain ⟨hnested, e', he', hunit, hname, hvisible⟩ := h
  have hmem : e ∈ more := TypeDecl.mem_of_added hmore he
  have hsame : e' = e := List.inj_on_of_nodup_map hnames he' hmem hname
  rw [hsame] at hunit hvisible
  exact ⟨hnested, e, he, hunit, rfl, hvisible⟩

theorem MayBeSealed.of_added (hmore : more.Perm (added ++ decls))
    (hnames : (more.map TypeDecl.name).Nodup) (h : MayBeSealed settings more d) :
    MayBeSealed settings decls d := by
  obtain ⟨hopen, hsealing, hlist⟩ := h
  refine ⟨hopen, hsealing, ?_⟩
  intro sub hsub
  have hmem : sub ∈ subtypes decls d := Std.ExtTreeSet.mem_toList.1 hsub
  have hmem' : sub ∈ subtypes more d := (mem_subtypes_added hmore).2 (.inr hmem)
  have hmay : MayList more d sub := hlist sub (Std.ExtTreeSet.mem_toList.2 hmem')
  obtain ⟨e, he, rfl, _⟩ := mem_subtypes.1 hmem
  exact hmay.of_added hmore hnames he

end Ruling

namespace Verdict

/-! ## Decisions -/

/-- A type that becomes final in the larger link set becomes final in the smaller one. -/
theorem markFinal_of_added (hmore : more.Perm (added ++ decls))
    (h : (ofDecl (Index.ofDecls more) settings d).value.decision = .markFinal) :
    (ofDecl (Index.ofDecls decls) settings d).value.decision = .markFinal := by
  obtain ⟨hunit, hleaf, hfinal⟩ := decision_eq_markFinal_iff.1 h
  have hnone : ∀ e ∈ more, ¬ e.Extends d.name := Index.subtypes_eq_none.1 hleaf
  have hleaf' : (Index.ofDecls decls).subtypes.get? d.name = none :=
    Index.subtypes_eq_none.2 fun e he => hnone e (TypeDecl.mem_of_added hmore he)
  exact decision_eq_markFinal_iff.2 ⟨hunit, hleaf', hfinal⟩

/-- A type that is sealed in the larger link set is sealed in the smaller one to its subtypes there,
if it has any. -/
theorem sealTo_of_added (hmore : more.Perm (added ++ decls)) (hplaced : ∀ e ∈ more, e.IsPlaced)
    (hnames : (more.map TypeDecl.name).Nodup) {names : NameSet}
    (h : (ofDecl (Index.ofDecls more) settings d).value.decision = .sealTo names)
    (hparent : Ruling.subtypes decls d ≠ ∅) :
    (ofDecl (Index.ofDecls decls) settings d).value.decision
      = .sealTo (Ruling.subtypes decls d) := by
  have hpaths : (more.map TypeDecl.path).Nodup := TypeDecl.nodup_path hplaced hnames
  have hpaths' : (decls.map TypeDecl.path).Nodup := TypeDecl.nodup_path_of_added hmore hpaths
  have hplaced' : ∀ e ∈ decls, e.IsPlaced := fun e he => hplaced e (TypeDecl.mem_of_added hmore he)
  obtain ⟨hunit, _, _, hmay⟩ := (decision_eq_sealTo_iff hplaced hpaths).1 h
  have hmay' : Ruling.MayBeSealed settings decls d := hmay.of_added hmore hnames
  exact (decision_eq_sealTo_iff hplaced' hpaths').2 ⟨hunit, rfl, hparent, hmay'⟩

/-- What types are added, with names that are not in use, makes no type final that was not to become
final, and seals no type whose subtypes kept it from being sealed. If a type is sealed in the larger
link set, then in the smaller one it has no subtypes, or it is sealed to the same types less some of
the added ones. -/
theorem decision_of_added (settings : Settings) (d : TypeDecl)
    (hmore : more.Perm (added ++ decls)) (hplaced : ∀ e ∈ more, e.IsPlaced)
    (hnames : (more.map TypeDecl.name).Nodup) :
    ((ofDecl (Index.ofDecls more) settings d).value.decision = .markFinal →
        (ofDecl (Index.ofDecls decls) settings d).value.decision = .markFinal)
      ∧ ∀ names', (ofDecl (Index.ofDecls more) settings d).value.decision = .sealTo names' →
        (∀ e ∈ decls, ¬ e.Extends d.name)
          ∨ ∃ names, (ofDecl (Index.ofDecls decls) settings d).value.decision = .sealTo names
            ∧ (∀ n ∈ names, n ∈ names')
            ∧ ∀ n ∈ names', n ∉ names → n ∈ added.map TypeDecl.name := by
  refine ⟨markFinal_of_added hmore, ?_⟩
  intro names' h
  have hpaths : (more.map TypeDecl.path).Nodup := TypeDecl.nodup_path hplaced hnames
  obtain ⟨_, rfl, _, _⟩ := (decision_eq_sealTo_iff hplaced hpaths).1 h
  by_cases hempty : Ruling.subtypes decls d = ∅
  · left
    exact Index.subtypes_eq_none.1 (Ruling.subtypes_eq_empty_iff.1 hempty)
  · right
    refine ⟨_, sealTo_of_added hmore hplaced hnames h hempty, ?_, ?_⟩
    · intro n hn
      exact (Ruling.mem_subtypes_added hmore).2 (.inr hn)
    · intro n hn hnew
      rcases (Ruling.mem_subtypes_added hmore).1 hn with hadded | hold
      · obtain ⟨e, he, rfl, _⟩ := Ruling.mem_subtypes.1 hadded
        exact List.mem_map_of_mem he
      · exact absurd hold hnew

end Verdict

/-- One more class of the unit `u` that extends `A`, called `C` by its path. -/
def Ruling.third : TypeDecl := ⟨"/u/C.class", "u", "C", pairClass "B" (some "A")⟩

/-- With the class `C` beside it, `B` becomes final and `A` is sealed to both. Without `C`, it is `B`
alone that `A` is sealed to. -/
theorem Verdict.decision_of_added_third :
    (ofDecl (Index.ofDecls Ruling.pair) {}
        ⟨"/u/B.class", "u", "B", Ruling.pairClass "B" (some "A")⟩).value.decision = .markFinal
      ∧ ∃ names names', (ofDecl (Index.ofDecls (Ruling.third :: Ruling.pair)) {}
          ⟨"/u/A.class", "u", "A", Ruling.pairClass "A" none⟩).value.decision = .sealTo names'
        ∧ (ofDecl (Index.ofDecls Ruling.pair) {}
          ⟨"/u/A.class", "u", "A", Ruling.pairClass "A" none⟩).value.decision = .sealTo names
        ∧ (∀ n ∈ names, n ∈ names') ∧ ∀ n ∈ names', n ∉ names → n = "C" := by
  have hmore : (Ruling.third :: Ruling.pair).Perm ([Ruling.third] ++ Ruling.pair) := .rfl
  have hnames : ((Ruling.third :: Ruling.pair).map TypeDecl.name).Nodup := by decide
  have hplaced : ∀ e ∈ Ruling.third :: Ruling.pair, e.IsPlaced := by decide
  have hpaths := TypeDecl.nodup_path hplaced hnames
  have hfinal : (ofDecl (Index.ofDecls (Ruling.third :: Ruling.pair)) {}
      ⟨"/u/B.class", "u", "B", Ruling.pairClass "B" (some "A")⟩).value.decision = .markFinal :=
    decision_eq_markFinal_iff.2 ⟨rfl, Index.subtypes_eq_none.2 (by decide), by decide⟩
  have hparent : Ruling.subtypes (Ruling.third :: Ruling.pair)
      ⟨"/u/A.class", "u", "A", Ruling.pairClass "A" none⟩ ≠ ∅ := by
    rw [Ne, Ruling.subtypes_eq_empty_iff, Index.subtypes_eq_none]
    decide
  have hsealed : (ofDecl (Index.ofDecls (Ruling.third :: Ruling.pair)) {}
      ⟨"/u/A.class", "u", "A", Ruling.pairClass "A" none⟩).value.decision
        = .sealTo (Ruling.subtypes (Ruling.third :: Ruling.pair)
          ⟨"/u/A.class", "u", "A", Ruling.pairClass "A" none⟩) :=
    (decision_eq_sealTo_iff hplaced hpaths).2 ⟨rfl, rfl, hparent, by decide +kernel⟩
  have hfewer := (decision_of_added {} _ hmore hplaced hnames).2 _ hsealed
  refine ⟨(decision_of_added {} _ hmore hplaced hnames).1 hfinal, ?_⟩
  rcases hfewer with hleaf | ⟨names, hnames', hsub, hnew⟩
  · exact absurd (hleaf _ (List.mem_cons_of_mem _ List.mem_cons_self)) (by decide)
  · refine ⟨names, _, hsealed, hnames', hsub, fun n hn hno => ?_⟩
    exact List.mem_singleton.1 (hnew n hn hno)

/-! ## Types in the place of others -/

namespace Ruling

/-- A class file whose pool has the names of `A`, of `q/B` and of `C`, with the given flags and
indexes. -/
def tripleBytes (flags thisIndex superIndex : UInt8) : Bytes :=
  [0xCA, 0xFE, 0xBA, 0xBE, 0, 0, 0, 52]
    ++ [0, 7, 1, 0, 1, 65, 7, 0, 1, 1, 0, 3, 113, 47, 66, 7, 0, 3, 1, 0, 1, 67, 7, 0, 5]
    ++ [0, flags, 0, thisIndex, 0, superIndex, 0, 0, 0, 0, 0, 0, 0, 0]

/-- What `tripleBytes` say. -/
def tripleClass (flags : UInt16) (name : String) (superName : Option String) : ClassFile where
  minorVersion := 0
  majorVersion := 52
  access := ⟨flags⟩
  thisName := name
  superName := superName
  interfaces := []
  permitted := none
  pool := ⟨#[.unusable, .utf8 [65], .classRef 1, .utf8 [113, 47, 66], .classRef 3, .utf8 [67],
    .classRef 5]⟩
  layout := ⟨33, 45, 47⟩

/-- The public class `A`. -/
def parent : TypeDecl := ⟨"/u/A.class", "u", "A", tripleClass 0x21 "A" none⟩

/-- The class `q/B`, which extends `A` and is not public. -/
def unlisted : TypeDecl := ⟨"/u/q/B.class", "u", "q/B", tripleClass 0x20 "q/B" (some "A")⟩

/-- The class file of a public class `C` under the path of `q/B`, taken for a type of some name. -/
def stranger (name : String) : TypeDecl := ⟨"/u/q/B.class", "u", name, tripleClass 0x21 "C" none⟩

/-- With the stranger in the place of `q/B`, the class `A` is sealed to `q/B`. -/
theorem sealTo_with_stranger {name : String} (h : name ∈ ["C", "q/B"]) :
    ∃ names, (Verdict.ofDecl (Index.ofDecls [parent, unlisted, stranger name]) {} parent).value.decision
        = .sealTo names ∧ names.toList = ["q/B"] := by
  have hnames : (Verdict.ofDecl (Index.ofDecls [parent, unlisted, stranger name]) {}
      parent).value.decision.subtypes?.map (·.toList) = some ["q/B"] := by
    rcases List.mem_pair.1 h with rfl | rfl
    · decide +kernel
    · decide +kernel
  obtain ⟨names, hsealed, hlist⟩ := Option.map_eq_some_iff.1 hnames
  exact ⟨names, Decision.subtypes?_eq_some.1 hsealed, hlist⟩

end Ruling

open Ruling (parent unlisted stranger tripleBytes)

/-- A type that does not stand where its unit and its name say may take the place of another one.
The class `A` may not list the class `q/B`, which extends it and is not public, and is kept. With a
public class `C` under the path of `q/B`, it is sealed to `q/B`. The same comes of class files that
are read, where the path gives the third type the name `q/B`, and only its class file says `C`. -/
theorem Verdict.decision_of_added_misplaced :
    ([parent, unlisted, stranger "C"].map TypeDecl.name).Nodup ∧ unlisted.Extends parent.name
      ∧ (ofDecl (Index.ofDecls [parent, unlisted]) {} parent).value.decision = .keep
      ∧ (∃ names, (ofDecl (Index.ofDecls [parent, unlisted, stranger "C"]) {} parent).value.decision
        = .sealTo names ∧ names.toList = ["q/B"])
      ∧ ([⟨"/u/A.class", .ofUnit, tripleBytes 0x21 2 0⟩,
          ⟨"/u/q/B.class", .ofUnit, tripleBytes 0x20 4 2⟩,
          ⟨"/u/q/B.class", .ofUnit, tripleBytes 0x21 6 0⟩] : List Entry).map TypeDecl.ofEntry
        = [.ok parent, .ok unlisted, .ok (stranger "q/B")]
      ∧ ([parent, unlisted, stranger "q/B"].map fun d => d.classFile.thisName).Nodup
      ∧ ∃ names, (ofDecl (Index.ofDecls [parent, unlisted, stranger "q/B"]) {} parent).value.decision
        = .sealTo names ∧ names.toList = ["q/B"] := by
  have hkeep : (ofDecl (Index.ofDecls [parent, unlisted]) {} parent).value.decision = .keep :=
    Decision.isKeep_iff.1 (by decide +kernel)
  exact ⟨by decide, by decide, hkeep, Ruling.sealTo_with_stranger (by decide), by decide +kernel,
    by decide, Ruling.sealTo_with_stranger (by decide)⟩

end LinkSet
