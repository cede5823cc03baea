import LinkSet.Proofs.Runs
import LinkSet.Proofs.Verdicts

/-!
# The closed world

The link set is all there is: a type that comes out final has no subtypes in it, unless it was final
before, and a type that comes out sealed permits all subtypes that it has, each of which can be
loaded as one. This is stated on the class files that come out of a run, for any two types of which
one names the other.
-/

namespace LinkSet.Tightening

variable {settings : Settings} {entries : List Entry}

/-! ## Declared types -/

theorem isRead_of_mem {d : TypeDecl} (hd : d ∈ declared entries) : d.IsRead := by
  obtain ⟨e, _, _, hread⟩ := mem_declared.1 hd
  exact ⟨e, hread⟩

/-- No two class files of the link set are for types of one name. -/
def NamesDiffer (entries : List Entry) : Prop :=
  (entries.filter Entry.isClass).Pairwise fun e e' =>
    EntryPath.typeName e.path ≠ EntryPath.typeName e'.path

theorem pairwise_name (h : NamesDiffer entries) :
    (declared entries).Pairwise fun d d' => d.name ≠ d'.name := by
  refine pairwise_declared (fun hread hread' hne hname => ?_) h
  obtain ⟨_, _, htype, _⟩ := TypeDecl.ofEntry_eq_ok.1 hread
  obtain ⟨_, _, htype', _⟩ := TypeDecl.ofEntry_eq_ok.1 hread'
  exact hne (by rw [htype, htype', hname])

theorem nodup_name (h : NamesDiffer entries) : ((declared entries).map TypeDecl.name).Nodup :=
  List.pairwise_map.2 (pairwise_name h)

/-- Declared types of one name are the same. -/
theorem eq_of_name (h : NamesDiffer entries) {d d' : TypeDecl} (hd : d ∈ declared entries)
    (hd' : d' ∈ declared entries) (hname : d.name = d'.name) : d = d' :=
  List.inj_on_of_nodup_map (nodup_name h) hd hd' hname

/-- Types of different names have different paths, because the path tells the name. -/
theorem nodup_path (h : NamesDiffer entries) : ((declared entries).map TypeDecl.path).Nodup :=
  TypeDecl.nodup_path (fun _ hd => (isRead_of_mem hd).isPlaced) (nodup_name h)

/-! ## What comes out -/

variable {d sub : TypeDecl} {cf : ClassFile}

/-- A type that comes out final and is extended was final before. -/
theorem isFinal_of_changed
    (hchanged : ClassFile.ChangedBy (verdictOn settings entries d).decision d.classFile cf)
    (hsub : sub ∈ declared entries) (hext : sub.Extends d.name) (hfinal : cf.isFinal = true) :
    d.classFile.isFinal = true := by
  rcases hchanged.isFinal_iff.1 hfinal with hbefore | hmarked
  · exact hbefore
  · exact absurd hext (Verdict.not_extends_of_markFinal hmarked sub hsub)

/-- A type lists what it did, or it is sealed to all types that extend it, each of which it may
list. -/
theorem permitted_of_changed (hnames : NamesDiffer entries)
    (hchanged : ClassFile.ChangedBy (verdictOn settings entries d).decision d.classFile cf) :
    cf.permittedSubclasses = d.classFile.permittedSubclasses
      ∨ (cf.permittedSubclasses = some (Ruling.subtypes (declared entries) d).toList
        ∧ ∀ n ∈ (Ruling.subtypes (declared entries) d).toList,
          Ruling.MayList (declared entries) d n) := by
  have hpermitted := hchanged.permittedSubclasses_eq
  cases hdecision : (verdictOn settings entries d).decision with
  | keep =>
    rw [hdecision] at hpermitted
    exact .inl hpermitted
  | markFinal =>
    rw [hdecision] at hpermitted
    exact .inl hpermitted
  | sealTo names =>
    rw [hdecision] at hpermitted
    obtain ⟨rfl, _, _, hlist⟩ := Ruling.mayBeSealed_of_sealTo (fun _ => isRead_of_mem)
      (nodup_path hnames) hdecision
    exact .inr ⟨hpermitted, hlist⟩

/-- What a type may list of the types that extend it is listed as one of its unit, is not nested,
and is of the same package or public. -/
theorem local_of_mayList (hnames : NamesDiffer entries) (hsub : sub ∈ declared entries)
    (hlist : Ruling.MayList (declared entries) d sub.name) :
    sub.unit = d.unit ∧ TypeName.isNested sub.name = false
      ∧ (TypeName.package sub.name = TypeName.package d.name ∨ sub.classFile.isPublic = true) := by
  obtain ⟨hnested, e, he, hunit, hname, hvisible⟩ := hlist
  obtain rfl := eq_of_name hnames he hsub hname
  exact ⟨hunit, hnested, hvisible⟩

/-- A run keeps the world closed. If one type names another as its superclass or interface, then the
other comes out final only if it was final before, and if it comes out sealed and was not, then the
one is listed, belongs to the same unit, is not nested, and is of the same package or public. A list
that was not there before has the names of such types only. -/
theorem closed_of_run {result : Tightened} (hnames : NamesDiffer entries)
    (hsizes : ∀ e ∈ entries, e.isClass = true → ∀ cf, ClassFile.parse e.content = .ok cf →
      cf.pool.size ≤ PoolExtension.maxSlots)
    (hrun : (run settings entries).run.value = .ok result) {i : Nat} {e : Entry}
    (he : entries[i]? = some e) (hclass : e.isClass = true) :
    ∃ e' d cf, result.entries[i]? = some e' ∧ TypeDecl.ofEntry e = .ok d
      ∧ ClassFile.parse e'.content = .ok cf
      ∧ (∀ x ∈ entries, x.isClass = true → ∀ sub, TypeDecl.ofEntry x = .ok sub →
        sub.Extends d.name →
          (cf.isFinal = true → d.classFile.isFinal = true)
          ∧ (cf.isSealed = true → d.classFile.isSealed = false →
            (∃ names, cf.permittedSubclasses = some names ∧ sub.name ∈ names)
            ∧ sub.unit = d.unit ∧ TypeName.isNested sub.name = false
            ∧ (TypeName.package sub.name = TypeName.package d.name
              ∨ sub.classFile.isPublic = true)))
      ∧ (cf.permittedSubclasses ≠ d.classFile.permittedSubclasses →
        ∃ names, cf.permittedSubclasses = some names
          ∧ ∀ n ∈ names, ∃ x ∈ entries, x.isClass = true
            ∧ ∃ sub, TypeDecl.ofEntry x = .ok sub ∧ sub.Extends d.name ∧ sub.name = n) := by
  obtain ⟨e', d, he', hread, happly⟩ := entry_of_run hrun he hclass
  have hparse := (TypeDecl.ofEntry_eq_ok.1 hread).2.2.2
  have hsize := hsizes e (List.mem_of_getElem? he) hclass _ hparse
  obtain ⟨cf, hcf, hchanged⟩ := ClassFile.parse_changed hparse hsize happly
  have hpermitted := permitted_of_changed hnames hchanged
  refine ⟨e', d, cf, he', hread, hcf, ?_, ?_⟩
  · intro x hx hxclass sub hxread hext
    have hsub : sub ∈ declared entries := mem_declared.2 ⟨x, hx, hxclass, hxread⟩
    refine ⟨isFinal_of_changed hchanged hsub hext, fun hsealed hopen => ?_⟩
    rcases hpermitted with hsame | ⟨hlisted, hlist⟩
    · rw [ClassFile.isSealed, hsame, ← ClassFile.isSealed, hopen] at hsealed
      cases hsealed
    · have hmem : sub.name ∈ (Ruling.subtypes (declared entries) d).toList :=
        Std.ExtTreeSet.mem_toList.2 (Ruling.mem_subtypes.2 ⟨sub, hsub, rfl, hext⟩)
      exact ⟨⟨_, hlisted, hmem⟩, local_of_mayList hnames hsub (hlist _ hmem)⟩
  · intro hdiffers
    rcases hpermitted with hsame | ⟨hlisted, _⟩
    · exact absurd hsame hdiffers
    · refine ⟨_, hlisted, fun n hn => ?_⟩
      obtain ⟨sub, hsub, hname, hext⟩ :=
        Ruling.mem_subtypes.1 (Std.ExtTreeSet.mem_toList.1 hn)
      obtain ⟨x, hx, hxclass, hxread⟩ := mem_declared.1 hsub
      exact ⟨x, hx, hxclass, sub, hxread, hext, hname⟩

/-- The class files of a class `A` and of a class `B` that extends it. -/
def pairEntries : List Entry :=
  [⟨"/u/A.class", .ofUnit, Ruling.pairBytes 2 0⟩, ⟨"/u/B.class", .ofUnit, Ruling.pairBytes 4 2⟩]

/-- What holds of what the class files say holds of all that the entries hold. -/
theorem forall_of_parse {entries : List Entry} {classes : List ClassFile}
    (hparse : entries.map (fun e => ClassFile.parse e.content) = classes.map .ok)
    {P : ClassFile → Prop} (hclasses : ∀ cf ∈ classes, P cf) :
    ∀ e ∈ entries, e.isClass = true → ∀ cf, ClassFile.parse e.content = .ok cf → P cf := by
  intro e he _ cf hcf
  have hmem : ClassFile.parse e.content ∈ entries.map fun e => ClassFile.parse e.content :=
    List.mem_map.2 ⟨e, he, rfl⟩
  rw [hparse, hcf] at hmem
  obtain ⟨cf', hcf', hsame⟩ := List.mem_map.1 hmem
  exact Except.ok.inj hsame ▸ hclasses cf' hcf'

theorem forall_pairEntries {P : ClassFile → Prop} (hA : P (Ruling.pairClass "A" none))
    (hB : P (Ruling.pairClass "B" (some "A"))) :
    ∀ e ∈ pairEntries, e.isClass = true → ∀ cf, ClassFile.parse e.content = .ok cf → P cf := by
  have hparse : pairEntries.map (fun e => ClassFile.parse e.content)
      = [Ruling.pairClass "A" none, Ruling.pairClass "B" (some "A")].map .ok := by decide +kernel
  exact forall_of_parse hparse (List.forall_mem_cons.2 ⟨hA, List.forall_mem_singleton.2 hB⟩)

theorem sizes_pairEntries : ∀ e ∈ pairEntries, e.isClass = true → ∀ cf,
    ClassFile.parse e.content = .ok cf → cf.pool.size ≤ PoolExtension.maxSlots :=
  forall_pairEntries (P := fun cf => cf.pool.size ≤ PoolExtension.maxSlots) (by decide) (by decide)

/-- A run on the two class files succeeds and tells of two changes. -/
theorem exists_run_pairEntries :
    ∃ result, (run {} pairEntries).run.value = .ok result ∧ result.changes.length = 2 := by
  have hok : (run {} pairEntries).run.value.toOption.map (fun r => r.changes.length)
      = some 2 := by decide +kernel
  cases hrun : (run {} pairEntries).run.value with
  | error cause =>
    rw [hrun] at hok
    cases hok
  | ok result =>
    rw [hrun] at hok
    exact ⟨result, rfl, Option.some.inj hok⟩

/-- What the first entry of a run says, if all goes well. -/
def firstClass? (entries : List Entry) : Option ClassFile :=
  (run {} entries).run.value.toOption.bind fun result => result.entries[0]?.bind fun e =>
    (ClassFile.parse e.content).toOption

theorem exists_of_firstClass? {entries : List Entry} {P : ClassFile → Bool}
    (h : (firstClass? entries).map P = some true) :
    ∃ result e cf, (run {} entries).run.value = .ok result ∧ result.entries[0]? = some e
      ∧ ClassFile.parse e.content = .ok cf ∧ P cf = true := by
  obtain ⟨cf, hfirst, hP⟩ := Option.map_eq_some_iff.1 h
  obtain ⟨result, hrun, hfirst⟩ := Option.bind_eq_some_iff.1 hfirst
  obtain ⟨e, he, hparse⟩ := Option.bind_eq_some_iff.1 hfirst
  exact ⟨result, e, cf, Result.toOption_eq_some.1 hrun, he, Result.toOption_eq_some.1 hparse, hP⟩

/-- The class files of a final class `A` and of a class `B` that extends it all the same. -/
def finalEntries : List Entry :=
  [⟨"/u/A.class", .ofUnit, ClassFile.plainClass.markFinal ClassFile.plainBytes⟩,
    ⟨"/u/B.class", .ofUnit, Ruling.pairBytes 4 2⟩]

theorem sizes_finalEntries : ∀ e ∈ finalEntries, e.isClass = true → ∀ cf,
    ClassFile.parse e.content = .ok cf → cf.pool.size ≤ PoolExtension.maxSlots := by
  have hparse : finalEntries.map (fun e => ClassFile.parse e.content)
      = [{ ClassFile.plainClass with access := ⟨0x31⟩ },
        Ruling.pairClass "B" (some "A")].map .ok := by
    decide +kernel
  exact forall_of_parse hparse (by decide)

/-- The class `A` comes out sealed, and lists `B`. The final class `A`, which is extended, comes out
final because it was so before. -/
theorem closed_of_run_pair :
    (∃ result e' cf, (run {} pairEntries).run.value = .ok result ∧ result.entries[0]? = some e'
      ∧ ClassFile.parse e'.content = .ok cf ∧ cf.isSealed = true
      ∧ ∃ names, cf.permittedSubclasses = some names ∧ "B" ∈ names)
    ∧ ∃ result e' d cf, (run {} finalEntries).run.value = .ok result
      ∧ result.entries[0]? = some e'
      ∧ finalEntries[0]?.map TypeDecl.ofEntry = some (.ok d)
      ∧ ClassFile.parse e'.content = .ok cf ∧ cf.isFinal = true ∧ d.classFile.isFinal = true := by
  constructor
  · have hfirst : (firstClass? pairEntries).map ClassFile.isSealed = some true := by decide +kernel
    obtain ⟨result, e', cf, hrun, he', hcf, hsealed⟩ := exists_of_firstClass? hfirst
    have hnames : NamesDiffer pairEntries := by
      unfold NamesDiffer
      decide +kernel
    obtain ⟨e'', d, cf', he'', hread, hcf', hsub, _⟩ := closed_of_run hnames sizes_pairEntries hrun
      (show pairEntries[0]? = some ⟨"/u/A.class", .ofUnit, Ruling.pairBytes 2 0⟩ from rfl)
      (by decide +kernel)
    obtain rfl := Option.some.inj (he'.symm.trans he'')
    obtain rfl := Except.ok.inj (hcf.symm.trans hcf')
    have hd : TypeDecl.ofEntry ⟨"/u/A.class", .ofUnit, Ruling.pairBytes 2 0⟩
        = .ok ⟨"/u/A.class", "u", "A", Ruling.pairClass "A" none⟩ := by decide +kernel
    obtain rfl := Except.ok.inj (hd.symm.trans hread)
    have hlisted := hsub ⟨"/u/B.class", .ofUnit, Ruling.pairBytes 4 2⟩
      (List.mem_cons_of_mem _ List.mem_cons_self) (by decide +kernel)
      ⟨"/u/B.class", "u", "B", Ruling.pairClass "B" (some "A")⟩ (by decide +kernel) (.inl rfl)
    exact ⟨result, e', cf, hrun, he', hcf, hsealed, (hlisted.2 hsealed rfl).1⟩
  · have hfirst : (firstClass? finalEntries).map ClassFile.isFinal = some true := by decide +kernel
    obtain ⟨result, e', cf, hrun, he', hcf, hfinal⟩ := exists_of_firstClass? hfirst
    have hnames : NamesDiffer finalEntries := by
      unfold NamesDiffer
      decide +kernel
    obtain ⟨e'', d, cf', he'', hread, hcf', hsub, _⟩ :=
      closed_of_run hnames sizes_finalEntries hrun
        (show finalEntries[0]? = some ⟨"/u/A.class", .ofUnit,
          ClassFile.plainClass.markFinal ClassFile.plainBytes⟩ from rfl) (by decide +kernel)
    obtain rfl := Option.some.inj (he'.symm.trans he'')
    obtain rfl := Except.ok.inj (hcf.symm.trans hcf')
    have hname : d.name = "A" := by
      have htype : EntryPath.typeName "/u/A.class" = .ok "A" := by decide +kernel
      exact Except.ok.inj ((TypeDecl.ofEntry_eq_ok.1 hread).2.2.1.symm.trans htype)
    have hkept := hsub ⟨"/u/B.class", .ofUnit, Ruling.pairBytes 4 2⟩
      (List.mem_cons_of_mem _ List.mem_cons_self) (by decide +kernel)
      ⟨"/u/B.class", "u", "B", Ruling.pairClass "B" (some "A")⟩ (by decide +kernel)
      (.inl (congrArg some hname.symm))
    exact ⟨result, e', d, cf, hrun, he', congrArg some hread, hcf, hfinal, hkept.1 hfinal⟩

end LinkSet.Tightening
