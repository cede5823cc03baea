import LinkSet.Proofs.Results
import LinkSet.TypeDecl
import Mathlib.Data.List.Nodup

/-!
# Paths of types

The path of a type is put together from its unit and its name. It is taken apart by two readers that
know nothing of each other: one wants a unit and something behind it, the other a name, and takes
any unit for that. What each of them accepts is told by `EntryPath.unit_eq_ok` and
`EntryPath.typeName_eq_ok`. The paths that both accept are exactly those that are put together from
a proper unit and a proper name (`EntryPath.reads_iff`), and they come apart into just these.

So a type that was read from an entry is known by its path as well as by its unit and its name. The
index relies on this when it looks for a type of a unit under the path that it should have.
-/

namespace LinkSet

namespace EntryPath

variable {path unit name : String}

/-! ## The two readers -/

/-- A text that can be the name of a unit in a path. -/
def IsUnit (unit : String) : Prop := unit ≠ "" ∧ '/' ∉ unit.toList

/-- A text that can be the name of a type in a path. -/
def IsType (name : String) : Prop := name ≠ "" ∧ name.toList.getLast? ≠ some '/'

/-- A path is cut at its second slash, if the first one stands at its start. -/
theorem split?_eq_some {unit rest : List Char} :
    split? path = some (unit, rest)
      ↔ '/' ∉ unit ∧ path.toList = '/' :: (unit ++ '/' :: rest) := by
  unfold split?
  constructor
  · intro h
    split at h
    · rename_i text htext
      obtain ⟨hcut, hslash⟩ := Text.cut?_eq_some h
      exact ⟨hslash, by rw [htext, hcut]⟩
    · cases h
  · rintro ⟨hslash, hpath⟩
    rw [hpath]
    exact Text.cut?_append hslash rest

theorem unit_eq_ok :
    EntryPath.unit path = .ok unit
      ↔ IsUnit unit ∧ ∃ rest, rest ≠ [] ∧ path.toList = '/' :: (unit.toList ++ '/' :: rest) := by
  unfold EntryPath.unit
  constructor
  · intro h
    split at h
    · rename_i u rest hsplit
      obtain ⟨⟨hunit, hrest⟩, h⟩ := (Result.ite_eq_ok rfl).1 h
      obtain rfl := Except.ok.inj h
      obtain ⟨hslash, hpath⟩ := split?_eq_some.1 hsplit
      refine ⟨⟨?_, ?_⟩, rest, hrest, ?_⟩
      · intro hempty
        exact hunit (String.ofList_eq_empty_iff.1 hempty)
      · rwa [String.toList_ofList]
      · rwa [String.toList_ofList]
    · cases h
  · rintro ⟨⟨hne, hslash⟩, rest, hrest, hpath⟩
    have hsplit : split? path = some (unit.toList, rest) := split?_eq_some.2 ⟨hslash, hpath⟩
    have hunit : unit.toList ≠ [] := by
      intro hempty
      exact hne (String.toList_eq_nil_iff.1 hempty)
    simp only [hsplit]
    rw [if_pos ⟨hunit, hrest⟩, String.ofList_toList]

theorem typeName_eq_ok :
    typeName path = .ok name
      ↔ IsType name
        ∧ ∃ unit, '/' ∉ unit ∧ path.toList = '/' :: (unit ++ '/' :: (name.toList ++ classSuffix)) := by
  unfold typeName
  constructor
  · intro h
    split at h
    · rename_i unit rest hsplit
      obtain ⟨hslash, hpath⟩ := split?_eq_some.1 hsplit
      by_cases hrest : rest = []
      · rw [if_pos hrest] at h
        cases h
      · rw [if_neg hrest] at h
        split at h
        · cases h
        · rename_i text htext
          by_cases hbad : text = [] ∨ text.getLast? = some '/'
          · rw [if_pos hbad] at h
            cases h
          · rw [if_neg hbad] at h
            obtain rfl := Except.ok.inj h
            rw [not_or] at hbad
            refine ⟨⟨?_, ?_⟩, unit, hslash, ?_⟩
            · intro hempty
              exact hbad.1 (String.ofList_eq_empty_iff.1 hempty)
            · rw [String.toList_ofList]
              exact hbad.2
            · rw [hpath, String.toList_ofList, ← Text.dropEnd?_eq_some.1 htext]
    · cases h
  · rintro ⟨⟨hne, hlast⟩, unit, hslash, hpath⟩
    have hsplit : split? path = some (unit, name.toList ++ classSuffix) :=
      split?_eq_some.2 ⟨hslash, hpath⟩
    have hrest : name.toList ++ classSuffix ≠ [] := List.append_ne_nil_of_right_ne_nil _ (by decide)
    have hdrop : Text.dropEnd? classSuffix (name.toList ++ classSuffix) = some name.toList :=
      Text.dropEnd?_eq_some.2 rfl
    have hgood : ¬ (name.toList = [] ∨ name.toList.getLast? = some '/') := by
      rintro (hempty | hslash)
      · exact hne (String.toList_eq_nil_iff.1 hempty)
      · exact hlast hslash
    simp only [hsplit]
    rw [if_neg hrest]
    simp only [hdrop]
    rw [if_neg hgood, String.ofList_toList]

/-! ## Both together -/

theorem toList_ofType :
    (ofType unit name).toList = '/' :: (unit.toList ++ '/' :: (name.toList ++ classSuffix)) := by
  rw [ofType, String.toList_ofList]
  simp only [List.cons_append, List.append_assoc]

/-- The paths with a unit and a name are those that a proper unit and a proper name make up. -/
theorem reads_iff :
    (EntryPath.unit path = .ok unit ∧ typeName path = .ok name)
      ↔ path = ofType unit name ∧ IsUnit unit ∧ IsType name := by
  constructor
  · rintro ⟨hunit, hname⟩
    obtain ⟨hproper, rest, _, hpath⟩ := unit_eq_ok.1 hunit
    obtain ⟨hproper', u, hslash, hpath'⟩ := typeName_eq_ok.1 hname
    -- there is only one way to cut the path, so the two readers see the same unit
    have hsplit := split?_eq_some.2 ⟨hproper.2, hpath⟩
    have hsplit' := split?_eq_some.2 ⟨hslash, hpath'⟩
    obtain ⟨rfl, rfl⟩ := Prod.mk.inj (Option.some.inj (hsplit.symm.trans hsplit'))
    have htext : path.toList = (ofType unit name).toList := by rw [hpath, toList_ofType]
    exact ⟨String.toList_inj.1 htext, hproper, hproper'⟩
  · rintro ⟨rfl, hunit, hname⟩
    have hrest : name.toList ++ classSuffix ≠ [] := List.append_ne_nil_of_right_ne_nil _ (by decide)
    exact ⟨unit_eq_ok.2 ⟨hunit, _, hrest, toList_ofType⟩,
      typeName_eq_ok.2 ⟨hname, unit.toList, hunit.2, toList_ofType⟩⟩

/-- A path is that of one unit and one name, if the unit has no slash. -/
theorem ofType_inj {unit' name' : String} (hslash : '/' ∉ unit.toList) (hslash' : '/' ∉ unit'.toList) :
    ofType unit name = ofType unit' name' ↔ unit = unit' ∧ name = name' := by
  constructor
  · intro hpath
    have hsplit : split? (ofType unit name) = some (unit.toList, name.toList ++ classSuffix) :=
      split?_eq_some.2 ⟨hslash, toList_ofType⟩
    have hsplit' : split? (ofType unit' name') = some (unit'.toList, name'.toList ++ classSuffix) :=
      split?_eq_some.2 ⟨hslash', toList_ofType⟩
    rw [hpath, hsplit'] at hsplit
    obtain ⟨hunit, hrest⟩ := Prod.mk.inj (Option.some.inj hsplit)
    exact ⟨(String.toList_inj.1 hunit).symm, (String.toList_inj.1 (List.append_cancel_right hrest)).symm⟩
  · rintro ⟨rfl, rfl⟩
    rfl

/-- A path with a unit and a name is the one that they make up. -/
theorem eq_ofType (hunit : EntryPath.unit path = .ok unit) (hname : typeName path = .ok name) :
    path = ofType unit name :=
  (reads_iff.1 ⟨hunit, hname⟩).1

end EntryPath

/-! ## Types that were read -/

namespace TypeDecl

variable {d d' : TypeDecl}

theorem ofEntry_eq_ok {e : Entry} :
    ofEntry e = .ok d ↔ e.path = d.path ∧ EntryPath.unit e.path = .ok d.unit
      ∧ EntryPath.typeName e.path = .ok d.name ∧ ClassFile.parse e.content = .ok d.classFile := by
  unfold ofEntry
  simp only [Result.bind_eq_ok, Result.mapError_eq_ok, Result.pure_eq_ok]
  constructor
  · rintro ⟨unit, hunit, name, hname, cf, hcf, rfl⟩
    exact ⟨rfl, hunit, hname, hcf⟩
  · rintro ⟨hpath, hunit, hname, hcf⟩
    refine ⟨_, hunit, _, hname, _, hcf, ?_⟩
    rw [hpath]

/-- The type is declared by some entry. -/
def IsRead (d : TypeDecl) : Prop := ∃ e, ofEntry e = .ok d

/-- The type has the path that its unit and its name make up, and the path tells which these are. -/
def IsPlaced (d : TypeDecl) : Prop :=
  d.path = EntryPath.ofType d.unit d.name ∧ '/' ∉ d.unit.toList

instance (d : TypeDecl) : Decidable d.IsPlaced := inferInstanceAs (Decidable (_ ∧ _))

/-- A type that was read has the path that its unit and its name make up. -/
theorem IsRead.isPlaced (h : d.IsRead) : d.IsPlaced := by
  obtain ⟨e, he⟩ := h
  obtain ⟨hpath, hunit, hname, _⟩ := ofEntry_eq_ok.1 he
  rw [hpath] at hunit hname
  obtain ⟨hmade, hproper, _⟩ := EntryPath.reads_iff.1 ⟨hunit, hname⟩
  exact ⟨hmade, hproper.2⟩

theorem IsPlaced.path_eq_iff (h : d.IsPlaced) (h' : d'.IsPlaced) :
    d.path = d'.path ↔ d.unit = d'.unit ∧ d.name = d'.name := by
  rw [h.1, h'.1]
  exact EntryPath.ofType_inj h.2 h'.2

/-- Types of different names have different paths. -/
theorem nodup_path {decls : List TypeDecl} (hplaced : ∀ d ∈ decls, d.IsPlaced)
    (hnames : (decls.map TypeDecl.name).Nodup) : (decls.map TypeDecl.path).Nodup := by
  rw [List.Nodup, List.pairwise_map] at hnames ⊢
  refine hnames.imp_of_mem ?_
  intro d d' hd hd' hne hpath
  exact hne (((hplaced d hd).path_eq_iff (hplaced d' hd')).1 hpath).2

end TypeDecl

/-- A path with a unit and a name is the one that they make up, and any proper unit and name are
those of the path that they make up. So types that were read are of one unit and of one name exactly
if they have one path. -/
theorem EntryPath.reads_iff_ofType :
    (∀ path unit name, EntryPath.unit path = .ok unit → typeName path = .ok name →
        ofType unit name = path ∧ IsUnit unit ∧ IsType name)
      ∧ (∀ unit name, IsUnit unit → IsType name →
        EntryPath.unit (ofType unit name) = .ok unit ∧ typeName (ofType unit name) = .ok name)
      ∧ ∀ d d' : TypeDecl, d.IsRead → d'.IsRead →
        (d.unit = d'.unit ∧ d.name = d'.name ↔ d.path = d'.path) := by
  refine ⟨?_, ?_, ?_⟩
  · intro path unit name hunit hname
    obtain ⟨hpath, hproper⟩ := reads_iff.1 ⟨hunit, hname⟩
    exact ⟨hpath.symm, hproper⟩
  · intro unit name hunit hname
    exact reads_iff.2 ⟨rfl, hunit, hname⟩
  · intro d d' hread hread'
    exact (hread.isPlaced.path_eq_iff hread'.isPlaced).symm

/-- Slashes and suffixes inside a name stay there, and types of one name in two units have two
paths. -/
theorem EntryPath.reads_iff_ofType_slashes :
    ofType "ü" "/x.class/A" = "/ü//x.class/A.class"
      ∧ EntryPath.unit (ofType "ü" "/x.class/A") = .ok "ü"
      ∧ typeName (ofType "ü" "/x.class/A") = .ok "/x.class/A"
      ∧ TypeDecl.IsRead ⟨"/u/A.class", "u", "A", ClassFile.plainClass⟩
      ∧ TypeDecl.IsRead ⟨"/v/A.class", "v", "A", ClassFile.plainClass⟩
      ∧ ("u" = "v" ∧ "A" = "A" ↔ "/u/A.class" = "/v/A.class") := by
  obtain ⟨hreads, hmade, hpaths⟩ := reads_iff_ofType
  have hunit : EntryPath.unit "/ü//x.class/A.class" = .ok "ü" := by decide +kernel
  have hname : typeName "/ü//x.class/A.class" = .ok "/x.class/A" := by decide +kernel
  obtain ⟨hpath, hproper, hproper'⟩ := hreads _ _ _ hunit hname
  obtain ⟨hunit', hname'⟩ := hmade _ _ hproper hproper'
  have hu : TypeDecl.IsRead ⟨"/u/A.class", "u", "A", ClassFile.plainClass⟩ :=
    ⟨⟨"/u/A.class", .ofUnit, ClassFile.plainBytes⟩, by decide +kernel⟩
  have hv : TypeDecl.IsRead ⟨"/v/A.class", "v", "A", ClassFile.plainClass⟩ :=
    ⟨⟨"/v/A.class", .ofUnit, ClassFile.plainBytes⟩, by decide +kernel⟩
  exact ⟨hpath, hunit', hname', hu, hv, hpaths _ _ hu hv⟩

end LinkSet
