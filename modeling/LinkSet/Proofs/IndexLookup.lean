import LinkSet.Index
import LinkSet.Proofs.TypePaths

/-!
# What the index answers

The index is made by adding the types of a link set one by one. What it answers in the end is stated
here in terms of the types themselves: which subtypes a name has (`Index.mem_of_subtypes`), whether
a unit declares some names (`Index.declaresAll_iff`), which type has a given path
(`Index.byPath_iff`), and which subtypes may be listed (`Index.value_permits`).

A type is looked for under the path that its unit and its name make up. It is found there because
this is the path that it was read from (`TypeDecl.IsRead.isPlaced`).
-/

namespace LinkSet

namespace TypeDecl

variable {d : TypeDecl}

/-- The type has `name` as its superclass or among its interfaces. -/
def Extends (d : TypeDecl) (name : String) : Prop :=
  d.classFile.superName = some name ∨ name ∈ d.classFile.interfaces

instance (d : TypeDecl) (name : String) : Decidable (d.Extends name) :=
  inferInstanceAs (Decidable (_ ∨ _))

theorem mem_supertypes {name : String} : name ∈ d.supertypes ↔ d.Extends name := by
  rw [supertypes, List.mem_append, Option.mem_toList]
  exact Iff.rfl

end TypeDecl

/-! ## Multimaps -/

namespace NameMultimap

theorem get?_add_eq_none (m : NameMultimap) (key value k : String) :
    (m.add key value).get? k = none ↔ key ≠ k ∧ m.get? k = none := by
  unfold add get?
  cases h : m.sets[key]? with
  | some values =>
    by_cases hk : key = k
    · simp [hk]
    · simp [Std.ExtTreeMap.getElem?_insert, hk]
  | none =>
    by_cases hk : key = k
    · simp [hk]
    · simp [Std.ExtTreeMap.getElem?_insert, hk]

/-- Nothing is found exactly under keys without pairs. -/
theorem get?_ofPairs_eq_none (pairs : List (String × String)) (k : String) :
    (ofPairs pairs).get? k = none ↔ ∀ v, (k, v) ∉ pairs := by
  suffices h : ∀ m : NameMultimap,
      (pairs.foldl (fun m pair => m.add pair.1 pair.2) m).get? k = none
        ↔ m.get? k = none ∧ ∀ v, (k, v) ∉ pairs by
    have hempty : empty.get? k = none := by simp [get?, empty]
    rw [ofPairs, h, and_iff_right hempty]
  induction pairs with
  | nil => simp
  | cons pair pairs ih =>
    intro m
    rw [List.foldl_cons, ih, get?_add_eq_none]
    constructor
    · rintro ⟨⟨hkey, hm⟩, hpairs⟩
      refine ⟨hm, fun v hv => ?_⟩
      rcases List.mem_cons.1 hv with rfl | hv
      · exact hkey rfl
      · exact hpairs v hv
    · rintro ⟨hm, hpairs⟩
      refine ⟨⟨?_, hm⟩, fun v hv => hpairs v (List.mem_cons_of_mem _ hv)⟩
      rintro rfl
      exact hpairs pair.2 List.mem_cons_self

theorem contains_of_get? {m : NameMultimap} {k : String} {values : NameSet}
    (h : m.get? k = some values) (v : String) : m.contains k v = true ↔ v ∈ values := by
  rw [contains, h]
  exact Std.ExtTreeSet.contains_iff_mem

end NameMultimap

/-! ## Answers -/

namespace Index

variable {decls : List TypeDecl} {d : TypeDecl} {name unit : String}

theorem mem_subtypePairs {sub : String} :
    (name, sub) ∈ subtypePairs decls ↔ ∃ d ∈ decls, d.name = sub ∧ d.Extends name := by
  rw [← NameMultimap.contains_ofPairs]
  exact contains_subtypes.trans (by simp only [TypeDecl.mem_supertypes])

theorem mem_memberPairs :
    (unit, name) ∈ memberPairs decls ↔ ∃ d ∈ decls, d.unit = unit ∧ d.name = name := by
  rw [← NameMultimap.contains_ofPairs]
  exact contains_members

/-- A name without subtypes is not in the index. -/
theorem subtypes_eq_none :
    (ofDecls decls).subtypes.get? name = none ↔ ∀ d ∈ decls, ¬ d.Extends name := by
  have h := NameMultimap.get?_ofPairs_eq_none (subtypePairs decls) name
  simp only [mem_subtypePairs] at h
  refine h.trans ⟨fun h d hd hext => h d.name ⟨d, hd, rfl, hext⟩, ?_⟩
  rintro h sub ⟨d, hd, _, hext⟩
  exact h d hd hext

/-- A name with subtypes is extended by some type. -/
theorem exists_extends {subtypes : NameSet}
    (h : (ofDecls decls).subtypes.get? name = some subtypes) : ∃ d ∈ decls, d.Extends name := by
  by_contra hno
  have hnone : (ofDecls decls).subtypes.get? name = none :=
    subtypes_eq_none.2 fun d hd hext => hno ⟨d, hd, hext⟩
  rw [h] at hnone
  cases hnone

/-- The subtypes of a name are those that extend it. -/
theorem mem_of_subtypes {subtypes : NameSet}
    (h : (ofDecls decls).subtypes.get? name = some subtypes) (sub : String) :
    sub ∈ subtypes ↔ ∃ d ∈ decls, d.name = sub ∧ d.Extends name := by
  rw [← NameMultimap.contains_of_get? h, contains_subtypes]
  simp only [TypeDecl.mem_supertypes]

theorem declaresAll_iff {names : List String} :
    (ofDecls decls).declaresAll unit names = true
      ↔ ∀ n ∈ names, ∃ d ∈ decls, d.unit = unit ∧ d.name = n := by
  rw [declaresAll, NameMultimap.containsAll, List.all_eq_true]
  simp only [contains_members]

/-! ## Types by path -/

theorem byPath_eq_some {path : String} (h : (ofDecls decls).byPath[path]? = some d) :
    d ∈ decls ∧ d.path = path := by
  suffices hall : ∀ types : Std.ExtTreeMap String TypeDecl,
      (decls.foldl (fun types d => types.insert d.path d) types)[path]? = some d →
        types[path]? = some d ∨ (d ∈ decls ∧ d.path = path) by
    rcases hall ∅ h with h | h
    · simp at h
    · exact h
  clear h
  induction decls with
  | nil => exact fun types h => .inl h
  | cons x decls ih =>
    intro types h
    rcases ih _ h with h | ⟨hd, hpath⟩
    · by_cases hx : x.path = path
      · subst hx
        rw [Std.ExtTreeMap.getElem?_insert_self] at h
        obtain rfl := Option.some.inj h
        exact .inr ⟨List.mem_cons_self, rfl⟩
      · rw [Std.ExtTreeMap.getElem?_insert, if_neg (by simpa using hx)] at h
        exact .inl h
    · exact .inr ⟨List.mem_cons_of_mem _ hd, hpath⟩

theorem exists_byPath (hd : d ∈ decls) : ∃ d', (ofDecls decls).byPath[d.path]? = some d' := by
  suffices hall : ∀ types : Std.ExtTreeMap String TypeDecl,
      types[d.path]?.isSome ∨ d ∈ decls →
        (decls.foldl (fun types d => types.insert d.path d) types)[d.path]?.isSome from
    Option.isSome_iff_exists.1 (hall ∅ (.inr hd))
  clear hd
  induction decls with
  | nil =>
    rintro types (h | h)
    · exact h
    · cases h
  | cons x decls ih =>
    intro types h
    refine ih _ ?_
    by_cases hx : x.path = d.path
    · simp only [hx, Std.ExtTreeMap.getElem?_insert_self]
      exact .inl rfl
    · have hne : ¬ compare x.path d.path = .eq := by simpa using hx
      simp only [Std.ExtTreeMap.getElem?_insert, if_neg hne]
      rcases h with h | h
      · exact .inl h
      · rcases List.mem_cons.1 h with rfl | h
        · exact absurd rfl hx
        · exact .inr h

/-- If all paths are different, a type is found under its path. -/
theorem byPath_iff (hpaths : (decls.map TypeDecl.path).Nodup) {path : String} :
    (ofDecls decls).byPath[path]? = some d ↔ d ∈ decls ∧ d.path = path := by
  constructor
  · exact byPath_eq_some
  · rintro ⟨hd, rfl⟩
    obtain ⟨d', hd'⟩ := exists_byPath hd
    obtain ⟨hmem, hpath⟩ := byPath_eq_some hd'
    rw [hd', List.inj_on_of_nodup_map hpaths hmem hd hpath]

/-! ## Permission -/

/-- A type may be listed if it is not nested, and is of the same package or found to be public. -/
theorem value_permits {ix : Index} {level : Level} {owner candidate : String} :
    (ix.permits level owner unit candidate).value = true
      ↔ TypeName.isNested candidate = false
        ∧ (TypeName.package owner = TypeName.package candidate
          ∨ ∃ d, ix.byPath[EntryPath.ofType unit candidate]? = some d
            ∧ d.classFile.isPublic = true) := by
  unfold permits
  cases hnested : TypeName.isNested candidate with
  | true => simp
  | false =>
    by_cases hpackage : TypeName.package owner = TypeName.package candidate
    · simp [hpackage]
    · cases hfound : ix.byPath[EntryPath.ofType unit candidate]? with
      | none => simp [hpackage]
      | some d => simp [hpackage]

theorem value_permitsAll {ix : Index} {level : Level} {owner : String} {names : List String} :
    (ix.permitsAll level owner unit names).value = true
      ↔ ∀ n ∈ names, (ix.permits level owner unit n).value = true := by
  induction names with
  | nil => simp [permitsAll]
  | cons n names ih =>
    rw [permitsAll, Remarked.value_bind, List.forall_mem_cons, ← ih]
    cases (ix.permits level owner unit n).value with
    | true => simp
    | false => simp

end Index

end LinkSet
