import LinkSet.Proofs.NameOrder
import LinkSet.Proofs.PathWalks
import Mathlib.Data.List.Induction

/-!
# Trees and what is listed of them

In a tree everything has a name and is in a folder (`FileTree.IsTree`). So all that leads to
something in it are folders (`FileTree.IsTree.isFolderAt_of_prefix`), and nothing is below a file.

What is below a folder is listed by the names that lead to it from there, in the order of these
names, compared one by one (`FileTree.pairwise_nodesBelow`).
-/

namespace LinkSet

/-! ## The order of locations -/

theorem Location.lt_of_compare {a b : Location} (h : compare a b = .lt) : a < b := by
  change List.compareLex compare a b = .lt at h
  induction a generalizing b with
  | nil =>
    cases b with
    | nil => cases h
    | cons y b => exact List.nil_lt_cons y b
  | cons x a ih =>
    cases b with
    | nil => cases h
    | cons y b =>
      rw [List.compareLex_cons_cons, Ordering.then_eq_lt] at h
      rw [List.cons_lt_cons_iff]
      rcases h with hname | ⟨hname, hrest⟩
      · exact .inl (Utf8.lt_of_compare hname)
      · exact .inr ⟨Std.LawfulEqOrd.eq_of_compare hname, ih hrest⟩

/-- Locations in one folder are in the order of the names that lead to them from there. -/
theorem Location.compare_append (l a b : Location) :
    compare (l ++ a) (l ++ b) = compare a b := by
  change List.compareLex compare (l ++ a) (l ++ b) = List.compareLex compare a b
  induction l with
  | nil => rfl
  | cons x l ih =>
    rw [List.cons_append, List.cons_append, List.compareLex_cons_cons, Std.compare_self, ih]
    rfl

namespace FileTree

variable {t : FileTree} {l : Location} {names : List String} {node : Node} {content : Content}

/-! ## Trees -/

/-- A file can have this name. -/
structure IsFileName (name : String) : Prop extends IsDown name where
  slash : '/' ∉ name.toList

/-- The tree is one that there can be: the root is not in it, and everything in it has the name of a
file and is in a folder. -/
structure IsTree (t : FileTree) : Prop where
  root : t.nodes[([] : Location)]? = none
  name : ∀ l name, t.node? (l ++ [name]) ≠ none → IsFileName name
  parent : ∀ l name, t.node? (l ++ [name]) ≠ none → t.isFolderAt l = true

theorem node?_empty (h : l ≠ []) : FileTree.empty.node? l = none := by
  rw [node?, if_neg h]
  exact Std.ExtTreeMap.getElem?_empty

theorem isTree_empty : IsTree FileTree.empty :=
  ⟨Std.ExtTreeMap.getElem?_empty, fun _ _ h => absurd (node?_empty (by simp)) h,
    fun _ _ h => absurd (node?_empty (by simp)) h⟩

/-- A tree stays a tree if something is put into a folder of it, but not in the place of a folder. -/
theorem IsTree.put (ht : t.IsTree) {name : String} (hfolder : t.isFolderAt l = true)
    (hname : IsFileName name) (hplace : t.isFolderAt (l ++ [name]) = false ∨ node = .folder) :
    IsTree (t.put (l ++ [name]) node) := by
  have hne : l ++ [name] ≠ [] := by simp
  refine ⟨?_, fun k other hk => ?_, fun k other hk => ?_⟩
  · rw [FileTree.put, Std.ExtTreeMap.getElem?_insert, if_neg (by simp)]
    exact ht.root
  · by_cases hsame : l ++ [name] = k ++ [other]
    · obtain ⟨_, hother⟩ := List.append_inj' hsame rfl
      obtain rfl := List.singleton_inj.1 hother
      exact hname
    · rw [node?_put_of_ne t hsame] at hk
      exact ht.name k other hk
  · have hk' : t.isFolderAt k = true := by
      by_cases hsame : l ++ [name] = k ++ [other]
      · obtain ⟨rfl, _⟩ := List.append_inj' hsame rfl
        exact hfolder
      · rw [node?_put_of_ne t hsame] at hk
        exact ht.parent k other hk
    by_cases hplaced : l ++ [name] = k
    · rcases hplace with hplace | rfl
      · rw [← hplaced, hplace] at hk'
        cases hk'
      · rw [isFolderAt_iff, ← hplaced, node?_put_self t hne]
    · rw [isFolderAt_iff, node?_put_of_ne t hplaced]
      exact isFolderAt_iff.1 hk'

/-- What leads to something are folders. -/
theorem IsTree.isFolderAt_of_prefix (ht : t.IsTree) {k : Location} (hl : t.node? l ≠ none)
    (hk : k <+: l) (hne : k ≠ l) : t.isFolderAt k = true := by
  induction l using List.reverseRecOn with
  | nil => exact absurd (List.prefix_nil.1 hk) hne
  | append_singleton l name ih =>
    have hfolder := ht.parent l name hl
    rcases List.prefix_concat_iff.1 hk with rfl | hk
    · exact absurd rfl hne
    · by_cases hkl : k = l
      · rw [hkl]
        exact hfolder
      · exact ih (by rw [isFolderAt_iff.1 hfolder]; simp) hk hkl

theorem IsTree.isFileName (ht : t.IsTree) (hl : t.node? (l ++ names) ≠ none) :
    ∀ name ∈ names, IsFileName name := by
  intro name hname
  obtain ⟨before, behind, rfl⟩ := List.append_of_mem hname
  have hup : t.node? (l ++ before ++ [name]) ≠ none := by
    cases behind with
    | nil => rwa [List.append_assoc]
    | cons next behind =>
      have hfolder := ht.isFolderAt_of_prefix (k := l ++ before ++ [name]) hl (by simp) (by simp)
      rw [isFolderAt_iff.1 hfolder]
      simp
  exact ht.name (l ++ before) name hup

/-- Nothing is below a folder in which no name is used. -/
theorem IsTree.eq_nil_of_empty (ht : t.IsTree) (hempty : ∀ name, t.node? (l ++ [name]) = none)
    (hl : t.node? (l ++ names) ≠ none) : names = [] := by
  cases names with
  | nil => rfl
  | cons name names =>
    have hfirst : t.node? (l ++ [name]) ≠ none := by
      cases names with
      | nil => exact hl
      | cons next names =>
        have hfolder := ht.isFolderAt_of_prefix (k := l ++ [name]) hl (by simp) (by simp)
        rw [isFolderAt_iff.1 hfolder]
        simp
    exact absurd (hempty name) hfirst

/-! ## Listing -/

theorem mem_nodesBelow : (names, node) ∈ t.nodesBelow l ↔ t.nodes[l ++ names]? = some node := by
  unfold nodesBelow
  rw [List.mem_filterMap]
  constructor
  · rintro ⟨⟨location, found⟩, hmem, h⟩
    obtain ⟨rest, hrest, hpair⟩ := Option.map_eq_some_iff.1 h
    obtain ⟨rfl, rfl⟩ := Prod.mk.inj hpair
    rw [← Text.dropStart?_eq_some.1 hrest]
    exact Std.ExtTreeMap.mem_toList_iff_getElem?_eq_some.1 hmem
  · intro h
    refine ⟨(l ++ names, node), Std.ExtTreeMap.mem_toList_iff_getElem?_eq_some.2 h, ?_⟩
    rw [Option.map_eq_some_iff]
    exact ⟨names, Text.dropStart?_eq_some.2 rfl, rfl⟩

theorem pairwise_nodesBelow (t : FileTree) (l : Location) :
    (t.nodesBelow l).Pairwise fun a b => a.1 < b.1 := by
  unfold nodesBelow
  rw [List.pairwise_filterMap]
  refine Std.ExtTreeMap.ordered_keys_toList.imp fun {x y} hless a ha b hb => ?_
  obtain ⟨names, hnames, rfl⟩ := Option.map_eq_some_iff.1 ha
  obtain ⟨names', hnames', rfl⟩ := Option.map_eq_some_iff.1 hb
  rw [Text.dropStart?_eq_some.1 hnames, Text.dropStart?_eq_some.1 hnames',
    Location.compare_append] at hless
  exact Location.lt_of_compare hless

theorem pairwise_filesBelow (t : FileTree) (l : Location) :
    (t.filesBelow l).Pairwise fun a b => a.1 < b.1 := by
  unfold filesBelow
  rw [List.pairwise_filterMap]
  refine (pairwise_nodesBelow t l).imp fun {x y} hless a ha b hb => ?_
  obtain ⟨names, node⟩ := x
  obtain ⟨names', node'⟩ := y
  cases node <;> cases ha
  cases node' <;> cases hb
  exact hless

theorem IsTree.node?_of_mem_nodesBelow (ht : t.IsTree) (h : (names, node) ∈ t.nodesBelow l) :
    t.node? (l ++ names) = some node := by
  rw [mem_nodesBelow] at h
  unfold node?
  by_cases hroot : l ++ names = []
  · rw [hroot, ht.root] at h
    cases h
  · rw [if_neg hroot, h]

theorem IsTree.mem_filesBelow (ht : t.IsTree) :
    (names, content) ∈ t.filesBelow l ↔ t.node? (l ++ names) = some (.file content) := by
  rw [filesBelow, List.mem_filterMap]
  constructor
  · rintro ⟨⟨found, node⟩, hmem, h⟩
    cases node <;> cases h
    exact ht.node?_of_mem_nodesBelow hmem
  · intro h
    refine ⟨(names, .file content), ?_, rfl⟩
    rw [mem_nodesBelow]
    unfold node? at h
    split at h
    · cases h
    · exact h

end FileTree

end LinkSet
