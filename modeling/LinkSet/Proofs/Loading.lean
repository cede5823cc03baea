import LinkSet.Storage
import LinkSet.Proofs.Results

/-!
# Loading

What is known of entries once they are loaded: which input they are from and that all have different
paths (`Storage.load_eq_ok`), and for jars, of which member of which jar an entry is made
(`Storage.exists_member_of_load`).
-/

namespace LinkSet.Storage

variable {t : FileTree} {inputs : List String} {entries : List Entry}

/-! ## All inputs -/

theorem firstRepeated?_eq_none {seen : NameSet} {names : List String} :
    firstRepeated? seen names = none ↔ names.Nodup ∧ ∀ name ∈ names, name ∉ seen := by
  induction names generalizing seen with
  | nil => simp [firstRepeated?]
  | cons name names ih =>
    by_cases hseen : seen.contains name = true
    · have hmem : name ∈ seen := Std.ExtTreeSet.contains_iff_mem.1 hseen
      rw [firstRepeated?, if_pos hseen]
      refine iff_of_false (fun h => by cases h) ?_
      rintro ⟨_, hnew⟩
      exact hnew name List.mem_cons_self hmem
    · have hmem : name ∉ seen := fun h => hseen (Std.ExtTreeSet.contains_iff_mem.2 h)
      rw [firstRepeated?, if_neg hseen, ih, List.nodup_cons, List.forall_mem_cons]
      simp only [Std.ExtTreeSet.mem_insert, not_or, Std.LawfulEqCmp.compare_eq_iff_eq]
      constructor
      · rintro ⟨hnodup, hnew⟩
        exact ⟨⟨fun hname => (hnew name hname).1 rfl, hnodup⟩, hmem, fun n hn => (hnew n hn).2⟩
      · rintro ⟨⟨hname, hnodup⟩, _, hnew⟩
        exact ⟨hnodup, fun n hn => ⟨fun heq => hname (heq ▸ hn), hnew n hn⟩⟩

/-- The entries of all inputs are loaded exactly if those of each are and no path is there twice. -/
theorem load_eq_ok :
    load t inputs = .ok entries
      ↔ ∃ parts, List.Forall₂ (fun input part => loadInput t input = .ok part) inputs parts
        ∧ parts.flatten = entries ∧ (entries.map Entry.path).Nodup := by
  unfold load
  simp only [Result.bind_eq_ok, Result.mapM_eq_ok]
  constructor
  · rintro ⟨parts, hparts, h⟩
    split at h
    · cases h
    · rename_i hnone
      obtain rfl := Result.pure_eq_ok.1 h
      exact ⟨parts, hparts, rfl, (firstRepeated?_eq_none.1 hnone).1⟩
  · rintro ⟨parts, hparts, rfl, hnodup⟩
    have hnone : firstRepeated? ∅ (parts.flatten.map Entry.path) = none :=
      firstRepeated?_eq_none.2 ⟨hnodup, fun _ _ => Std.ExtTreeSet.not_mem_empty⟩
    exact ⟨parts, hparts, by rw [hnone]; rfl⟩

theorem exists_input_of_load (h : load t inputs = .ok entries) {e : Entry} (he : e ∈ entries) :
    ∃ input ∈ inputs, ∃ part, loadInput t input = .ok part ∧ e ∈ part := by
  obtain ⟨parts, hparts, rfl, _⟩ := load_eq_ok.1 h
  obtain ⟨part, hpart, hmem⟩ := List.mem_flatten.1 he
  obtain ⟨input, hinput, hload⟩ := Result.forall₂_mem hparts.flip hpart
  exact ⟨input, hinput, part, hload, hmem⟩

/-! ## Jars -/

theorem membersAt_eq_ok {path : String} {members : List Member} :
    membersAt t path = .ok members
      ↔ ∃ l content, t.locate? path = some l ∧ t.fileAt? l = some content
        ∧ content.members? = some members := by
  unfold membersAt
  cases hl : t.locate? path with
  | none => simp
  | some l =>
    cases hcontent : t.fileAt? l with
    | none => simp [hcontent]
    | some content => cases hmembers : content.members? <;> simp [hcontent, hmembers]

theorem loadJar_eq_ok {path : String} :
    loadJar t path = .ok entries
      ↔ ∃ unit members, PathText.stem? path = some unit ∧ membersAt t path = .ok members
        ∧ (members.filter (!isFolderMember ·)).map (entryOfMember unit) = entries := by
  unfold loadJar
  cases hstem : PathText.stem? path with
  | none => simp
  | some unit =>
    simp only [Result.bind_eq_ok, Result.pure_eq_ok]
    constructor
    · rintro ⟨members, hmembers, rfl⟩
      exact ⟨unit, members, rfl, hmembers, rfl⟩
    · rintro ⟨unit', members, hunit, hmembers, rfl⟩
      obtain rfl := Option.some.inj hunit
      exact ⟨members, hmembers, rfl⟩

/-- What is loaded from a jar are its members. -/
theorem exists_member_of_load (hjars : ∀ input ∈ inputs, t.isFolder input = false)
    (h : load t inputs = .ok entries) {e : Entry} (he : e ∈ entries) :
    ∃ input unit m, PathText.stem? input = some unit ∧ isFolderMember m = false
      ∧ e = entryOfMember unit m := by
  obtain ⟨input, hinput, part, hpart, hmem⟩ := exists_input_of_load h he
  rw [loadInput, hjars input hinput, if_neg Bool.false_ne_true] at hpart
  obtain ⟨unit, members, hstem, _, rfl⟩ := loadJar_eq_ok.1 hpart
  obtain ⟨m, hm, rfl⟩ := List.mem_map.1 hmem
  obtain ⟨_, hfile⟩ := List.mem_filter.1 hm
  exact ⟨input, unit, m, hstem, by simpa using hfile, rfl⟩

theorem kind_of_load (hjars : ∀ input ∈ inputs, t.isFolder input = false)
    (h : load t inputs = .ok entries) : ∀ e ∈ entries, e.kind = .ofUnit := by
  intro e he
  obtain ⟨_, _, _, _, _, rfl⟩ := exists_member_of_load hjars h he
  rfl

/-! ## Folders -/

/-- The entry of what lies in a folder, if it is a file. -/
def entryOf? : Location × Node → Option Entry
  | (names, .file content) => some (entryOfFile names content.toBytes)
  | _ => none

theorem entryOfNode_eq_ok {root : String} {x : Location × Node} {found : Option Entry} :
    entryOfNode root x.1 x.2 = .ok found
      ↔ ((∀ target, x.2 ≠ .link target) → PathText.isTooLong (x.1.foldl PathText.join root) = false)
        ∧ entryOf? x = found := by
  obtain ⟨names, node⟩ := x
  unfold entryOfNode
  cases node with
  | link target => simp [entryOf?]
  | folder =>
    cases hlong : PathText.isTooLong (names.foldl PathText.join root) <;> simp [entryOf?, hlong]
  | file content =>
    cases hlong : PathText.isTooLong (names.foldl PathText.join root) <;> simp [entryOf?, hlong]

theorem mapM_entryOfNode_eq_ok {root : String} {nodes : List (Location × Node)}
    {found : List (Option Entry)} :
    (nodes.mapM fun (names, node) => entryOfNode root names node) = .ok found
      ↔ (∀ x ∈ nodes, (∀ target, x.2 ≠ .link target) →
          PathText.isTooLong (x.1.foldl PathText.join root) = false)
        ∧ nodes.map entryOf? = found := by
  rw [Result.mapM_eq_ok]
  simp only [entryOfNode_eq_ok]
  rw [List.forall₂_and_left, ← List.forall₂_map_left_iff (R := Eq), List.forall₂_eq_eq_eq]

/-- What is loaded from a folder are the files below it, if no path of a file or folder is too long. -/
theorem loadFolder_eq_ok {path : String} (hinput : isStandardInput path = false) :
    loadFolder t path = .ok entries
      ↔ ∃ l, t.locate? path = some l
        ∧ (∀ x ∈ t.nodesBelow l, (∀ target, x.2 ≠ .link target) →
          PathText.isTooLong (x.1.foldl PathText.join path) = false)
        ∧ (t.filesBelow l).map (fun x => entryOfFile x.1 x.2.toBytes) = entries := by
  have hfiles : ∀ l, ((t.nodesBelow l).map entryOf?).filterMap id
      = (t.filesBelow l).map fun x => entryOfFile x.1 x.2.toBytes := by
    intro l
    rw [List.filterMap_map, FileTree.filesBelow, List.map_filterMap]
    refine List.filterMap_congr fun x _ => ?_
    obtain ⟨names, node⟩ := x
    cases node <;> rfl
  rw [loadFolder, if_neg (by simp [hinput])]
  cases hl : t.locate? path with
  | none => simp
  | some l =>
    simp only [Result.bind_eq_ok, Result.pure_eq_ok, mapM_entryOfNode_eq_ok]
    constructor
    · rintro ⟨found, ⟨hshort, rfl⟩, rfl⟩
      exact ⟨l, rfl, hshort, (hfiles l).symm⟩
    · rintro ⟨l', hl', hshort, rfl⟩
      obtain rfl := Option.some.inj hl'
      exact ⟨_, ⟨hshort, rfl⟩, hfiles l⟩

/-! ## Layouts -/

theorem layoutOf_eq_jars {input : String} (h : layoutOf t input = .ok .jars) :
    t.isFolder input = false := by
  unfold layoutOf at h
  split at h
  · cases h
  · rename_i hfolder
    exact Bool.eq_false_iff.2 hfolder

theorem sharedLayout_eq_ok {seen layout : StorageLayout} :
    sharedLayout t seen inputs = .ok layout
      ↔ layout = seen ∧ ∀ input ∈ inputs, layoutOf t input = .ok seen := by
  induction inputs with
  | nil => simp [sharedLayout, eq_comm]
  | cons input inputs ih =>
    rw [sharedLayout, Result.bind_eq_ok, List.forall_mem_cons]
    constructor
    · rintro ⟨found, hfound, h⟩
      by_cases hsame : found = seen
      · rw [if_pos hsame] at h
        obtain ⟨hlayout, hrest⟩ := ih.1 h
        exact ⟨hlayout, hsame ▸ hfound, hrest⟩
      · rw [if_neg hsame] at h
        cases h
    · rintro ⟨hlayout, hfound, hrest⟩
      exact ⟨seen, hfound, by rw [if_pos rfl]; exact ih.2 ⟨hlayout, hrest⟩⟩

/-- If the layout is that of jars, no input is a folder. -/
theorem isFolder_of_detectLayout (h : detectLayout t inputs = .ok .jars) :
    ∀ input ∈ inputs, t.isFolder input = false := by
  cases inputs with
  | nil => cases h
  | cons input inputs =>
    obtain ⟨found, hfound, h⟩ := Result.bind_eq_ok.1 h
    obtain ⟨rfl, hrest⟩ := sharedLayout_eq_ok.1 h
    exact List.forall_mem_cons.2
      ⟨layoutOf_eq_jars hfound, fun input hinput => layoutOf_eq_jars (hrest input hinput)⟩

end LinkSet.Storage
