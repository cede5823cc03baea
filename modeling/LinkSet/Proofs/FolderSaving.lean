import LinkSet.Proofs.Listing
import LinkSet.Proofs.PathTexts

/-!
# Saving a file in a folder

The file of an entry is saved below the folder for the results, at the end of the names in its path.
The folders on the way are made if they are missing. If nothing but folders is on the way and nothing
at the end of it, this succeeds, and nothing else changes (`Storage.saveFile_eq_ok`).
-/

namespace LinkSet

namespace FileTree

variable {t t' : FileTree} {n m : Nat} {here l : Location} {names : List String}

/-! ## Making folders -/

/-- What is done at a link when folders are made by a walk that may go through so many links. -/
def makeOnLink : Nat → FileTree → Location → List FolderStep → FileTree × Bool
  | 0 => fun t _ _ => (t, false)
  | n + 1 => makeFoldersFrom n

theorem makeFoldersFrom_eq (n : Nat) : makeFoldersFrom n = makeFoldersWith (makeOnLink n) := by
  cases n <;> rfl

/-- No folder is made by a hop, as it leads to something that is there. -/
theorem makeFoldersFrom_hop {w w' : Walk} (h : Hop t w w') {steps : List FolderStep}
    (hsteps : steps.map (·.name) = w.steps) :
    ∃ steps', steps'.map (·.name) = w'.steps ∧ ∀ rest,
      makeFoldersFrom w.links t w.here (steps ++ rest)
        = makeFoldersFrom w'.links t w'.here (steps' ++ rest) := by
  cases h with
  | @stay n here name rest hfolder hstep =>
    obtain ⟨step, more, rfl, rfl, hmore⟩ := List.map_eq_cons_iff.1 hsteps
    refine ⟨more, hmore, fun rest => ?_⟩
    simp [makeFoldersFrom_eq, makeFoldersWith, hfolder, hstep]
  | up hfolder =>
    obtain ⟨step, more, rfl, hname, hmore⟩ := List.map_eq_cons_iff.1 hsteps
    have hstay : PathText.isStay ".." = false := by decide
    refine ⟨more, hmore, fun rest => ?_⟩
    simp [makeFoldersFrom_eq, makeFoldersWith, hfolder, hname, hstay]
  | @down n here name rest node hfolder hstep hnode hlink =>
    obtain ⟨step, more, rfl, rfl, hmore⟩ := List.map_eq_cons_iff.1 hsteps
    refine ⟨more, hmore, fun rest => ?_⟩
    cases node with
    | link target => exact absurd rfl (hlink target)
    | file content =>
      simp [makeFoldersFrom_eq, makeFoldersWith, hfolder, hstep.isStay_eq, hstep.ne_up, hstep.isName,
        hnode]
    | folder =>
      simp [makeFoldersFrom_eq, makeFoldersWith, hfolder, hstep.isStay_eq, hstep.ne_up, hstep.isName,
        hnode]
  | @link n here name target rest hfolder hstep hnode =>
    obtain ⟨step, more, rfl, rfl, hmore⟩ := List.map_eq_cons_iff.1 hsteps
    refine ⟨(PathText.steps target).map (⟨·, false⟩) ++ more, ?_, fun rest => ?_⟩
    · rw [List.map_append, List.map_map, hmore]
      congr 1
      exact List.map_id _
    · rw [makeFoldersFrom_eq (n + 1)]
      simp [makeFoldersWith, makeOnLink, hfolder, hstep.isStay_eq, hstep.ne_up, hstep.isName, hnode]

/-- Folders are made from where a walk leads. -/
theorem makeFoldersFrom_hops {w : Walk} (h : Hops t w ⟨m, l, []⟩) {steps : List FolderStep}
    (hsteps : steps.map (·.name) = w.steps) (rest : List FolderStep) :
    makeFoldersFrom w.links t w.here (steps ++ rest) = makeFoldersFrom m t l rest := by
  induction h using Relation.ReflTransGen.head_induction_on generalizing steps with
  | refl =>
    obtain rfl := List.map_eq_nil_iff.1 hsteps
    rfl
  | head hhop _ ih =>
    obtain ⟨steps', hsteps', heq⟩ := makeFoldersFrom_hop hhop hsteps
    rw [heq, ih hsteps']

theorem makeFoldersFrom_append {front : List String} (h : Hops t ⟨n, here, front⟩ ⟨m, l, []⟩)
    (names : List String) :
    makeFoldersFrom n t here ((front ++ names).map (⟨·, true⟩))
      = makeFoldersFrom m t l (names.map (⟨·, true⟩)) := by
  rw [List.map_append]
  exact makeFoldersFrom_hops h (by simp [Function.comp_def]) _

theorem endsInDot_eq (hnames : ∀ name ∈ names, IsDown name) :
    endsInDot (names.map (⟨·, true⟩)) = false := by
  unfold endsInDot
  rw [Bool.and_eq_false_iff]
  refine .inr (List.any_eq_false.2 fun step hstep => ?_)
  obtain ⟨name, hname, rfl⟩ := List.mem_map.1 hstep
  rw [beq_iff_eq]
  rintro rfl
  cases (hnames "." hname).isStay_eq

/-- Below a folder, folders are made as far as there are none. -/
theorem makeFoldersFrom_down (n : Nat) (ht : t.IsTree) (hfolder : t.isFolderAt l = true)
    (hnames : ∀ name ∈ names, IsFileName name)
    (hfree : ∀ k, k <+: names → k ≠ [] →
      t.node? (l ++ k) = none ∨ t.node? (l ++ k) = some .folder) :
    ∃ t', makeFoldersFrom n t l (names.map (⟨·, true⟩)) = (t', true) ∧ t'.IsTree
      ∧ (∀ k, k <+: names → t'.isFolderAt (l ++ k) = true)
      ∧ ∀ k, (∀ k', k' <+: names → k ≠ l ++ k') → t'.node? k = t.node? k := by
  induction names generalizing t l with
  | nil =>
    refine ⟨t, ?_, ht, fun k hk => ?_, fun _ _ => rfl⟩
    · rw [makeFoldersFrom_eq]
      simp [makeFoldersWith, hfolder]
    · rw [List.prefix_nil.1 hk, List.append_nil]
      exact hfolder
  | cons name names ih =>
    obtain ⟨hname, hnames⟩ := List.forall_mem_cons.1 hnames
    -- the first folder is there, or is made
    obtain ⟨t₁, hmade, ht₁, hfirst, hother⟩ : ∃ t₁,
        makeFoldersFrom n t l ((name :: names).map (⟨·, true⟩))
            = makeFoldersFrom n t₁ (l ++ [name]) (names.map (⟨·, true⟩))
          ∧ t₁.IsTree ∧ t₁.isFolderAt (l ++ [name]) = true
          ∧ ∀ k, l ++ [name] ≠ k → t₁.node? k = t.node? k := by
      have hdot := endsInDot_eq fun name hname => (hnames name hname).toIsDown
      have hstart : [name] <+: name :: names := ⟨names, rfl⟩
      rcases hfree [name] hstart (by simp) with hnode | hnode
      · refine ⟨t.put (l ++ [name]) .folder, ?_, ht.put hfolder hname (.inr rfl), ?_, ?_⟩
        · rw [makeFoldersFrom_eq]
          simp [makeFoldersWith, hfolder, hname.isStay_eq, hname.ne_up, hname.isName, hnode, hdot]
        · rw [isFolderAt_iff, node?_put_self t (by simp)]
        · exact fun k hk => node?_put_of_ne t hk _
      · refine ⟨t, ?_, ht, isFolderAt_iff.2 hnode, fun _ _ => rfl⟩
        rw [makeFoldersFrom_eq]
        simp [makeFoldersWith, hfolder, hname.isStay_eq, hname.ne_up, hname.isName, hnode]
    have hfree₁ : ∀ k, k <+: names → k ≠ [] →
        t₁.node? (l ++ [name] ++ k) = none ∨ t₁.node? (l ++ [name] ++ k) = some .folder := by
      intro k hk hne
      rw [hother _ (by simpa using hne.symm), List.append_assoc]
      exact hfree (name :: k) (List.cons_prefix_cons.2 ⟨rfl, hk⟩) (List.cons_ne_nil _ _)
    obtain ⟨t', hrest, ht', hfolders, helse⟩ := ih ht₁ hfirst hnames hfree₁
    refine ⟨t', hmade.trans hrest, ht', fun k hk => ?_, fun k hk => ?_⟩
    · cases k with
      | nil =>
        have hhere : t'.node? l = t.node? l := by
          rw [helse l (by simp), hother l (by simp)]
        rw [List.append_nil, isFolderAt_iff, hhere]
        exact isFolderAt_iff.1 hfolder
      | cons first k =>
        obtain ⟨rfl, hbelow⟩ := List.cons_prefix_cons.1 hk
        rw [List.append_cons]
        exact hfolders k hbelow
    · have hk' : ∀ k', k' <+: names → k ≠ l ++ [name] ++ k' := by
        intro k' hbelow
        rw [List.append_assoc]
        exact hk (name :: k') (List.cons_prefix_cons.2 ⟨rfl, hbelow⟩)
      rw [helse k hk', hother k]
      rintro rfl
      exact hk [name] ⟨names, rfl⟩ rfl

end FileTree

/-! ## Entries by their names -/

namespace Entry

variable {e : Entry}

/-- The names in the path of an entry. -/
def names (e : Entry) : List String := (PathText.steps e.path).tail

/-- The path of the entry consists of names with a slash before each, and the entry stands outside all
units exactly if there is only one. -/
structure Filed (e : Entry) : Prop where
  isAbsolute : PathText.isAbsolute e.path = true
  names : ∀ name ∈ e.names, PathText.isStay name = false ∧ name ≠ ".."
  kind_iff : e.kind = .loose ↔ e.names.length = 1

theorem slash_of_mem_names {name : String} (h : name ∈ e.names) : '/' ∉ name.toList :=
  PathText.not_mem_of_mem_steps (List.mem_of_mem_tail h)

theorem ne_empty_of_filed (he : e.Filed) {name : String} (h : name ∈ e.names) : name ≠ "" := by
  rintro rfl
  cases (he.names "" h).1

theorem path_eq (habsolute : PathText.isAbsolute e.path = true) :
    e.names ≠ [] ∧ e.path = "/" ++ String.intercalate "/" e.names := by
  unfold PathText.isAbsolute at habsolute
  obtain ⟨rest, hrest⟩ : ∃ rest, e.path = "" ++ "/" ++ rest := by
    cases hpath : e.path.toList with
    | nil => rw [hpath] at habsolute; cases habsolute
    | cons c rest =>
      rw [hpath] at habsolute
      obtain rfl : c = '/' := by simpa using habsolute
      exact ⟨String.ofList rest, by rw [← String.toList_inj, hpath]; simp⟩
  have hnames : e.names = PathText.steps rest := by
    rw [names, hrest, PathText.steps_append]
    rfl
  rw [hnames, PathText.intercalate_steps]
  exact ⟨PathText.steps_ne_nil rest, by simpa using hrest⟩

theorem isAbsolute_of_filed (he : e.Filed) :
    PathText.isAbsolute (String.intercalate "/" e.names) = false :=
  PathText.isAbsolute_intercalate (fun _ h => ne_empty_of_filed he h) fun _ h => slash_of_mem_names h

end Entry

namespace Storage

variable {t : FileTree} {out : String} {l : Location} {e : Entry}

/-! ## Saving -/

theorem relativePath_of_path {relative : String} (hpath : e.path = "/" ++ relative)
    (hrelative : PathText.isAbsolute relative = false) : relativePath e = relative := by
  rw [relativePath, hpath]
  cases hlist : relative.toList with
  | nil => simp [hlist, ← String.toList_inj]
  | cons c rest =>
    rw [PathText.isAbsolute, hlist] at hrelative
    have hc : c ≠ '/' := by simpa using hrelative
    simp [hlist, hc, ← String.toList_inj]

theorem relativePath_eq (he : e.Filed) : relativePath e = String.intercalate "/" e.names :=
  relativePath_of_path (Entry.path_eq he.isAbsolute).2 (Entry.isAbsolute_of_filed he)

theorem steps_relativePath (he : e.Filed) : PathText.steps (relativePath e) = e.names := by
  rw [relativePath_eq he]
  exact PathText.steps_intercalate (Entry.path_eq he.isAbsolute).1
    fun _ h => Entry.slash_of_mem_names h

/-- A path that goes on from a folder first leads there. -/
theorem exists_hops_stepsInto (hout : t.locate? out = some l) (hfolder : t.isFolderAt l = true) :
    out ≠ "" ∧ ∃ n, FileTree.Hops t
      ⟨FileTree.maxLinks, FileTree.startOf t.current out, PathText.stepsInto out⟩ ⟨n, l, []⟩ := by
  obtain ⟨_, hne, n, hhops⟩ := FileTree.locate?_eq_some.1 hout
  refine ⟨hne, n, ?_⟩
  rw [← FileTree.hops_rdropWhile hfolder, PathText.rdropWhile_stepsInto]
  exact (FileTree.hops_rdropWhile hfolder).2 hhops

/-- The path goes on from a folder, down through others to something that can be a file. -/
structure GoesDown (out path : String) (folders : List String) (name : String) : Prop where
  eq_append : ∃ rest, path = out ++ rest
  steps_eq : PathText.steps path = PathText.stepsInto out ++ folders ++ [name]
  isUsable : FileTree.isUsable path = true
  folders : ∀ folder ∈ folders, FileTree.IsFileName folder
  isStay_eq : PathText.isStay name = false
  ne_up : name ≠ ".."

variable {path name : String} {folders : List String}

theorem GoesDown.startOf_eq (h : GoesDown out path folders name) (hne : out ≠ "") :
    path ≠ "" ∧ FileTree.startOf t.current path = FileTree.startOf t.current out := by
  obtain ⟨rest, rfl⟩ := h.eq_append
  rw [FileTree.startOf, FileTree.startOf, PathText.isAbsolute_append hne]
  exact ⟨by simp [hne], rfl⟩

/-- The path leads where its last step leads from the folders above. -/
theorem GoesDown.exists_resolve_eq (h : GoesDown out path folders name)
    (hout : t.locate? out = some l) (hfolders : ∀ k, k <+: folders → t.isFolderAt (l ++ k) = true) :
    ∃ n, t.resolve path = t.follow n (l ++ folders) [name] := by
  have hfolder : t.isFolderAt l = true := by simpa using hfolders [] List.nil_prefix
  obtain ⟨hne, n, hhops⟩ := exists_hops_stepsInto hout hfolder
  obtain ⟨hpath, hstart⟩ := h.startOf_eq (t := t) hne
  have hdown : FileTree.Hops t ⟨n, l, folders ++ [name]⟩ ⟨n, l ++ folders, [name]⟩ :=
    FileTree.hops_down (fun folder hmem => (h.folders folder hmem).toIsDown) hfolders
  have hwalk : FileTree.Hops t (t.walkOf path) ⟨n, l ++ folders, [name]⟩ := by
    rw [FileTree.walkOf, hstart, h.steps_eq, List.append_assoc]
    exact Relation.ReflTransGen.trans (hhops.append (folders ++ [name])) hdown
  refine ⟨n, Eq.trans ?_ (FileTree.follow_hops hwalk)⟩
  simp [FileTree.resolve, h.isUsable, hpath, FileTree.walkOf]

/-- A file can be written at the end of the path if its place is free. -/
theorem GoesDown.resolve_eq (h : GoesDown out path folders name) (hout : t.locate? out = some l)
    (hfolders : ∀ k, k <+: folders → t.isFolderAt (l ++ k) = true)
    (hname : FileTree.isName name = true) (hfree : t.node? (l ++ folders ++ [name]) = none) :
    t.resolve path = .ok (.vacant (l ++ folders) name) := by
  obtain ⟨n, hresolve⟩ := h.exists_resolve_eq hout hfolders
  have hends : FileTree.Ends t ⟨n, l ++ folders, [name]⟩ (.vacant (l ++ folders) name) :=
    .vacant (hfolders folders List.prefix_rfl) ⟨h.isStay_eq, h.ne_up, hname⟩ hfree
  exact hresolve.trans (FileTree.follow_of_ends hends)

/-- No file can be written at the end of the path if its name is too long. -/
theorem GoesDown.resolve_eq_unusable (h : GoesDown out path folders name)
    (hout : t.locate? out = some l) (hfolders : ∀ k, k <+: folders → t.isFolderAt (l ++ k) = true)
    (hname : FileTree.isName name = false) : t.resolve path = .error .unusable := by
  obtain ⟨n, hresolve⟩ := h.exists_resolve_eq hout hfolders
  rw [hresolve, FileTree.follow_eq]
  simp [FileTree.followWith, hfolders folders List.prefix_rfl, h.isStay_eq, h.ne_up, hname]

/-- The folders that the path goes down through are made, unless they are there. -/
theorem GoesDown.makeParent_eq_ok (h : GoesDown out path folders name) (ht : t.IsTree)
    (hout : t.locate? out = some l) (hfolder : t.isFolderAt l = true)
    (hfree : ∀ k, k <+: folders → k ≠ [] →
      t.node? (l ++ k) = none ∨ t.node? (l ++ k) = some .folder) :
    ∃ t', (makeParent path).run t = (.ok (), t') ∧ FileTree.AddsFolders t t' ∧ t'.IsTree
      ∧ (∀ k, k <+: folders → t'.isFolderAt (l ++ k) = true)
      ∧ ∀ k, (∀ k', k' <+: folders → k ≠ l ++ k') → t'.node? k = t.node? k := by
  obtain ⟨hne, n, hhops⟩ := exists_hops_stepsInto hout hfolder
  obtain ⟨t', hmake, ht', hmade, hother⟩ :=
    FileTree.makeFoldersFrom_down n ht hfolder h.folders hfree
  obtain ⟨_, hstart⟩ := h.startOf_eq (t := t) hne
  obtain ⟨parent, rest, hparent, rfl, hparentne, hdrop, hsame⟩ :=
    PathText.exists_parent h.steps_eq h.isStay_eq (by simp [PathText.stepsInto_ne_nil hne])
  have hstart : FileTree.startOf t.current parent = FileTree.startOf t.current out := by
    rw [← hstart, FileTree.startOf, FileTree.startOf, PathText.isAbsolute_append hparentne]
  -- the walk along the path of the parent comes to the folder, and goes on from there
  have hwalk : FileTree.makeFoldersFrom FileTree.maxLinks t (FileTree.startOf t.current parent)
      ((PathText.steps parent).map (⟨·, true⟩)) = (t', true) := by
    rw [hstart, ← hmake]
    by_cases hnone : folders = []
    · subst hnone
      rw [List.append_nil] at hdrop
      have hparentHops := (FileTree.hops_rdropWhile hfolder).2 hhops
      rw [← hdrop, FileTree.hops_rdropWhile hfolder] at hparentHops
      simpa using FileTree.makeFoldersFrom_append hparentHops []
    · have hlast : (PathText.stepsInto out ++ folders).rdropWhile PathText.isStay
          = PathText.stepsInto out ++ folders :=
        PathText.rdropWhile_append_names hnone fun folder hmem => (h.folders folder hmem).isStay_eq
      rw [hsame hlast]
      exact FileTree.makeFoldersFrom_append hhops folders
  have hmakeFolders : t.makeFolders parent = (t', true) := by
    rw [FileTree.makeFolders, FileTree.isUsable_of_append h.isUsable, ← hwalk]
    simp [hparentne]
  refine ⟨t', ?_, ?_, ht', hmade, hother⟩
  · rw [makeParent, hparent]
    dsimp only
    rw [makeFolder_eq, hmakeFolders]
    rfl
  · have hadds := FileTree.addsFolders_makeFolders t parent
    rw [hmakeFolders] at hadds
    exact hadds

theorem exists_goesDown (he : e.Filed)
    (hnames : ∀ name ∈ e.names.dropLast, FileTree.isName name = true)
    (husable : FileTree.isUsable (PathText.join out (relativePath e)) = true) :
    ∃ name, e.names = e.names.dropLast ++ [name]
      ∧ GoesDown out (PathText.join out (relativePath e)) e.names.dropLast name := by
  have hrelative : PathText.isAbsolute (relativePath e) = false := by
    rw [relativePath_eq he]
    exact Entry.isAbsolute_of_filed he
  have hsplit := (List.dropLast_concat_getLast (Entry.path_eq he.isAbsolute).1).symm
  generalize e.names.getLast _ = name at hsplit
  have hname : name ∈ e.names := by
    rw [hsplit]
    simp
  obtain ⟨between, hbetween⟩ := PathText.exists_join out hrelative
  refine ⟨name, hsplit, ⟨between ++ relativePath e, ?_⟩, ?_, husable, fun folder hfolder => ?_,
    (he.names name hname).1, (he.names name hname).2⟩
  · rw [hbetween, String.append_assoc]
  · rw [PathText.steps_join out hrelative, steps_relativePath he, List.append_assoc, ← hsplit]
  · have hmem := List.dropLast_subset _ hfolder
    exact ⟨⟨(he.names folder hmem).1, (he.names folder hmem).2, hnames folder hfolder⟩,
      Entry.slash_of_mem_names hmem⟩

theorem prefix_dropLast_iff {names k : List String} (hne : names ≠ []) :
    k <+: names.dropLast ↔ k <+: names ∧ k ≠ names := by
  constructor
  · intro hk
    refine ⟨hk.trans (List.dropLast_prefix names), ?_⟩
    rintro rfl
    have hshort := hk.length_le
    have hpos : 0 < k.length := List.length_pos_iff.2 hne
    rw [List.length_dropLast] at hshort
    omega
  · rintro ⟨⟨rest, rfl⟩, hshort⟩
    have hrest : rest ≠ [] := by
      rintro rfl
      exact hshort (List.append_nil k).symm
    rw [List.dropLast_append_of_ne_nil hrest]
    exact List.prefix_append _ _

theorem saveFile_of_filed (he : e.Filed) :
    saveFile out e = makeParent (PathText.join out (relativePath e)) >>= fun _ =>
      writeFile (PathText.join out (relativePath e)) (.plain e.content)
        (.writeFile (PathText.join out (relativePath e))) := by
  have hup : (PathText.steps (relativePath e)).contains ".." = false := by
    rw [steps_relativePath he, Bool.eq_false_iff, Ne, List.contains_iff_mem]
    exact fun hmem => (he.names ".." hmem).2 rfl
  rw [saveFile_eq, hup, if_neg Bool.false_ne_true]

/-- The file of an entry is saved if its place is free and nothing but folders is on the way. -/
theorem saveFile_eq_ok (ht : t.IsTree) (hout : t.locate? out = some l)
    (hfolder : t.isFolderAt l = true) (he : e.Filed)
    (hnames : ∀ name ∈ e.names, FileTree.isName name = true)
    (husable : FileTree.isUsable (PathText.join out (relativePath e)) = true)
    (hway : ∀ k, k <+: e.names → k ≠ e.names → k ≠ [] →
      t.node? (l ++ k) = none ∨ t.node? (l ++ k) = some .folder)
    (hplace : t.node? (l ++ e.names) = none) :
    ∃ t', (saveFile out e).run t = (.ok (), t') ∧ FileTree.Keeps t t' ∧ t'.IsTree
      ∧ t'.node? (l ++ e.names) = some (.file (.plain e.content))
      ∧ (∀ k, k <+: e.names → k ≠ e.names → t'.isFolderAt (l ++ k) = true)
      ∧ ∀ k, (∀ k', k' <+: e.names → k ≠ l ++ k') → t'.node? k = t.node? k := by
  rw [saveFile_of_filed he]
  obtain ⟨name, hsplit, hdown⟩ :=
    exists_goesDown he (fun name hname => hnames name (List.dropLast_subset _ hname)) husable
  generalize PathText.join out (relativePath e) = target at hdown ⊢
  have hstarts : ∀ k, k <+: e.names.dropLast ↔ k <+: e.names ∧ k ≠ e.names :=
    fun k => prefix_dropLast_iff (Entry.path_eq he.isAbsolute).1
  have hname : name ∈ e.names := by
    rw [hsplit]
    simp
  have hplaced : l ++ e.names.dropLast ++ [name] = l ++ e.names := by
    rw [List.append_assoc, ← hsplit]
  obtain ⟨t₁, hmake, hadds, ht₁, hmade, hother⟩ := hdown.makeParent_eq_ok ht hout hfolder
    fun k hk hnil => hway k ((hstarts k).1 hk).1 ((hstarts k).1 hk).2 hnil
  -- the place of the file is still free
  have hfree : t₁.node? (l ++ e.names) = none := by
    rw [hother, hplace]
    intro k hk heq
    exact ((hstarts k).1 hk).2 (List.append_cancel_left heq).symm
  have hresolve := hdown.resolve_eq (hadds.keeps.locate?_eq hout) hmade (hnames name hname)
    (by rw [hplaced, hfree])
  have hne : l ++ e.names ≠ [] := by
    rw [← hplaced]
    simp
  have hkeeps := FileTree.keeps_put_file (.plain e.content) hne (.inl hfree)
  refine ⟨t₁.put (l ++ e.names) (.file (.plain e.content)), ?_, hadds.keeps.trans hkeeps, ?_,
    FileTree.node?_put_self t₁ hne _, fun k hk hk' => ?_, fun k hk => ?_⟩
  · rw [Saving.run_bind_of_ok hmake, writeFile_eq, FileTree.writeFile?, hresolve, ← hplaced]
  · have hlast : t₁.isFolderAt (l ++ e.names.dropLast) = true := hmade _ List.prefix_rfl
    rw [← hplaced] at hfree ⊢
    exact ht₁.put hlast ⟨⟨hdown.isStay_eq, hdown.ne_up, hnames name hname⟩,
      Entry.slash_of_mem_names hname⟩ (.inl (by rw [FileTree.isFolderAt, hfree]; rfl))
  · exact hkeeps.folder (hmade k ((hstarts k).2 ⟨hk, hk'⟩))
  · rw [FileTree.node?_put_of_ne t₁ (hk e.names List.prefix_rfl).symm]
    exact hother k fun k' hk' => hk k' ((hstarts k').1 hk').1

/-- The file of an entry is not saved if its name is too long. -/
theorem saveFile_eq_error (ht : t.IsTree) (hout : t.locate? out = some l)
    (hfolder : t.isFolderAt l = true) (he : e.Filed)
    (hnames : ∀ name ∈ e.names.dropLast, FileTree.isName name = true)
    (hlong : ∀ name, e.names = e.names.dropLast ++ [name] → FileTree.isName name = false)
    (husable : FileTree.isUsable (PathText.join out (relativePath e)) = true)
    (hway : ∀ k, k <+: e.names.dropLast → k ≠ [] →
      t.node? (l ++ k) = none ∨ t.node? (l ++ k) = some .folder) :
    ∃ t', (saveFile out e).run t
      = (.error (.writeFile (PathText.join out (relativePath e))), t') := by
  rw [saveFile_of_filed he]
  obtain ⟨name, hsplit, hdown⟩ := exists_goesDown he hnames husable
  obtain ⟨t₁, hmake, hadds, _, hmade, _⟩ := hdown.makeParent_eq_ok ht hout hfolder hway
  have hresolve :=
    hdown.resolve_eq_unusable (hadds.keeps.locate?_eq hout) hmade (hlong name hsplit)
  refine ⟨t₁, ?_⟩
  rw [Saving.run_bind_of_ok hmake, writeFile_eq, FileTree.writeFile?, hresolve]

end Storage

end LinkSet
