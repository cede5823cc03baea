import LinkSet.Proofs.FolderSaving
import LinkSet.Proofs.Loading

/-!
# Folders that are saved and loaded again

Entries that are saved in an empty folder are all that is loaded from it, in the order of their paths
name by name (`Storage.loadFolder_saveFolders`). What was loaded from a folder is in this order
already, so it comes back as it was.

The files are saved one by one. After each of them, the folder holds what has been saved and the
folders on the way (`Storage.HoldsFiles`), so the next one finds its place free if none of the
entries is at or below another one. This fails for names and paths that no file can have, and for the
path `-`, in which nothing is looked for (`Storage.loadFolder_saveFolders_unfit`).
-/

namespace LinkSet

/-! ## Entries from files -/

namespace Entry

variable {e : Entry} {names : List String} {content : Bytes}

theorem names_entryOfFile (hne : names ≠ []) (hslash : ∀ name ∈ names, '/' ∉ name.toList) :
    (Storage.entryOfFile names content).names = names := by
  have hpath : (Storage.entryOfFile names content).path
      = "" ++ "/" ++ String.intercalate "/" names := by
    simp [Storage.entryOfFile]
  have hempty : PathText.steps "" = [""] := rfl
  rw [Entry.names, hpath, PathText.steps_append, PathText.steps_intercalate hne hslash, hempty]
  rfl

/-- An entry with a path of names is that of a file at the end of these names. -/
theorem entryOfFile_names (he : e.Filed) : Storage.entryOfFile e.names e.content = e := by
  obtain ⟨hne, hpath⟩ := path_eq he.isAbsolute
  have hkind : (if e.names.length > 1 then EntryKind.ofUnit else .loose) = e.kind := by
    have hpos : 0 < e.names.length := List.length_pos_iff.2 hne
    by_cases hlong : e.names.length > 1
    · rw [if_pos hlong]
      cases hkind : e.kind with
      | ofUnit => rfl
      | loose =>
        have hone := he.kind_iff.1 hkind
        omega
    · rw [if_neg hlong]
      exact (he.kind_iff.2 (by omega)).symm
  unfold Storage.entryOfFile
  rw [← hpath, hkind]

theorem filed_entryOfFile (hne : names ≠ []) (hnames : ∀ name ∈ names, FileTree.IsFileName name) :
    (Storage.entryOfFile names content).Filed := by
  have heq : (Storage.entryOfFile names content).names = names :=
    names_entryOfFile hne fun name h => (hnames name h).slash
  refine ⟨?_, fun name h => ?_, ?_⟩
  · simp [Storage.entryOfFile, PathText.isAbsolute]
  · rw [heq] at h
    exact ⟨(hnames name h).isStay_eq, (hnames name h).ne_up⟩
  · rw [heq]
    have hpos : 0 < names.length := List.length_pos_iff.2 hne
    by_cases hlong : names.length > 1
    · simp [Storage.entryOfFile, hlong]
      omega
    · simp [Storage.entryOfFile, hlong]
      omega

/-- Neither of the entries is where the other one is, or below it. -/
def Apart (e e' : Entry) : Prop := ¬ e.names <+: e'.names ∧ ¬ e'.names <+: e.names

end Entry

namespace Storage

variable {t : FileTree} {out : String} {l : Location} {e : Entry} {entries saved : List Entry}

/-! ## Saving -/

/-- Below the folder are the files of the entries and the folders that lead to them, nothing else. -/
structure HoldsFiles (t : FileTree) (l : Location) (saved : List Entry) : Prop where
  file : ∀ e ∈ saved, t.node? (l ++ e.names) = some (.file (.plain e.content))
  folder : ∀ e ∈ saved, ∀ k, k <+: e.names → k ≠ e.names → t.isFolderAt (l ++ k) = true
  free : ∀ k, k ≠ [] → (∀ e ∈ saved, ¬ k <+: e.names) → t.node? (l ++ k) = none

/-- The conditions under which the file of an entry can be written. -/
structure Fits (out : String) (e : Entry) : Prop where
  names : ∀ name ∈ e.names, FileTree.isName name = true
  path : FileTree.isUsable (PathText.join out (relativePath e)) = true

theorem HoldsFiles.way (h : HoldsFiles t l saved) (happart : ∀ e' ∈ saved, e'.Apart e)
    {k : Location} (hk : k <+: e.names) (hne : k ≠ []) :
    t.node? (l ++ k) = none ∨ t.node? (l ++ k) = some .folder := by
  by_cases hused : ∃ e' ∈ saved, k <+: e'.names
  · obtain ⟨e', he', hk'⟩ := hused
    refine .inr (FileTree.isFolderAt_iff.1 (h.folder e' he' k hk' ?_))
    rintro rfl
    exact (happart e' he').1 hk
  · refine .inl (h.free k hne fun e' he' hk' => hused ⟨e', he', hk'⟩)

/-- What the folder holds when one more file has been saved. -/
theorem HoldsFiles.concat {t' : FileTree} (h : HoldsFiles t l saved)
    (happart : ∀ e' ∈ saved, e'.Apart e)
    (hfile : t'.node? (l ++ e.names) = some (.file (.plain e.content)))
    (hfolders : ∀ k, k <+: e.names → k ≠ e.names → t'.isFolderAt (l ++ k) = true)
    (hother : ∀ k, (∀ k', k' <+: e.names → k ≠ l ++ k') → t'.node? k = t.node? k) :
    HoldsFiles t' l (saved ++ [e]) := by
  have helse : ∀ k, ¬ k <+: e.names → t'.node? (l ++ k) = t.node? (l ++ k) := by
    intro k hk
    refine hother _ fun k' hk' heq => hk ?_
    rwa [List.append_cancel_left heq]
  refine ⟨?_, ?_, fun k hne hk => ?_⟩
  · rw [List.forall_mem_append, List.forall_mem_singleton]
    refine ⟨fun e' he' => ?_, hfile⟩
    rw [helse _ (happart e' he').1]
    exact h.file e' he'
  · rw [List.forall_mem_append, List.forall_mem_singleton]
    refine ⟨fun e' he' k hk hne => ?_, hfolders⟩
    by_cases hway : k <+: e.names
    · refine hfolders k hway ?_
      rintro rfl
      exact (happart e' he').2 hk
    · rw [FileTree.isFolderAt_iff, helse k hway]
      exact FileTree.isFolderAt_iff.1 (h.folder e' he' k hk hne)
  · rw [List.forall_mem_append, List.forall_mem_singleton] at hk
    rw [helse k hk.2]
    exact h.free k hne hk.1

/-- All files are saved if none of the entries is at or below another one. -/
theorem saveFolders_eq_ok (ht : t.IsTree) (hout : t.locate? out = some l)
    (hfolder : t.isFolderAt l = true) (hholds : HoldsFiles t l saved)
    (hfiled : ∀ e ∈ entries, e.Filed) (hfits : ∀ e ∈ entries, Fits out e)
    (happart : (saved ++ entries).Pairwise Entry.Apart) :
    ∃ t', (saveFolders out entries).run t = (.ok (), t') ∧ t'.IsTree ∧ t'.locate? out = some l
      ∧ t'.isFolderAt l = true ∧ HoldsFiles t' l (saved ++ entries) := by
  induction entries generalizing t saved with
  | nil =>
    rw [List.append_nil]
    exact ⟨t, rfl, ht, hout, hfolder, hholds⟩
  | cons e entries ih =>
    obtain ⟨he, hfiled⟩ := List.forall_mem_cons.1 hfiled
    obtain ⟨hfit, hfits⟩ := List.forall_mem_cons.1 hfits
    have hapart : ∀ e' ∈ saved, e'.Apart e := fun e' he' =>
      (List.pairwise_append.1 happart).2.2 e' he' e List.mem_cons_self
    have hplace : t.node? (l ++ e.names) = none :=
      hholds.free _ (Entry.path_eq he.isAbsolute).1 fun e' he' => (hapart e' he').2
    obtain ⟨t₁, hsave, hkeeps, ht₁, hfile, hfolders, hother⟩ :=
      saveFile_eq_ok ht hout hfolder he hfit.names hfit.path
        (fun k hk _ hne => hholds.way hapart hk hne) hplace
    rw [List.append_cons] at happart ⊢
    obtain ⟨t', hrest, hfinal⟩ := ih ht₁ (hkeeps.locate?_eq hout) (hkeeps.folder hfolder)
      (hholds.concat hapart hfile hfolders hother) hfiled hfits happart
    refine ⟨t', ?_, hfinal⟩
    rw [saveFolders, List.forM_eq_forM, List.forM_cons, Saving.run_bind_of_ok hsave]
    exact hrest

/-! ## Loading again -/

theorem HoldsFiles.mem_filesBelow (h : HoldsFiles t l saved) (ht : t.IsTree)
    (hfolder : t.isFolderAt l = true) {names : Location} {content : Content} :
    (names, content) ∈ t.filesBelow l
      ↔ ∃ e ∈ saved, names = e.names ∧ content = .plain e.content := by
  rw [ht.mem_filesBelow]
  constructor
  · intro hnode
    have hne : names ≠ [] := by
      rintro rfl
      rw [List.append_nil, FileTree.isFolderAt_iff.1 hfolder] at hnode
      cases hnode
    have hused : ∃ e ∈ saved, names <+: e.names := by
      by_contra hnone
      rw [h.free names hne fun e he hk => hnone ⟨e, he, hk⟩] at hnode
      cases hnode
    obtain ⟨e, he, hk⟩ := hused
    by_cases heq : names = e.names
    · subst heq
      rw [h.file e he] at hnode
      cases hnode
      exact ⟨e, he, rfl, rfl⟩
    · rw [FileTree.isFolderAt_iff.1 (h.folder e he names hk heq)] at hnode
      cases hnode
  · rintro ⟨e, he, rfl, rfl⟩
    exact h.file e he

/-- What is loaded are the entries that have been saved, in the order of their names. -/
theorem HoldsFiles.loaded (h : HoldsFiles t l saved) (ht : t.IsTree)
    (hfolder : t.isFolderAt l = true) (hfiled : ∀ e ∈ saved, e.Filed) :
    (∀ e, e ∈ (t.filesBelow l).map (fun x => entryOfFile x.1 x.2.toBytes) ↔ e ∈ saved)
      ∧ ((t.filesBelow l).map fun x => entryOfFile x.1 x.2.toBytes).Pairwise
        fun e e' => e.names < e'.names := by
  have hentry : ∀ x ∈ t.filesBelow l, ∃ e ∈ saved, x = (e.names, .plain e.content)
      ∧ entryOfFile x.1 x.2.toBytes = e := by
    rintro ⟨names, content⟩ hx
    obtain ⟨e, he, rfl, rfl⟩ := (h.mem_filesBelow ht hfolder).1 hx
    exact ⟨e, he, rfl, Entry.entryOfFile_names (hfiled e he)⟩
  constructor
  · intro e
    rw [List.mem_map]
    constructor
    · rintro ⟨x, hx, rfl⟩
      obtain ⟨e, he, _, heq⟩ := hentry x hx
      rwa [heq]
    · intro he
      have hmem : (e.names, Content.plain e.content) ∈ t.filesBelow l :=
        (h.mem_filesBelow ht hfolder).2 ⟨e, he, rfl, rfl⟩
      exact ⟨_, hmem, Entry.entryOfFile_names (hfiled e he)⟩
  · rw [List.pairwise_map]
    refine (FileTree.pairwise_filesBelow t l).imp_of_mem fun {x y} hx hy hless => ?_
    obtain ⟨e, _, rfl, heq⟩ := hentry x hx
    obtain ⟨e', _, rfl, heq'⟩ := hentry y hy
    rw [heq, heq']
    exact hless

/-- No path in the folder is too long if those of the files are not. -/
theorem HoldsFiles.isTooLong_eq (h : HoldsFiles t l saved) (ht : t.IsTree)
    (hout : t.locate? out = some l) (hfiled : ∀ e ∈ saved, e.Filed)
    (hfits : ∀ e ∈ saved, Fits out e) {names : Location} {node : Node}
    (hmem : (names, node) ∈ t.nodesBelow l) :
    PathText.isTooLong (names.foldl PathText.join out) = false := by
  have hshort : ∀ path, FileTree.isUsable path = true → PathText.isTooLong path = false := by
    intro path husable
    rw [FileTree.isUsable, Bool.and_eq_true, Bool.not_eq_true'] at husable
    exact husable.1
  by_cases hne : names = []
  · subst hne
    exact hshort out (FileTree.locate?_eq_some.1 hout).1
  · have hused : ∃ e ∈ saved, names <+: e.names := by
      by_contra hnone
      have hfree := h.free names hne fun e he hk => hnone ⟨e, he, hk⟩
      rw [ht.node?_of_mem_nodesBelow hmem] at hfree
      cases hfree
    obtain ⟨e, he, more, hmore⟩ := hused
    have hslash : ∀ name ∈ e.names, '/' ∉ name.toList := fun _ => Entry.slash_of_mem_names
    have hlong := hshort _ (hfits e he).path
    rw [relativePath_eq (hfiled e he), ← PathText.foldl_join out
      (Entry.path_eq (hfiled e he).isAbsolute).1 (fun _ => Entry.ne_empty_of_filed (hfiled e he))
      hslash, ← hmore, List.foldl_append] at hlong
    have hmoreslash : ∀ name ∈ more, '/' ∉ name.toList :=
      fun name hname => hslash name (hmore ▸ List.mem_append_right _ hname)
    obtain ⟨rest, hrest⟩ := PathText.exists_foldl_join (names.foldl PathText.join out) hmoreslash
    rw [hrest] at hlong
    exact PathText.isTooLong_of_append hlong

/-- The files of entries are saved in an empty folder, and what is loaded from it are these entries,
in the order of their names. -/
theorem exists_loaded (ht : t.IsTree) (hout : t.locate? out = some l)
    (hfolder : t.isFolderAt l = true) (hempty : ∀ name, t.node? (l ++ [name]) = none)
    (hinput : isStandardInput out = false) (hfiled : ∀ e ∈ entries, e.Filed)
    (hfits : ∀ e ∈ entries, Fits out e) (happart : entries.Pairwise Entry.Apart) :
    ∃ t' loaded, (saveFolders out entries).run t = (.ok (), t') ∧ loadFolder t' out = .ok loaded
      ∧ loaded.Perm entries ∧ loaded.Pairwise fun e e' => e.names < e'.names := by
  have hholds : HoldsFiles t l [] := by
    refine ⟨by simp, by simp, fun k hne _ => ?_⟩
    by_contra hnode
    exact hne (ht.eq_nil_of_empty hempty hnode)
  obtain ⟨t', hsave, ht', hout', hfolder', hholds'⟩ :=
    saveFolders_eq_ok ht hout hfolder hholds hfiled hfits happart
  rw [List.nil_append] at hholds'
  obtain ⟨hmem, hless⟩ := hholds'.loaded ht' hfolder' hfiled
  refine ⟨t', _, hsave, (loadFolder_eq_ok hinput).2 ⟨l, hout', ?_, rfl⟩, ?_, hless⟩
  · rintro ⟨names, node⟩ hbelow _
    exact hholds'.isTooLong_eq ht' hout' hfiled hfits hbelow
  · refine (List.perm_ext_iff_of_nodup ?_ ?_).2 hmem
    · refine hless.imp ?_
      rintro e _ hlt rfl
      exact List.lt_irrefl _ hlt
    · refine happart.imp ?_
      rintro e _ hapart rfl
      exact hapart.1 List.prefix_rfl

/-- What is loaded from a folder are entries of files, none of them at or below another one, in the
order of their names. -/
theorem filed_of_loadFolder (ht : t.IsTree) {root : String} (hroot : t.isFolder root = true)
    (hload : loadFolder t root = .ok entries) :
    (∀ e ∈ entries, e.Filed ∧ ∀ name ∈ e.names, FileTree.isName name = true)
      ∧ entries.Pairwise Entry.Apart ∧ entries.Pairwise fun e e' => e.names < e'.names := by
  by_cases hinput : isStandardInput root = true
  · rw [loadFolder, if_pos hinput] at hload
    cases hload
    simp
  obtain ⟨l, hlocate, _, rfl⟩ := (loadFolder_eq_ok (Bool.eq_false_iff.2 hinput)).1 hload
  have hfolder : t.isFolderAt l = true := by
    rwa [FileTree.isFolder, hlocate] at hroot
  -- a file has a name, and so have the folders that it is in
  have hfile : ∀ x ∈ t.filesBelow l, x.1 ≠ [] ∧ (∀ name ∈ x.1, FileTree.IsFileName name)
      ∧ (entryOfFile x.1 x.2.toBytes).names = x.1 := by
    rintro ⟨names, content⟩ hx
    have hnode := ht.mem_filesBelow.1 hx
    have hne : names ≠ [] := by
      rintro rfl
      rw [List.append_nil, FileTree.isFolderAt_iff.1 hfolder] at hnode
      cases hnode
    have hused : t.node? (l ++ names) ≠ none := by
      rw [hnode]
      simp
    have hnames := ht.isFileName hused
    exact ⟨hne, hnames, Entry.names_entryOfFile hne fun name h => (hnames name h).slash⟩
  -- nothing is below a file
  have hleaf : ∀ x ∈ t.filesBelow l, ∀ y ∈ t.filesBelow l, x.1 <+: y.1 → x.1 = y.1 := by
    rintro ⟨names, content⟩ hx ⟨names', content'⟩ hy hbelow
    by_contra hne
    have habove := ht.isFolderAt_of_prefix (k := l ++ names) (l := l ++ names')
      (by rw [ht.mem_filesBelow.1 hy]; simp) ((List.prefix_append_right_inj l).2 hbelow)
      fun heq => hne (List.append_cancel_left heq)
    rw [FileTree.isFolderAt_iff, ht.mem_filesBelow.1 hx] at habove
    cases habove
  refine ⟨?_, ?_, ?_⟩
  · rw [List.forall_mem_map]
    intro x hx
    obtain ⟨hne, hnames, heq⟩ := hfile x hx
    refine ⟨Entry.filed_entryOfFile hne hnames, ?_⟩
    rw [heq]
    exact fun name h => (hnames name h).isName
  · rw [List.pairwise_map]
    refine (FileTree.pairwise_filesBelow t l).imp_of_mem fun {x y} hx hy hless => ?_
    rw [Entry.Apart, (hfile x hx).2.2, (hfile y hy).2.2]
    constructor
    · intro hbelow
      rw [hleaf x hx y hy hbelow] at hless
      exact List.lt_irrefl _ hless
    · intro hbelow
      rw [hleaf y hy x hx hbelow] at hless
      exact List.lt_irrefl _ hless
  · rw [List.pairwise_map]
    refine (FileTree.pairwise_filesBelow t l).imp_of_mem fun {x y} hx hy hless => ?_
    rw [(hfile x hx).2.2, (hfile y hy).2.2]
    exact hless

/-- Entries that are saved as folders in an empty folder are what is loaded from it, in the order of
their names. If they were loaded from a folder, they come back as they were. -/
theorem loadFolder_saveFolders (ht : t.IsTree) (hout : t.locate? out = some l)
    (hfolder : t.isFolderAt l = true) (hempty : ∀ name, t.node? (l ++ [name]) = none)
    (hinput : isStandardInput out = false)
    (hpaths : ∀ e ∈ entries, FileTree.isUsable (PathText.join out (relativePath e)) = true) :
    ((∀ e ∈ entries, e.Filed) → (∀ e ∈ entries, ∀ name ∈ e.names, FileTree.isName name = true) →
      entries.Pairwise Entry.Apart →
        ∃ t' loaded, (saveFolders out entries).run t = (.ok (), t')
          ∧ loadFolder t' out = .ok loaded ∧ loaded.Perm entries
          ∧ loaded.Pairwise fun e e' => e.names < e'.names)
    ∧ ∀ t₀ root, FileTree.IsTree t₀ → t₀.isFolder root = true → loadFolder t₀ root = .ok entries →
        ∃ t', (saveFolders out entries).run t = (.ok (), t') ∧ loadFolder t' out = .ok entries := by
  constructor
  · intro hfiled hnames happart
    exact exists_loaded ht hout hfolder hempty hinput hfiled
      (fun e he => ⟨hnames e he, hpaths e he⟩) happart
  · intro t₀ root ht₀ hroot hload
    obtain ⟨hfiled, happart, hless⟩ := filed_of_loadFolder ht₀ hroot hload
    obtain ⟨t', loaded, hsave, hloaded, hperm, hless'⟩ :=
      exists_loaded ht hout hfolder hempty hinput (fun e he => (hfiled e he).1)
        (fun e he => ⟨(hfiled e he).2, hpaths e he⟩) happart
    have heq : loaded = entries :=
      hperm.eq_of_pairwise (fun _ _ _ _ h h' => absurd h' (List.lt_asymm h)) hless' hless
    exact ⟨t', hsave, heq ▸ hloaded⟩

/-- An empty folder. -/
def emptyFolder : FileTree := FileTree.empty.put ["out"] .folder

theorem isTree_emptyFolder : emptyFolder.IsTree :=
  FileTree.isTree_empty.put (l := []) rfl ⟨⟨by decide, by decide, by decide⟩, by decide⟩ (.inr rfl)

/-- A folder with a file, and a file in a folder of the same name but for a dot. -/
def dottedFolder : FileTree :=
  (((FileTree.empty.put ["in"] .folder).put ["in", "a.txt"] (.file (.plain [1]))).put
    ["in", "a"] .folder).put ["in", "a", "x"] (.file (.plain [2]))

/-- The entries of the two files, in the order of their paths as texts. -/
def dottedEntries : List Entry := [⟨"/a.txt", .loose, [1]⟩, ⟨"/a/x", .ofUnit, [2]⟩]

theorem isTree_dottedFolder : dottedFolder.IsTree := by
  have hin : (FileTree.empty.put ["in"] .folder).IsTree :=
    FileTree.isTree_empty.put (l := []) rfl ⟨⟨by decide, by decide, by decide⟩, by decide⟩ (.inr rfl)
  have hdotted : ((FileTree.empty.put ["in"] .folder).put ["in", "a.txt"]
      (.file (.plain [1]))).IsTree :=
    hin.put (l := ["in"]) (by decide +kernel) ⟨⟨by decide, by decide, by decide⟩, by decide⟩
      (.inl (by decide +kernel))
  have hplain : (((FileTree.empty.put ["in"] .folder).put ["in", "a.txt"]
      (.file (.plain [1]))).put ["in", "a"] .folder).IsTree :=
    hdotted.put (l := ["in"]) (by decide +kernel) ⟨⟨by decide, by decide, by decide⟩, by decide⟩
      (.inr rfl)
  exact hplain.put (l := ["in", "a"]) (by decide +kernel)
    ⟨⟨by decide, by decide, by decide⟩, by decide⟩ (.inl (by decide +kernel))

/-- The file in the folder comes first, although a dot comes before a slash. -/
theorem loadFolder_saveFolders_dotted :
    (∃ t' loaded, (saveFolders "out" dottedEntries).run emptyFolder = (.ok (), t')
      ∧ loadFolder t' "out" = .ok loaded ∧ loaded.Perm dottedEntries
      ∧ loaded.Pairwise fun e e' => e.names < e'.names)
    ∧ loadFolder dottedFolder "in" = .ok dottedEntries.reverse
    ∧ ∃ t', (saveFolders "out" dottedEntries.reverse).run emptyFolder = (.ok (), t')
      ∧ loadFolder t' "out" = .ok dottedEntries.reverse := by
  have hempty : ∀ name, emptyFolder.node? (["out"] ++ [name]) = none := by
    intro name
    rw [emptyFolder, FileTree.node?_put_of_ne _ (by simp), FileTree.node?_empty (by simp)]
  have hfiled : ∀ e ∈ dottedEntries, e.Filed := by
    rw [dottedEntries, List.forall_mem_cons, List.forall_mem_singleton]
    exact ⟨⟨by decide, by decide, by decide⟩, ⟨by decide, by decide, by decide⟩⟩
  have happart : dottedEntries.Pairwise Entry.Apart :=
    List.pairwise_pair.2 ⟨by decide, by decide⟩
  have hload : loadFolder dottedFolder "in" = .ok dottedEntries.reverse := by decide +kernel
  have hout : emptyFolder.locate? "out" = some ["out"] := by decide +kernel
  have hfolder : emptyFolder.isFolderAt ["out"] = true := by decide +kernel
  have hpaths : ∀ e ∈ dottedEntries,
      FileTree.isUsable (PathText.join "out" (relativePath e)) = true := by decide +kernel
  have hinput : isStandardInput "out" = false := by decide
  obtain ⟨hsaved, _⟩ := loadFolder_saveFolders isTree_emptyFolder hout hfolder hempty hinput hpaths
  obtain ⟨_, hagain⟩ := loadFolder_saveFolders isTree_emptyFolder hout hfolder hempty hinput
    fun e he => hpaths e (List.mem_reverse.1 he)
  exact ⟨hsaved hfiled (by decide) happart, hload,
    hagain dottedFolder "in" isTree_dottedFolder (by decide +kernel) hload⟩

/-- A name that is too long for a file. -/
def longName : String := String.ofList (List.replicate 256 'a')

theorem not_mem_longName {c : Char} (hc : c ≠ 'a') : c ∉ longName.toList := by
  intro h
  unfold longName at h
  rw [String.toList_ofList] at h
  exact hc (List.eq_of_mem_replicate h)

theorem saveFolders_longName :
    ((saveFolders "out" [⟨"/" ++ longName, .loose, []⟩]).run emptyFolder).1
      = .error (.writeFile (PathText.join "out" longName)) := by
  have hslash : '/' ∉ longName.toList := not_mem_longName (by decide)
  have hlong : FileTree.isName longName = false := by decide +kernel
  have hrelative : PathText.isAbsolute longName = false := PathText.isAbsolute_of_not_mem hslash
  generalize hentry : (⟨"/" ++ longName, .loose, []⟩ : Entry) = e
  have hpath : e.path = "" ++ "/" ++ longName := by
    rw [← hentry]
    rfl
  have hnames : e.names = [longName] := by
    have hempty : PathText.steps "" = [""] := rfl
    rw [Entry.names, hpath, PathText.steps_append, PathText.steps_of_not_mem hslash, hempty]
    rfl
  have he : e.Filed := by
    refine ⟨?_, ?_, ?_⟩
    · rw [← hentry]
      exact PathText.isAbsolute_append (by decide) longName
    · rw [hnames, List.forall_mem_singleton]
      exact ⟨by decide +kernel, by decide +kernel⟩
    · rw [hnames, ← hentry]
      exact ⟨fun _ => rfl, fun _ => rfl⟩
  have hrelativePath : relativePath e = longName := relativePath_of_path hpath hrelative
  have husable : FileTree.isUsable (PathText.join "out" longName) = true := by
    have hjoin : PathText.join "out" longName = "out/" ++ longName := by
      rw [PathText.join, if_neg (by simp [hrelative]), if_neg (by decide)]
      rfl
    have hshort : ¬ PathText.maxBytes < "out/".utf8ByteSize + longName.utf8ByteSize := by
      decide +kernel
    have hnul : '\x00' ∉ longName.toList := not_mem_longName (by decide)
    rw [hjoin, FileTree.isUsable, PathText.isTooLong, String.utf8ByteSize_append, String.toList_append]
    simp [hshort, hnul]
  have hout : emptyFolder.locate? "out" = some ["out"] := by decide +kernel
  have hfolder : emptyFolder.isFolderAt ["out"] = true := by decide +kernel
  rw [← hrelativePath] at husable ⊢
  obtain ⟨t', hsave⟩ := saveFile_eq_error isTree_emptyFolder hout hfolder he (by simp [hnames])
    (by simp [hnames, hlong]) husable (by simp [hnames])
  rw [saveFolders, List.forM_eq_forM, List.forM_cons, Saving.run_bind_of_error hsave]

/-- A file with a name that is too long cannot be saved, and nothing is found in a folder with the path
`-` although a file has been saved in it. -/
theorem loadFolder_saveFolders_unfit :
    ((saveFolders "out" [⟨"/" ++ longName, .loose, []⟩]).run emptyFolder).1
        = .error (.writeFile (PathText.join "out" longName))
      ∧ ((saveFolders "-" [⟨"/f", .loose, [0]⟩]).run (FileTree.empty.put ["-"] .folder)).1 = .ok ()
      ∧ loadFolder ((saveFolders "-" [⟨"/f", .loose, [0]⟩]).run (FileTree.empty.put ["-"] .folder)).2
          "-" = .ok [] := by
  refine ⟨saveFolders_longName, ?_⟩
  decide +kernel

end Storage

end LinkSet
