import LinkSet.Proofs.IndexLookup
import LinkSet.Proofs.Listing
import LinkSet.Proofs.UnreadFiles

/-!
# Saving stays in the folder for the results

What is written when entries are saved, as jars or as folders, is below the folder for the results,
whatever the paths of the entries are and whether saving succeeds or fails midway
(`Storage.staysBelow_save`). Only a link in that folder can lead out of it.

The path of a file that is written first leads into the folder for the results, and the walk goes on
from there. None of its further steps goes up. Without links, such a walk only goes down
(`FileTree.Descends.hops`).

To write a file with the bytes that it had is to write it all the same, though the tree does not
change. So a file counts as written if it is changed when other bytes are put in it beforehand
(`Storage.Saving.Writes`). As saving does not look into files, this makes no other difference.
-/

namespace LinkSet

namespace FileTree

variable {t t' : FileTree} {base l : Location} {n m : Nat} {steps : List String}

/-! ## Going down -/

/-- Where a path leads that other paths go on from. The empty path is that of the current folder. -/
def base? (t : FileTree) (path : String) : Option Location :=
  if path = "" then some t.current else t.locate? path

/-- The location is at the end of names that lead down from the base. -/
def LiesBelow (base l : Location) : Prop :=
  ∃ names, names ≠ [] ∧ (∀ name ∈ names, IsFileName name) ∧ l = base ++ names

/-- There are no links below the base. -/
def Unlinked (t : FileTree) (base : Location) : Prop :=
  ∀ names target, names ≠ [] → t.node? (base ++ names) ≠ some (.link target)

theorem Keeps.base?_eq (h : Keeps t t') {path : String} (hbase : t.base? path = some base) :
    t'.base? path = some base := by
  unfold base? at hbase ⊢
  split
  · rename_i hempty
    rw [if_pos hempty] at hbase
    rw [h.current_eq, hbase]
  · rename_i hne
    rw [if_neg hne] at hbase
    exact h.locate?_eq hbase

/-- A walk that is at the base or below, and has no step left that goes up. -/
structure Descends (base : Location) (w : Walk) : Prop where
  here : ∃ names, (∀ name ∈ names, IsFileName name) ∧ w.here = base ++ names
  steps : ∀ step ∈ w.steps, step ≠ ".." ∧ '/' ∉ step.toList

theorem Descends.hop (hlinks : t.Unlinked base) {w w' : Walk} (h : Descends base w)
    (hhop : Hop t w w') : Descends base w' := by
  obtain ⟨⟨names, hnames, hhere⟩, hsteps⟩ := h
  cases hhop with
  | stay => exact ⟨⟨names, hnames, hhere⟩, (List.forall_mem_cons.1 hsteps).2⟩
  | up => exact absurd rfl (hsteps ".." List.mem_cons_self).1
  | @down _ here step rest node hfolder hstep hnode hlink =>
    obtain ⟨hfirst, hrest⟩ := List.forall_mem_cons.1 hsteps
    have hname : IsFileName step := ⟨hstep, hfirst.2⟩
    obtain rfl : here = base ++ names := hhere
    refine ⟨⟨names ++ [step], ?_, List.append_assoc _ _ _⟩, hrest⟩
    exact List.forall_mem_append.2 ⟨hnames, List.forall_mem_singleton.2 hname⟩
  | @link _ here step target rest hfolder hstep hnode =>
    obtain rfl : here = base ++ names := hhere
    rw [List.append_assoc] at hnode
    exact absurd hnode (hlinks (names ++ [step]) target (by simp))

theorem Descends.hops (hlinks : t.Unlinked base) {w w' : Walk} (h : Descends base w)
    (hhops : Hops t w w') : Descends base w' := by
  induction hhops with
  | refl => exact h
  | tail _ hhop ih => exact ih.hop hlinks hhop

/-- A walk with steps left is in a folder. -/
theorem isFolderAt_of_hops (hne : steps ≠ []) (h : Hops t ⟨n, base, steps⟩ ⟨m, l, []⟩) :
    t.isFolderAt base = true := by
  rcases Relation.ReflTransGen.cases_head h with heq | ⟨w, hhop, _⟩
  · exact absurd (Walk.mk.inj heq).2.2 hne
  · cases hhop with
    | stay hfolder => exact hfolder
    | up hfolder => exact hfolder
    | down hfolder => exact hfolder
    | link hfolder => exact hfolder

/-- A path that goes on from another one first leads where this one does. -/
theorem exists_base {path rest : String} (hrest : PathText.isAbsolute rest = false)
    (h : t.locate? (PathText.join path rest) = some l) :
    ∃ base n m, t.base? path = some base ∧ t.isFolderAt base = true
      ∧ Hops t ⟨n, base, PathText.steps rest⟩ ⟨m, l, []⟩ := by
  obtain ⟨husable, _, m, hhops⟩ := locate?_eq_some.1 h
  rw [walkOf, PathText.steps_join path hrest] at hhops
  obtain ⟨n, base, hinto, honward⟩ := exists_hops_of_append hhops
  have hfolder : t.isFolderAt base = true := isFolderAt_of_hops (PathText.steps_ne_nil rest) honward
  refine ⟨base, n, m, ?_, hfolder, honward⟩
  obtain ⟨between, hbetween⟩ := PathText.exists_join path hrest
  by_cases hempty : path = ""
  · subst hempty
    have hjoin : PathText.join "" rest = rest := by simp [PathText.join, hrest]
    have hstart : startOf t.current rest = t.current := by
      rw [startOf, hrest, if_neg Bool.false_ne_true]
    have hnil : PathText.stepsInto "" = [] := by decide
    rw [hjoin, hstart, hnil] at hinto
    have hhere := (Walk.mk.inj (eq_of_hops_nil hinto)).2.1
    rw [base?, if_pos rfl, hhere]
  · have hstart : startOf t.current (PathText.join path rest) = startOf t.current path := by
      rw [hbetween, String.append_assoc, startOf, startOf, PathText.isAbsolute_append hempty]
    rw [hbetween, String.append_assoc] at husable
    -- the steps into the folder are those of its path, but for some that stay
    rw [hstart, ← hops_rdropWhile hfolder, PathText.rdropWhile_stepsInto,
      hops_rdropWhile hfolder] at hinto
    rw [base?, if_neg hempty]
    exact locate?_eq_some.2 ⟨isUsable_of_append husable, hempty, n, hinto⟩

/-- Without links below, a path that goes on without going up leads below. -/
theorem liesBelow_of_locate? {path rest : String} {content : Content}
    (hrest : PathText.isAbsolute rest = false) (hup : ".." ∉ PathText.steps rest)
    (hlinks : ∀ base, t.base? path = some base → t.Unlinked base)
    (hlocate : t.locate? (PathText.join path rest) = some l)
    (hfile : t.node? l = some (.file content)) :
    ∃ base, t.base? path = some base ∧ LiesBelow base l := by
  obtain ⟨base, n, m, hbase, hfolder, hhops⟩ := exists_base hrest hlocate
  have hstart : Descends base ⟨n, base, PathText.steps rest⟩ := by
    refine ⟨⟨[], List.forall_mem_nil _, (List.append_nil base).symm⟩, fun step hstep => ⟨?_, ?_⟩⟩
    · rintro rfl
      exact hup hstep
    · exact PathText.not_mem_of_mem_steps hstep
  obtain ⟨⟨names, hnames, hhere⟩, _⟩ := hstart.hops (hlinks base hbase) hhops
  obtain rfl : l = base ++ names := hhere
  refine ⟨base, hbase, names, ?_, hnames, rfl⟩
  rintro rfl
  rw [List.append_nil, isFolderAt_iff.1 hfolder] at hfile
  cases hfile

end FileTree

namespace Storage

open FileTree (Keeps LiesBelow)

variable {t t' t'' : FileTree} {out : String} {α : Type}

/-! ## Steps -/

/-- The later tree has what the earlier one has, no other links, and without links below `out` only
files below `out` have changed. -/
structure Confined (out : String) (t t' : FileTree) : Prop where
  keeps : Keeps t t'
  link : ∀ {l target}, t'.node? l = some (.link target) → t.node? l = some (.link target)
  below : (∀ base, t'.base? out = some base → t'.Unlinked base) →
    ∀ l, t'.fileAt? l ≠ t.fileAt? l → ∃ base, t'.base? out = some base ∧ LiesBelow base l

theorem Confined.refl (t : FileTree) : Confined out t t :=
  ⟨.refl t, id, fun _ _ hl => absurd rfl hl⟩

theorem Confined.trans (h : Confined out t t') (h' : Confined out t' t'') : Confined out t t'' := by
  refine ⟨h.keeps.trans h'.keeps, fun hl => h.link (h'.link hl), fun hlinks l hl => ?_⟩
  by_cases hlater : t''.fileAt? l = t'.fileAt? l
  · rw [hlater] at hl
    have hunlinked : ∀ base, t'.base? out = some base → t'.Unlinked base := by
      intro base hbase names target hnames hnode
      exact hlinks base (h'.keeps.base?_eq hbase) names target hnames (h'.keeps.link hnode)
    obtain ⟨base, hbase, hbelow⟩ := h.below hunlinked l hl
    exact ⟨base, h'.keeps.base?_eq hbase, hbelow⟩
  · exact h'.below hlinks l hlater

theorem confined_of_addsFolders (h : FileTree.AddsFolders t t') : Confined out t t' := by
  refine ⟨h.keeps, fun {l target} hl => ?_, fun _ l hl => absurd (h.fileAt?_eq l) hl⟩
  rcases h.node?_eq l with hsame | ⟨_, hmade⟩
  · rw [← hsame, hl]
  · rw [hmade] at hl
    cases hl

/-- A file that is written is the only one that changes. -/
theorem confined_of_writeFile? (hcurrent : t.HasCurrent) {rest : String} {content : Content}
    (hrest : PathText.isAbsolute rest = false) (hup : ".." ∉ PathText.steps rest)
    (h : t.writeFile? (PathText.join out rest) content = some t') : Confined out t t' := by
  obtain ⟨l, hl, rfl, hkeeps, hlocate⟩ := FileTree.writeFile?_eq_some hcurrent h
  have hfile : (t.put l (.file content)).node? l = some (.file content) :=
    FileTree.node?_put_self t hl _
  refine ⟨hkeeps, fun {k target} hk => ?_, fun hlinks k hk => ?_⟩
  · by_cases hlk : l = k
    · rw [← hlk, hfile] at hk
      cases hk
    · rwa [FileTree.node?_put_of_ne t hlk] at hk
  · obtain rfl : l = k := by
      by_contra hlk
      rw [FileTree.fileAt?, FileTree.fileAt?, FileTree.node?_put_of_ne t hlk] at hk
      exact hk rfl
    exact FileTree.liesBelow_of_locate? hrest hup hlinks hlocate hfile

/-! ## Saving -/

/-- The step is confined wherever there is a current folder. -/
abbrev StaysIn (out : String) (x : Saving α) : Prop :=
  Saving.Obeys (fun t t' => t.HasCurrent → Confined out t t') x

theorem confined_refl (t : FileTree) (_ : t.HasCurrent) : Confined out t t := .refl t

theorem confined_trans (t t' t'' : FileTree) (h : t.HasCurrent → Confined out t t')
    (h' : t'.HasCurrent → Confined out t' t'') (hcurrent : t.HasCurrent) : Confined out t t'' :=
  (h hcurrent).trans (h' ((h hcurrent).keeps.hasCurrent hcurrent))

theorem staysIn_makeFolder (path : String) (failure : StorageError) :
    StaysIn out (makeFolder path failure) :=
  fun t _ => confined_of_addsFolders (addsFolders_makeFolder path failure t)

theorem staysIn_writeFile {rest : String} (hrest : PathText.isAbsolute rest = false)
    (hup : ".." ∉ PathText.steps rest) (content : Content) (failure : StorageError) :
    StaysIn out (writeFile (PathText.join out rest) content failure) := by
  intro t hcurrent
  rw [writeFile_eq]
  cases hwrite : t.writeFile? (PathText.join out rest) content with
  | none => exact .refl t
  | some t' => exact confined_of_writeFile? hcurrent hrest hup hwrite

theorem isAbsolute_relativePath (entry : Entry) :
    PathText.isAbsolute (relativePath entry) = false := by
  have hhead := List.head?_dropWhile_not (fun c => decide (c = '/')) entry.path.toList
  rw [PathText.isAbsolute, relativePath, String.toList_ofList, beq_eq_false_iff_ne]
  intro hslash
  rw [hslash] at hhead
  simp at hhead

theorem staysIn_saveFile (entry : Entry) : StaysIn out (saveFile out entry) := by
  rw [saveFile_eq]
  split
  · exact fun t _ => .refl t
  · rename_i hup
    rw [List.contains_iff_mem] at hup
    refine Saving.Obeys.bind confined_trans ?_ fun _ =>
      staysIn_writeFile (isAbsolute_relativePath entry) hup _ _
    unfold makeParent
    split
    · exact staysIn_makeFolder _ _
    · exact Saving.Obeys.pure confined_refl ()

theorem staysIn_sortOut (entry : Entry) : StaysIn out (sortOut out entry) := by
  unfold sortOut
  split
  · split
    · exact Saving.Obeys.pure confined_refl _
    · exact fun t _ => .refl t
  · exact Saving.Obeys.bind confined_trans (staysIn_saveFile entry) fun _ =>
      Saving.Obeys.pure confined_refl none

theorem unit_of_sortOut {entry entry' : Entry} {unit : String}
    (h : (sortOut out entry).run t = (.ok (some (unit, entry')), t')) :
    EntryPath.unit entry.path = .ok unit := by
  unfold sortOut at h
  split at h
  · split at h
    · rename_i hunit
      cases h
      exact hunit
    · cases h
  · obtain ⟨_, _, _, h⟩ := Saving.bind_eq_ok.1 h
    cases h

/-- The jar of a unit is right in the folder for the results. -/
theorem staysIn_saveJar {unit : String} (hunit : '/' ∉ unit.toList)
    (sorted : List (String × Entry)) : StaysIn out (saveJar out sorted unit) := by
  have hslash : '/' ∉ (unit ++ ".jar").toList := by
    rw [String.toList_append, List.mem_append, not_or]
    exact ⟨hunit, by decide⟩
  have hup : ".." ∉ PathText.steps (unit ++ ".jar") := by
    rw [PathText.steps_of_not_mem hslash, List.mem_singleton]
    intro heq
    have hlast := congrArg (fun name => name.toList.getLast?) heq
    simp at hlast
  exact Saving.Obeys.bind confined_trans
    (staysIn_writeFile (PathText.isAbsolute_of_not_mem hslash) hup _ _) fun _ =>
      Saving.Obeys.pure confined_refl _

theorem staysIn_saveJars (out : String) (entries : List Entry) :
    StaysIn out (saveJars out entries) := by
  have hsort : StaysIn out (entries.mapM (sortOut out)) :=
    Saving.Obeys.mapM confined_refl confined_trans fun entry _ => staysIn_sortOut entry
  unfold saveJars
  refine Saving.Obeys.bind confined_trans (staysIn_makeFolder out _) fun _ => ?_
  refine Saving.Obeys.bind_of_ok confined_trans hsort fun found t t' hfound => ?_
  refine Saving.Obeys.mapM confined_refl confined_trans fun unit hunit => staysIn_saveJar ?_ _
  -- a unit that is sorted out is that of an entry
  rw [Std.ExtTreeSet.mem_toList, NameSet.mem_ofList] at hunit
  obtain ⟨⟨_, entry'⟩, hsorted, rfl⟩ := List.mem_map.1 hunit
  obtain ⟨found', hmem, rfl⟩ := List.mem_filterMap.1 hsorted
  obtain ⟨entry, _, t₁, t₂, hentry⟩ := Saving.exists_of_mapM_eq_ok hfound _ hmem
  exact (EntryPath.unit_eq_ok.1 (unit_of_sortOut hentry)).1.2

theorem staysIn_saveFolders (out : String) (entries : List Entry) :
    StaysIn out (saveFolders out entries) :=
  Saving.Obeys.forM confined_refl confined_trans fun entry _ => staysIn_saveFile entry

/-! ## Files that are written -/

namespace Saving

/-- The step writes the file at a location: with other bytes in the files that there are, what it
leaves in this file is not what was there. -/
def Writes (x : Saving α) (t : FileTree) (l : Location) : Prop :=
  ∃ s, t.Alike s ∧ (x.run s).2.fileAt? l ≠ s.fileAt? l

/-- If there are no links below the place that `out` leads to in the end, all files that the step
writes are below this place. If `out` led anywhere before, it was there. -/
def StaysBelow (x : Saving α) (t : FileTree) (out : String) : Prop :=
  (∀ base, (x.run t).2.base? out = some base → t.Unlinked base) →
    ∀ l, x.Writes t l → ∃ base, (x.run t).2.base? out = some base ∧ LiesBelow base l
      ∧ ∀ before, t.base? out = some before → before = base

theorem staysBelow_of_staysIn {x : Saving α} (hblind : Blind x) (hstays : StaysIn out x)
    (hcurrent : t.HasCurrent) : x.StaysBelow t out := by
  rintro hlinks l ⟨s, halike, hwritten⟩
  have hend := (hblind t s halike).2
  have hconfined := hstays s (halike.keeps.hasCurrent hcurrent)
  have hunlinked : ∀ base, (x.run s).2.base? out = some base → (x.run s).2.Unlinked base := by
    intro base hbase names target hnames hnode
    have hlink := halike.symm.keeps.link (hconfined.link hnode)
    exact hlinks base (hend.symm.keeps.base?_eq hbase) names target hnames hlink
  obtain ⟨base, hbase, hbelow⟩ := hconfined.below hunlinked l hwritten
  have hplace := hend.symm.keeps.base?_eq hbase
  refine ⟨base, hplace, hbelow, fun before hbefore => ?_⟩
  have hstayed := (hstays t hcurrent).keeps.base?_eq hbefore
  exact Option.some.inj (hstayed.symm.trans hplace)

end Saving

/-- Whatever the paths and the kinds of the entries are, and whether they can all be saved or not,
no file is written that is not below the folder for the results, unless there are links in it. -/
theorem staysBelow_save {t : FileTree} (hcurrent : t.HasCurrent) (out : String)
    (entries : List Entry) :
    (saveJars out entries).StaysBelow t out ∧ (saveFolders out entries).StaysBelow t out := by
  constructor
  · exact Saving.staysBelow_of_staysIn (blind_saveJars out entries) (staysIn_saveJars out entries)
      hcurrent
  · exact Saving.staysBelow_of_staysIn (blind_saveFolders out entries)
      (staysIn_saveFolders out entries) hcurrent

/-- A folder for results, and a file beside it. -/
def occupied : FileTree := (FileTree.empty.put ["out"] .folder).put ["x"] (.file (.plain [7]))

/-- Entries with paths that begin with two slashes and go up. -/
def wayward : List Entry := [⟨"//a/x", .loose, [1]⟩, ⟨"/../x", .ofUnit, [2]⟩]

/-- As folders, the entries cannot all be saved, as jars they can. In both cases the file beside the
folder for the results is left alone. -/
theorem staysBelow_save_wayward :
    ((saveFolders "out" wayward).run occupied).1 = .error (.outsideOutput "/../x")
      ∧ (saveFolders "out" wayward).Writes occupied ["out", "a", "x"]
      ∧ (∀ l, (saveFolders "out" wayward).Writes occupied l → LiesBelow ["out"] l)
      ∧ ((saveJars "out" wayward).run occupied).1 = .ok ["out/...jar"]
      ∧ (saveJars "out" wayward).Writes occupied ["out", "...jar"]
      ∧ ∀ l, (saveJars "out" wayward).Writes occupied l → LiesBelow ["out"] l := by
  have hcurrent : occupied.HasCurrent := by
    intro l hl
    rw [List.prefix_nil.1 hl]
    rfl
  have hunlinked : occupied.Unlinked ["out"] := by
    intro names target hnames
    rw [occupied, FileTree.node?_put_of_ne _ (by simp),
      FileTree.node?_put_of_ne _ (by simp [hnames]), FileTree.node?_empty (by simp)]
    simp
  have hfolders : ((saveFolders "out" wayward).run occupied).2.base? "out" = some ["out"] := by
    decide +kernel
  have hjars : ((saveJars "out" wayward).run occupied).2.base? "out" = some ["out"] := by
    decide +kernel
  obtain ⟨hsavedJars, hsavedFolders⟩ := staysBelow_save hcurrent "out" wayward
  rw [Saving.StaysBelow, hjars] at hsavedJars
  rw [Saving.StaysBelow, hfolders] at hsavedFolders
  refine ⟨by decide +kernel, ⟨occupied, .refl _, by decide +kernel⟩, fun l hl => ?_,
    by decide +kernel, ⟨occupied, .refl _, by decide +kernel⟩, fun l hl => ?_⟩
  · obtain ⟨base, hbase, hbelow, _⟩ :=
      hsavedFolders (fun base hbase => Option.some.inj hbase ▸ hunlinked) l hl
    rwa [Option.some.inj hbase]
  · obtain ⟨base, hbase, hbelow, _⟩ :=
      hsavedJars (fun base hbase => Option.some.inj hbase ▸ hunlinked) l hl
    rwa [Option.some.inj hbase]

end Storage

end LinkSet
