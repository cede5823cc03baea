import LinkSet.Proofs.FolderMaking
import LinkSet.Proofs.Loading
import LinkSet.Proofs.NameOrder
import LinkSet.Proofs.PathTexts
import LinkSet.Proofs.PathWalks
import Mathlib.Data.List.DropRight

/-!
# Jars that are saved and loaded again

Entries from jars, saved as jars: there is a jar for each unit, and what is loaded from it are the
entries of the unit, in their order (`Storage.loadJar_saveJars`).

A member of a jar gives an entry, and the entry a member with the name cut short by the slashes at
its start, which gives the same entry again (`Storage.entryOfMember_memberOfEntry`). A jar is held as
the list of its members, and the same members are unpacked from its bytes (`Content.members?_pack`).
Jars are written one after the other. A jar that is written later takes the place of an earlier one
if its path leads to the same file, as it may through a link in the folder for the results. Then the
earlier one is lost (`Storage.loadJar_saveJars_linked`).
-/

namespace LinkSet

/-- The unit of an entry, if its path names one. -/
def Entry.unit? (e : Entry) : Option String := (EntryPath.unit e.path).toOption

theorem Entry.unit?_eq_some {e : Entry} {unit : String} :
    e.unit? = some unit ↔ EntryPath.unit e.path = .ok unit := by
  unfold Entry.unit?
  cases EntryPath.unit e.path <;> simp [Except.toOption]

namespace Storage

variable {t t' : FileTree} {inputs units paths : List String} {entries : List Entry}
  {out unit : String} {e : Entry} {m : Member}

/-! ## Members and entries -/

theorem toList_path_entryOfMember (unit : String) (m : Member) :
    (entryOfMember unit m).path.toList
      = '/' :: unit.toList ++ '/' :: m.name.toList.dropWhile (· = '/') := by
  simp [entryOfMember]

theorem unit?_entryOfMember {u : String} (hslash : '/' ∉ unit.toList) :
    (entryOfMember unit m).unit? = some u → u = unit ∧ m.name.toList.dropWhile (· = '/') ≠ [] := by
  have hsplit : EntryPath.split? (entryOfMember unit m).path
      = some (unit.toList, m.name.toList.dropWhile (· = '/')) := by
    unfold EntryPath.split?
    rw [toList_path_entryOfMember]
    exact Text.cut?_append hslash _
  rw [Entry.unit?_eq_some, EntryPath.unit, hsplit]
  intro h
  dsimp only at h
  split at h
  · rename_i hparts
    refine ⟨?_, hparts.2⟩
    rw [← Except.ok.inj h, String.ofList_toList]
  · cases h

/-- The name of the member that is saved is that of the one that was loaded, without the slashes at
its start. -/
theorem memberOfEntry_entryOfMember (unit : String) (m : Member) :
    memberOfEntry unit (entryOfMember unit m)
      = ⟨String.ofList (m.name.toList.dropWhile (· = '/')), m.content⟩ := by
  have hdrop : Text.dropStart? ("/" ++ unit ++ "/").toList (entryOfMember unit m).path.toList
      = some (m.name.toList.dropWhile (· = '/')) := by
    rw [Text.dropStart?_eq_some, toList_path_entryOfMember]
    simp
  unfold memberOfEntry
  rw [hdrop]
  rfl

theorem entryOfMember_memberOfEntry (unit : String) (m : Member) :
    entryOfMember unit (memberOfEntry unit (entryOfMember unit m)) = entryOfMember unit m := by
  rw [memberOfEntry_entryOfMember]
  simp [entryOfMember, List.dropWhile_idempotent]

theorem isFolderMember_memberOfEntry (hm : isFolderMember m = false)
    (hname : m.name.toList.dropWhile (· = '/') ≠ []) :
    isFolderMember (memberOfEntry unit (entryOfMember unit m)) = false := by
  have hlast : m.name.toList.getLast? = (m.name.toList.dropWhile (· = '/')).getLast? := by
    conv => lhs; rw [← List.takeWhile_append_dropWhile (p := (· = '/')) (l := m.name.toList)]
    exact List.getLast?_append_of_ne_nil _ hname
  rw [memberOfEntry_entryOfMember, isFolderMember, String.toList_ofList, ← hlast]
  exact hm

/-- What an entry from a jar becomes in the jar of its unit gives the entry again. -/
theorem member_of_load {t : FileTree} (hjars : ∀ input ∈ inputs, t.isFolder input = false)
    (hload : load t inputs = .ok entries) (he : e ∈ entries) (hunit : e.unit? = some unit) :
    unit ≠ "" ∧ '/' ∉ unit.toList ∧ entryOfMember unit (memberOfEntry unit e) = e
      ∧ isFolderMember (memberOfEntry unit e) = false := by
  obtain ⟨input, stem, m, hstem, hm, rfl⟩ := exists_member_of_load hjars hload he
  obtain ⟨hne, hslash⟩ := PathText.stem?_eq_some hstem
  obtain ⟨rfl, hname⟩ := unit?_entryOfMember hslash hunit
  exact ⟨hne, hslash, entryOfMember_memberOfEntry unit m, isFolderMember_memberOfEntry hm hname⟩

/-! ## Sorting -/

theorem sortOut_eq_ok {found : Option (String × Entry)} (hkind : e.kind = .ofUnit)
    (h : (sortOut out e).run t = (.ok found, t')) :
    t' = t ∧ found = e.unit?.map fun unit => (unit, e) := by
  unfold sortOut at h
  rw [hkind] at h
  unfold Entry.unit?
  cases hunit : EntryPath.unit e.path with
  | ok unit =>
    simp only [hunit] at h
    cases h
    exact ⟨rfl, rfl⟩
  | error cause =>
    simp only [hunit] at h
    cases h

theorem mapM_sortOut_eq_ok {found : List (Option (String × Entry))}
    (hkinds : ∀ e ∈ entries, e.kind = .ofUnit)
    (h : (entries.mapM (sortOut out)).run t = (.ok found, t')) :
    t' = t ∧ found = entries.map fun e => e.unit?.map fun unit => (unit, e) := by
  induction entries generalizing t found with
  | nil =>
    cases h
    exact ⟨rfl, rfl⟩
  | cons e entries ih =>
    obtain ⟨hkind, hkinds⟩ := List.forall_mem_cons.1 hkinds
    rw [List.mapM_cons] at h
    obtain ⟨first, t₁, hfirst, h⟩ := Saving.bind_eq_ok.1 h
    obtain ⟨others, t₂, hothers, h⟩ := Saving.bind_eq_ok.1 h
    cases h
    obtain ⟨rfl, rfl⟩ := sortOut_eq_ok hkind hfirst
    obtain ⟨rfl, rfl⟩ := ih hkinds hothers
    exact ⟨rfl, rfl⟩

/-- Entries, each with its unit. Those without one are left out. -/
def sortByUnit (entries : List Entry) : List (String × Entry) :=
  entries.filterMap fun e => e.unit?.map fun unit => (unit, e)

theorem mem_units_sortByUnit :
    unit ∈ (sortByUnit entries).map (·.1) ↔ ∃ e ∈ entries, e.unit? = some unit := by
  simp [sortByUnit, List.mem_filterMap, and_assoc, and_comm]

theorem filter_sortByUnit (entries : List Entry) (unit : String) :
    ((sortByUnit entries).filter (·.1 = unit)).map (fun (_, e) => memberOfEntry unit e)
      = (entries.filter fun e => e.unit? = some unit).map (memberOfEntry unit) := by
  induction entries with
  | nil => rfl
  | cons e entries ih =>
    unfold sortByUnit at ih ⊢
    cases hunit : e.unit? with
    | none => simp [hunit, ih]
    | some u =>
      by_cases hu : u = unit
      · simp [hunit, hu, ih]
      · simp [hunit, hu, ih]

/-! ## Writing -/

/-- The path of the jar of a unit. -/
def jarPath (out unit : String) : String := PathText.join out (unit ++ ".jar")

/-- The jar of a unit. -/
def jarOfUnit (entries : List Entry) (unit : String) : Jar where
  members := (entries.filter fun e => e.unit? = some unit).map (memberOfEntry unit)

/-- What is loaded from the jar of a unit are its entries, if each comes back from its member. -/
theorem entries_jarOfUnit
    (h : ∀ e ∈ entries, e.unit? = some unit → entryOfMember unit (memberOfEntry unit e) = e
      ∧ isFolderMember (memberOfEntry unit e) = false) :
    ((jarOfUnit entries unit).members.filter (!isFolderMember ·)).map (entryOfMember unit)
      = entries.filter fun e => e.unit? = some unit := by
  unfold jarOfUnit
  have hall : ∀ e ∈ entries.filter fun e => e.unit? = some unit,
      entryOfMember unit (memberOfEntry unit e) = e
        ∧ isFolderMember (memberOfEntry unit e) = false := by
    intro e he
    obtain ⟨he, hunit⟩ := List.mem_filter.1 he
    exact h e he (of_decide_eq_true hunit)
  generalize entries.filter (fun e => e.unit? = some unit) = kept at hall
  have hfiles : (kept.map (memberOfEntry unit)).filter (!isFolderMember ·)
      = kept.map (memberOfEntry unit) := by
    rw [List.filter_eq_self, List.forall_mem_map]
    exact fun e he => by rw [(hall e he).2]; rfl
  rw [hfiles, List.map_map]
  calc kept.map (entryOfMember unit ∘ memberOfEntry unit)
      = kept.map id := List.map_congr_left fun e he => (hall e he).1
    _ = kept := List.map_id kept

theorem saveJar_eq_ok (hcurrent : t.HasCurrent) {path : String}
    (h : (saveJar out (sortByUnit entries) unit).run t = (.ok path, t')) :
    path = jarPath out unit ∧ FileTree.Keeps t t' ∧ ∃ l, l ≠ []
      ∧ t' = t.put l (.file (.packed (jarOfUnit entries unit)))
      ∧ t'.locate? (jarPath out unit) = some l := by
  unfold saveJar at h
  obtain ⟨_, t₁, hwrite, h⟩ := Saving.bind_eq_ok.1 h
  cases h
  rw [filter_sortByUnit, writeFile_eq] at hwrite
  split at hwrite
  · rename_i hwritten
    cases hwrite
    obtain ⟨l, hl, hput, hkeeps, hlocate⟩ := FileTree.writeFile?_eq_some hcurrent hwritten
    exact ⟨rfl, hkeeps, l, hl, hput, hlocate⟩
  · cases hwrite

/-- The jars of units are written in the order of the units. At the end the path of each leads to a
file, which is the jar if no path of a later one leads there. -/
theorem mapM_saveJar_eq_ok (hcurrent : t.HasCurrent) (hunits : units.Pairwise (· < ·))
    (h : (units.mapM (saveJar out (sortByUnit entries))).run t = (.ok paths, t')) :
    FileTree.Keeps t t' ∧ paths = units.map (jarPath out)
      ∧ (∀ l, (∀ u ∈ units, t'.locate? (jarPath out u) ≠ some l) → t'.fileAt? l = t.fileAt? l)
      ∧ ∀ u ∈ units, ∃ l, t'.locate? (jarPath out u) = some l
        ∧ ((∀ v ∈ units, u < v → t'.locate? (jarPath out v) ≠ some l) →
          t'.fileAt? l = some (.packed (jarOfUnit entries u))) := by
  induction units generalizing t paths with
  | nil =>
    cases h
    exact ⟨.refl _, rfl, fun _ _ => rfl, fun _ hu => nomatch hu⟩
  | cons unit units ih =>
    obtain ⟨hless, hunits⟩ := List.pairwise_cons.1 hunits
    rw [List.mapM_cons] at h
    obtain ⟨path, t₁, hfirst, h⟩ := Saving.bind_eq_ok.1 h
    obtain ⟨others, t₂, hothers, h⟩ := Saving.bind_eq_ok.1 h
    cases h
    obtain ⟨rfl, hkeeps₁, l, hl, hput, hlocate₁⟩ := saveJar_eq_ok hcurrent hfirst
    obtain ⟨hkeeps, rfl, helsewhere, hwritten⟩ := ih (hkeeps₁.hasCurrent hcurrent) hunits hothers
    have hlocate : t'.locate? (jarPath out unit) = some l := hkeeps.locate?_eq hlocate₁
    refine ⟨hkeeps₁.trans hkeeps, rfl, fun k hk => ?_, ?_⟩
    · obtain ⟨hlk, hk⟩ := List.forall_mem_cons.1 hk
      have hne : l ≠ k := fun heq => hlk (heq ▸ hlocate)
      rw [helsewhere k hk, hput, FileTree.fileAt?, FileTree.node?_put_of_ne t hne]
      rfl
    · intro u hu
      rcases List.mem_cons.1 hu with rfl | hu
      · refine ⟨l, hlocate, fun hlater => ?_⟩
        have hlast : ∀ v ∈ units, t'.locate? (jarPath out v) ≠ some l :=
          fun v hv => hlater v (List.mem_cons_of_mem _ hv) (hless v hv)
        rw [helsewhere l hlast, hput, FileTree.fileAt?, FileTree.node?_put_self t hl]
      · obtain ⟨k, hk, hcontent⟩ := hwritten u hu
        exact ⟨k, hk, fun hlater => hcontent fun v hv => hlater v (List.mem_cons_of_mem _ hv)⟩

/-! ## Loading again -/

theorem saveJars_eq_ok (hkinds : ∀ e ∈ entries, e.kind = .ofUnit)
    (h : (saveJars out entries).run t = (.ok paths, t')) :
    ∃ t₁, FileTree.AddsFolders t t₁
      ∧ ((NameSet.ofList ((sortByUnit entries).map (·.1))).toList.mapM
        (saveJar out (sortByUnit entries))).run t₁ = (.ok paths, t') := by
  unfold saveJars at h
  obtain ⟨_, t₁, hmade, h⟩ := Saving.bind_eq_ok.1 h
  obtain ⟨found, t₂, hfound, h⟩ := Saving.bind_eq_ok.1 h
  obtain ⟨rfl, rfl⟩ := mapM_sortOut_eq_ok hkinds hfound
  have hfolder := addsFolders_makeFolder out (.createOutput out) t
  rw [hmade] at hfolder
  have hsorted : (entries.map fun e => e.unit?.map fun unit => (unit, e)).filterMap id
      = sortByUnit entries := by
    rw [List.filterMap_map]
    rfl
  rw [hsorted] at h
  exact ⟨_, hfolder, h⟩

/-- When entries from jars are saved as jars, there is one jar for each unit, and from the jar of a
unit its entries are loaded, unless the path of a later jar leads to the same file. -/
theorem loadJar_saveJars {t₀ : FileTree} (hjars : ∀ input ∈ inputs, t₀.isFolder input = false)
    (hload : load t₀ inputs = .ok entries) (hcurrent : t.HasCurrent)
    (hsave : (saveJars out entries).run t = (.ok paths, t')) :
    ∃ units : List String, units.Pairwise (· < ·)
      ∧ (∀ unit, unit ∈ units ↔ ∃ e ∈ entries, e.unit? = some unit)
      ∧ paths = units.map (jarPath out)
      ∧ ∀ unit ∈ units,
        (∀ later ∈ units, unit < later →
          t'.locate? (jarPath out later) ≠ t'.locate? (jarPath out unit)) →
        loadJar t' (jarPath out unit) = .ok (entries.filter fun e => e.unit? = some unit) := by
  obtain ⟨t₁, hfolder, hwrite⟩ := saveJars_eq_ok (kind_of_load hjars hload) hsave
  have hless := NameSet.pairwise_toList (NameSet.ofList ((sortByUnit entries).map (·.1)))
  have hmem : ∀ unit, unit ∈ (NameSet.ofList ((sortByUnit entries).map (·.1))).toList
      ↔ ∃ e ∈ entries, e.unit? = some unit := by
    intro unit
    rw [← mem_units_sortByUnit, NameSet.ofList, Std.ExtTreeSet.mem_toList, Std.ExtTreeSet.mem_ofList]
    simp
  generalize (NameSet.ofList ((sortByUnit entries).map (·.1))).toList = units at *
  obtain ⟨_, hpaths, _, hwritten⟩ :=
    mapM_saveJar_eq_ok (hfolder.keeps.hasCurrent hcurrent) hless hwrite
  refine ⟨units, hless, hmem, hpaths, fun unit hunit hlater => ?_⟩
  obtain ⟨l, hlocate, hcontent⟩ := hwritten unit hunit
  rw [hlocate] at hlater
  obtain ⟨e, he, heunit⟩ := (hmem unit).1 hunit
  obtain ⟨hne, hslash, _⟩ := member_of_load hjars hload he heunit
  have hstem : PathText.stem? (jarPath out unit) = some unit := by
    have hname : unit ++ ".jar" = unit ++ "." ++ "jar" := by rw [String.append_assoc]; rfl
    rw [jarPath, hname]
    exact PathText.stem?_join out hne hslash (by decide) (by decide) (by decide)
  have hmembers : membersAt t' (jarPath out unit) = .ok (jarOfUnit entries unit).members :=
    membersAt_eq_ok.2 ⟨l, _, hlocate, hcontent hlater, rfl⟩
  refine loadJar_eq_ok.2 ⟨unit, _, hstem, hmembers, ?_⟩
  exact entries_jarOfUnit fun e he heunit => (member_of_load hjars hload he heunit).2.2

/-- Two jars of the same name in different folders. -/
def namesakes : FileTree :=
  ((FileTree.empty.put ["a.jar"] (.file (.packed { members := [⟨"x.txt", [1]⟩] }))).put
    ["d"] .folder).put ["d", "a.jar"] (.file (.packed { members := [⟨"d/", []⟩, ⟨"/y.txt", [2]⟩] }))

/-- What is loaded from the two jars. -/
def namesakeEntries : List Entry := [⟨"/a/x.txt", .ofUnit, [1]⟩, ⟨"/a/y.txt", .ofUnit, [2]⟩]

/-- The members of both go into one jar. -/
theorem loadJar_saveJars_namesakes :
    loadJar ((saveJars "out" namesakeEntries).run namesakes).2 (jarPath "out" "a")
      = .ok namesakeEntries := by
  have hjars : ∀ input ∈ ["a.jar", "d/a.jar"], namesakes.isFolder input = false := by decide +kernel
  have hload : load namesakes ["a.jar", "d/a.jar"] = .ok namesakeEntries := by decide +kernel
  have hcurrent : namesakes.HasCurrent := by
    intro l hl
    rw [List.prefix_nil.1 hl]
    rfl
  have hpaths : ((saveJars "out" namesakeEntries).run namesakes).1 = .ok ["out/a.jar"] := by
    decide +kernel
  have hsave : (saveJars "out" namesakeEntries).run namesakes
      = (.ok ["out/a.jar"], ((saveJars "out" namesakeEntries).run namesakes).2) := by
    rw [← hpaths, Prod.eta]
  obtain ⟨units, _, hunits, _, hloaded⟩ := loadJar_saveJars hjars hload hcurrent hsave
  have hmem : "a" ∈ units := (hunits "a").2 ⟨⟨"/a/x.txt", .ofUnit, [1]⟩, by decide +kernel⟩
  have hall : namesakeEntries.filter (fun e => e.unit? = some "a") = namesakeEntries := by
    decide +kernel
  rw [← hall]
  refine hloaded "a" hmem fun later hlater hless => ?_
  -- no unit comes later, as `a` is the only one
  obtain ⟨e, he, hunit⟩ := (hunits later).1 hlater
  have hsingle : ∀ e ∈ namesakeEntries, e.unit? = some "a" := by decide +kernel
  obtain rfl := Option.some.inj ((hsingle e he).symm.trans hunit)
  exact absurd hless (by decide)

/-- Two jars, and a link in the folder for the results from the place of the one to the place of the
other. -/
def linkedPlaces : FileTree :=
  (((FileTree.empty.put ["a.jar"] (.file (.packed { members := [⟨"x.txt", [1]⟩] }))).put
    ["b.jar"] (.file (.packed { members := [⟨"y.txt", [2]⟩] }))).put ["out"] .folder).put
    ["out", "b.jar"] (.link "a.jar")

/-- When one jar is written over the other, both are reported, but what is loaded at the place of the
first are the members of the second. -/
theorem loadJar_saveJars_linked :
    load linkedPlaces ["a.jar", "b.jar"]
        = .ok [⟨"/a/x.txt", .ofUnit, [1]⟩, ⟨"/b/y.txt", .ofUnit, [2]⟩]
      ∧ ((saveJars "out" [⟨"/a/x.txt", .ofUnit, [1]⟩, ⟨"/b/y.txt", .ofUnit, [2]⟩]).run linkedPlaces).1
        = .ok ["out/a.jar", "out/b.jar"]
      ∧ loadJar ((saveJars "out" [⟨"/a/x.txt", .ofUnit, [1]⟩, ⟨"/b/y.txt", .ofUnit, [2]⟩]).run
          linkedPlaces).2 "out/a.jar" = .ok [⟨"/a/y.txt", .ofUnit, [2]⟩] := by
  decide +kernel

end Storage

end LinkSet
