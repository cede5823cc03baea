import LinkSet.CommandLine.Run
import LinkSet.Proofs.FolderMaking
import LinkSet.Proofs.Loading
import LinkSet.Proofs.Runs

/-!
# Failures of the program's own

Some failures are the file system's or the jars', others are found by the program itself: options
that make no settings, paths that name no unit, contents that are no class files. When one of these
ends a run, no file is another one than before (`CommandLine.fileAt?_of_run`).

All but one are found before anything is saved. The exception is a path without a unit among the
entries of jars, which is found when the entries are sorted by their units. At this point the folder
for the results is there, but no jar has been written, and what jars are loaded from has no entries
outside all units, which would be written at once (`Storage.fileAt?_of_saveJars`).
-/

namespace LinkSet

/-- A failure that the program finds by itself. -/
inductive OwnError
  /-- The options make no settings. -/
  | options (cause : OptionError)
  /-- The path of an entry is not what it should be. -/
  | path (cause : PathError)
  /-- The content of an entry is not what it should be. -/
  | classFile (cause : ClassFileError)
deriving DecidableEq, Repr

/-- The failure of the program's own behind one to load or save. -/
def StorageError.ownError? : StorageError → Option OwnError
  | .entryPath cause => some (.path cause)
  | _ => none

/-- The failure of the program's own behind one to declare a type. -/
def DeclError.ownError : DeclError → OwnError
  | .path cause => .path cause
  | .classFile _ cause => .classFile cause

/-- The failure of the program's own behind one to tighten. -/
def TighteningError.ownError : TighteningError → OwnError
  | .decl cause => cause.ownError
  | .change _ cause => .classFile cause

/-- The failure of the program's own behind one of a command. -/
def CommandLine.Failure.ownError? : CommandLine.Failure → Option OwnError
  | .options cause => some (.options cause)
  | .storage cause => cause.ownError?
  | .tightening cause => some cause.ownError
  | .readFile _ => none
  | .inspect _ cause => some (.classFile cause)

/-! ## Saving -/

namespace Storage

variable {t t' : FileTree} {out : String} {entries : List Entry} {e : StorageError}

/-- An entry that belongs to a unit is sorted without being written. -/
theorem sortOut_ofUnit {e : Entry} (hkind : e.kind = .ofUnit) :
    Saving.Obeys (fun t t' => t' = t) (sortOut out e) := by
  intro t
  unfold sortOut
  rw [hkind]
  cases EntryPath.unit e.path <;> rfl

theorem ownError?_of_saveFile {entry : Entry}
    (h : (saveFile out entry).run t = (.error e, t')) : e.ownError? = none := by
  rw [saveFile_eq] at h
  split at h
  · cases h
    rfl
  · rcases Saving.bind_eq_error.1 h with h | ⟨_, t₁, _, h⟩
    · unfold makeParent at h
      split at h
      · rw [error_of_makeFolder h]
        rfl
      · cases h
    · rw [error_of_writeFile h]
      rfl

theorem ownError?_of_saveFolders (h : (saveFolders out entries).run t = (.error e, t')) :
    e.ownError? = none := by
  rw [saveFolders, List.forM_eq_forM] at h
  induction entries generalizing t with
  | nil => cases h
  | cons entry entries ih =>
    rw [List.forM_cons] at h
    rcases Saving.bind_eq_error.1 h with h | ⟨_, t₁, _, h⟩
    · exact ownError?_of_saveFile h
    · exact ih h

theorem ownError?_of_saveJar {sorted : List (String × Entry)} {unit : String}
    (h : (saveJar out sorted unit).run t = (.error e, t')) : e.ownError? = none := by
  unfold saveJar at h
  rcases Saving.bind_eq_error.1 h with h | ⟨_, t₁, _, h⟩
  · rw [error_of_writeFile h]
    rfl
  · cases h

/-- If entries of units cannot be saved as jars because of a path, no file has been written yet. -/
theorem fileAt?_of_saveJars (hkinds : ∀ entry ∈ entries, entry.kind = .ofUnit) {own : OwnError}
    (h : (saveJars out entries).run t = (.error e, t')) (hown : e.ownError? = some own)
    (l : Location) : t'.fileAt? l = t.fileAt? l := by
  unfold saveJars at h
  have hfolder := addsFolders_makeFolder out (.createOutput out) t
  rcases Saving.bind_eq_error.1 h with h | ⟨_, t₁, hmade, h⟩
  · rw [h] at hfolder
    exact hfolder.fileAt?_eq l
  · rw [hmade] at hfolder
    have hsort : Saving.Obeys (fun t t' => t' = t) (entries.mapM (sortOut out)) :=
      Saving.Obeys.mapM (R := fun t t' => t' = t) (fun _ => rfl) (fun _ _ _ h h' => h'.trans h)
        fun entry hentry => sortOut_ofUnit (hkinds entry hentry)
    rcases Saving.bind_eq_error.1 h with h | ⟨sorted, t₂, _, h⟩
    · have hsame := hsort t₁
      rw [h] at hsame
      obtain rfl : t' = t₁ := hsame
      exact hfolder.fileAt?_eq l
    · obtain ⟨unit, _, _, _, hjar⟩ := Saving.exists_of_mapM_eq_error h
      rw [ownError?_of_saveJar hjar] at hown
      cases hown

end Storage

/-! ## Commands -/

namespace CommandLine

variable {t t' : FileTree} {cause : Failure} {own : OwnError}

namespace Action

variable {α β : Type}

theorem value_look (f : FileTree → Except StorageError α) (t : FileTree) :
    ((look f).run t).value = ((f t).mapError Failure.storage, t) := rfl

theorem value_save (f : Storage.Saving α) (t : FileTree) :
    ((save f).run t).value = ((f.run t).1.mapError Failure.storage, (f.run t).2) := rfl

theorem value_tighten (settings : Settings) (entries : List Entry) (t : FileTree) :
    ((tighten settings entries).run t).value
      = ((Tightening.run settings entries).run.value.mapError Failure.tightening, t) := rfl

theorem value_except (x : Except Failure α) (t : FileTree) :
    ((liftM x : Action α).run t).value = (x, t) := by
  cases x <;> rfl

theorem bind_eq_error {x : Action α} {f : α → Action β} :
    ((x >>= f).run t).value = (.error cause, t')
      ↔ (x.run t).value = (.error cause, t')
        ∨ ∃ a t₁, (x.run t).value = (.ok a, t₁) ∧ ((f a).run t₁).value = (.error cause, t') := by
  change ((ExceptT.bindCont f (x.run t).value.1).run (x.run t).value.2).value = _ ↔ _
  rcases hx : (x.run t).value with ⟨result, t₁⟩
  cases result with
  | error cause' =>
    constructor
    · intro h
      cases h
      exact .inl rfl
    · rintro (h | ⟨a, t₂, h, _⟩)
      · cases h
        rfl
      · cases h
  | ok a =>
    constructor
    · intro h
      exact .inr ⟨a, t₁, rfl, h⟩
    · rintro (h | ⟨a', t₂, h, hf⟩)
      · cases h
      · cases h
        exact hf

/-- If the first of two actions only looks at the tree, either it fails and the tree stays, or the
second one fails. -/
theorem eq_or_of_bind_eq_error {x : Action α} {f : α → Action β} {r : Except Failure α}
    (hx : (x.run t).value = (r, t)) (h : ((x >>= f).run t).value = (.error cause, t')) :
    t' = t ∨ ∃ a, r = .ok a ∧ ((f a).run t).value = (.error cause, t') := by
  rcases bind_eq_error.1 h with h | ⟨a, t₁, ha, h⟩
  · exact .inl (congrArg Prod.snd (h.symm.trans hx))
  · have hsame := hx.symm.trans ha
    obtain rfl : t = t₁ := congrArg Prod.snd hsame
    exact .inr ⟨a, congrArg Prod.fst hsame, h⟩

end Action

theorem mapError_eq_error {ε ε' α : Type} {f : ε → ε'} {x : Except ε α} {e' : ε'}
    (h : x.mapError f = .error e') : ∃ e, x = .error e ∧ e' = f e := by
  cases x with
  | error e => exact ⟨e, rfl, (Except.error.inj h).symm⟩
  | ok a => cases h

/-- If the results cannot be saved because of a path, no file has been written yet. -/
theorem fileAt?_of_saveAs {layout : StorageLayout} {out : String} {entries : List Entry}
    {e : StorageError} (hkinds : layout = .jars → ∀ entry ∈ entries, entry.kind = .ofUnit)
    (h : (saveAs layout out entries).run t = (.error e, t')) (hown : e.ownError? = some own)
    (l : Location) : t'.fileAt? l = t.fileAt? l := by
  cases layout with
  | jars => exact Storage.fileAt?_of_saveJars (hkinds rfl) h hown l
  | folders =>
    rcases Storage.Saving.bind_eq_error.1 h with h | ⟨_, _, _, h⟩
    · rw [Storage.ownError?_of_saveFolders h] at hown
      cases hown
    · cases h

/-- A run on what was loaded from jars gives entries of units. -/
theorem kind_of_tighten {settings : Settings} {inputs : List String} {entries : List Entry}
    {result : Tightened} (hlayout : Storage.detectLayout t inputs = .ok .jars)
    (hload : Storage.load t inputs = .ok entries)
    (hrun : (Tightening.run settings entries).run.value = .ok result) :
    ∀ entry ∈ result.entries, entry.kind = .ofUnit := by
  intro e' he'
  obtain ⟨e, he, hkind⟩ := Result.forall₂_mem (Tightening.forall₂_kind hrun).flip he'
  rw [hkind]
  exact Storage.kind_of_load (Storage.isFolder_of_detectLayout hlayout) hload e he

theorem fileAt?_of_tighten {request : SealRequest} {level : String}
    (h : ((tighten request level).run t).value = (.error cause, t'))
    (hown : cause.ownError? = some own) (l : Location) : t'.fileAt? l = t.fileAt? l := by
  unfold tighten at h
  rcases Action.eq_or_of_bind_eq_error (Action.value_except _ t) h with rfl | ⟨settings, _, h⟩
  · rfl
  rcases Action.eq_or_of_bind_eq_error (Action.value_look _ t) h with rfl | ⟨layout, hlayout, h⟩
  · rfl
  rcases Action.eq_or_of_bind_eq_error (Action.value_look _ t) h with rfl | ⟨entries, hload, h⟩
  · rfl
  rcases Action.eq_or_of_bind_eq_error (Action.value_tighten _ _ t) h with rfl | ⟨result, hrun, h⟩
  · rfl
  -- from here on the tree may have been changed
  rcases Action.bind_eq_error.1 h with h | ⟨outputs, t₁, _, h⟩
  · rw [Action.value_save] at h
    obtain ⟨hresult, rfl⟩ := Prod.mk.inj h
    obtain ⟨e, he, rfl⟩ := mapError_eq_error hresult
    refine fileAt?_of_saveAs (e := e) (fun hjars => ?_) (Prod.ext he rfl) hown l
    subst hjars
    exact kind_of_tighten (Result.mapError_eq_ok.1 hlayout) (Result.mapError_eq_ok.1 hload)
      (Result.mapError_eq_ok.1 hrun)
  · cases h

theorem fileAt?_of_inspect {path : String}
    (h : ((inspect path).run t).value = (.error cause, t')) (l : Location) :
    t'.fileAt? l = t.fileAt? l := by
  have hinspect : ((inspect path).run t).value.2 = t := by
    have hlook : ∀ f : FileTree → Action Printout,
        ((get >>= f).run t).value = ((f t).run t).value := fun _ => rfl
    unfold inspect
    rw [hlook]
    split
    · rfl
    · split <;> rfl
  rw [h] at hinspect
  obtain rfl : t' = t := hinspect
  rfl

/-- If a run fails because of options, of the path of an entry or of what a class file says, all files
are as before, and there are no other ones. -/
theorem fileAt?_of_run {arguments : List String}
    (hending : (run arguments t).ending = .failure cause) (hown : cause.ownError? = some own)
    (l : Location) : (run arguments t).tree.fileAt? l = t.fileAt? l := by
  unfold run at hending ⊢
  cases hinvocation : Invocation.ofArguments arguments with
  | error refusal => cases refusal <;> rfl
  | ok invocation =>
    simp only [hinvocation] at hending ⊢
    rcases hvalue : ((perform invocation).run t).value with ⟨result, t'⟩
    cases result with
    | ok printout =>
      rw [hvalue] at hending
      cases hending
    | error cause' =>
      rw [hvalue] at hending
      obtain rfl := Ending.failure.inj hending
      unfold perform at hvalue
      cases hcommand : invocation.command with
      | tighten request =>
        rw [hcommand] at hvalue
        exact fileAt?_of_tighten hvalue hown l
      | inspect path =>
        rw [hcommand] at hvalue
        exact fileAt?_of_inspect hvalue l

/-- A jar with a member that has no name. -/
def namelessJar : FileTree :=
  FileTree.empty.put ["a.jar"] (.file (.packed { members := [⟨"", [1]⟩] }))

/-- When the jars cannot be written because a member has no name, the folder for them has been made,
and the jar that there was is there still. -/
theorem fileAt?_of_run_nameless :
    (run ["seal", "a.jar", "--out", "out"] namelessJar).ending
        = .failure (.storage (.entryPath (.missingUnit "/a/")))
      ∧ (run ["seal", "a.jar", "--out", "out"] namelessJar).tree.node? ["out"] = some .folder
      ∧ ∀ l, (run ["seal", "a.jar", "--out", "out"] namelessJar).tree.fileAt? l
        = namelessJar.fileAt? l := by
  have hending : (run ["seal", "a.jar", "--out", "out"] namelessJar).ending
      = .failure (.storage (.entryPath (.missingUnit "/a/"))) := by rfl
  exact ⟨hending, by decide +kernel, fileAt?_of_run hending rfl⟩

end CommandLine

end LinkSet
