import LinkSet.Proofs.PathWalks

/-!
# Saving does not look into files

Where a path leads depends on folders and links, and on where there are files, but not on what is in
them. So on trees that are alike but for the contents of files (`FileTree.Alike`), steps that save
do the same: they come to the same result, and the trees that they leave behind are alike again
(`Storage.blind_saveJars`, `Storage.blind_saveFolders`).
-/

namespace LinkSet

namespace FileTree

variable {t s : FileTree}

/-! ## Trees that are alike -/

/-- The trees differ at most in what is in their files. -/
structure Alike (t s : FileTree) : Prop where
  current_eq : s.current = t.current
  node?_eq : ∀ l, s.node? l = t.node? l
    ∨ ∃ old new, t.node? l = some (.file old) ∧ s.node? l = some (.file new)

theorem Alike.refl (t : FileTree) : Alike t t := ⟨rfl, fun _ => .inl rfl⟩

theorem Alike.symm (h : Alike t s) : Alike s t := by
  refine ⟨h.current_eq.symm, fun l => ?_⟩
  rcases h.node?_eq l with hsame | ⟨old, new, hold, hnew⟩
  · exact .inl hsame.symm
  · exact .inr ⟨new, old, hnew, hold⟩

theorem Alike.keeps (h : Alike t s) : Keeps t s := by
  have hother : ∀ {l node}, t.node? l = some node → (∀ content, node ≠ .file content) →
      s.node? l = some node := by
    intro l node hl hnode
    rcases h.node?_eq l with hsame | ⟨old, new, hold, _⟩
    · rw [hsame, hl]
    · rw [hl] at hold
      exact absurd (Option.some.inj hold) (hnode old)
  refine ⟨h.current_eq, fun hl => ?_, fun hl => hother hl (by simp), fun {l content} hl => ?_⟩
  · rw [isFolderAt_iff] at hl ⊢
    exact hother hl (by simp)
  · rcases h.node?_eq l with hsame | ⟨_, new, _, hnew⟩
    · exact ⟨content, hsame.trans hl⟩
    · exact ⟨new, hnew⟩

theorem Alike.isFolderAt_eq (h : Alike t s) (l : Location) : s.isFolderAt l = t.isFolderAt l := by
  rw [Bool.eq_iff_iff]
  exact ⟨h.symm.keeps.folder, h.keeps.folder⟩

theorem Alike.put (h : Alike t s) (l : Location) (node : Node) :
    Alike (t.put l node) (s.put l node) := by
  refine ⟨h.current_eq, fun k => ?_⟩
  by_cases hk : l = k
  · rw [node?_put, node?_put, if_pos hk, if_pos hk]
    exact .inl rfl
  · rw [node?_put_of_ne t hk, node?_put_of_ne s hk]
    exact h.node?_eq k

/-! ## Paths -/

theorem Alike.resolve_eq_ok (h : Alike t s) {path : String} {place : Place}
    (hplace : t.resolve path = .ok place) : s.resolve path = .ok place := by
  obtain ⟨husable, hempty, w, hhops, hends⟩ := FileTree.resolve_eq_ok.1 hplace
  refine FileTree.resolve_eq_ok.2 ⟨husable, hempty, w, ?_, ?_⟩
  · rw [h.keeps.walkOf_eq]
    exact h.keeps.hops hhops
  · cases hends with
    | present => exact .present
    | @vacant n folder name hfolder hname hfree =>
      refine .vacant (h.keeps.folder hfolder) hname ?_
      rcases h.node?_eq (folder ++ [name]) with hsame | ⟨old, _, hold, _⟩
      · rw [hsame, hfree]
      · rw [hfree] at hold
        cases hold

/-- A file can be written in both trees or in none. -/
theorem Alike.writeFile? (h : Alike t s) (path : String) (content : Content) :
    Option.Rel Alike (t.writeFile? path content) (s.writeFile? path content) := by
  unfold FileTree.writeFile?
  cases hplace : t.resolve path with
  | ok place =>
    rw [h.resolve_eq_ok hplace]
    cases place with
    | present l =>
      dsimp only
      rw [h.isFolderAt_eq]
      split
      · exact .none
      · exact .some (h.put l _)
    | vacant folder name => exact .some (h.put _ _)
  | error fault =>
    cases hplace' : s.resolve path with
    | ok place =>
      rw [h.symm.resolve_eq_ok hplace'] at hplace
      cases hplace
    | error fault' => exact .none

theorem Alike.makeFoldersWith (h : Alike t s)
    {onLink : FileTree → Location → List FolderStep → FileTree × Bool}
    (hlink : ∀ {t s} here steps, Alike t s →
      (onLink s here steps).2 = (onLink t here steps).2
        ∧ Alike (onLink t here steps).1 (onLink s here steps).1)
    (here : Location) (steps : List FolderStep) :
    (FileTree.makeFoldersWith onLink s here steps).2
        = (FileTree.makeFoldersWith onLink t here steps).2
      ∧ Alike (FileTree.makeFoldersWith onLink t here steps).1
        (FileTree.makeFoldersWith onLink s here steps).1 := by
  induction steps generalizing t s here with
  | nil => exact ⟨h.isFolderAt_eq here, h⟩
  | cons step rest ih =>
    simp only [FileTree.makeFoldersWith, h.isFolderAt_eq]
    split
    · exact ⟨rfl, h⟩
    · split
      · exact ih h here
      · split
        · exact ih h here.dropLast
        · split
          · exact ⟨rfl, h⟩
          · rcases h.node?_eq (here ++ [step.name]) with hsame | ⟨old, new, hold, hnew⟩
            · rw [hsame]
              cases t.node? (here ++ [step.name]) with
              | none =>
                dsimp only
                split
                · exact ih (h.put _ .folder) _
                · exact ⟨rfl, h⟩
              | some node =>
                cases node with
                | file content => exact ih h _
                | folder => exact ih h _
                | link target => exact hlink _ _ h
            · rw [hold, hnew]
              exact ih h _

theorem Alike.makeFoldersFrom (h : Alike t s) (links : Nat) (here : Location)
    (steps : List FolderStep) :
    (FileTree.makeFoldersFrom links s here steps).2
        = (FileTree.makeFoldersFrom links t here steps).2
      ∧ Alike (FileTree.makeFoldersFrom links t here steps).1
        (FileTree.makeFoldersFrom links s here steps).1 := by
  induction links generalizing t s here steps with
  | zero => exact h.makeFoldersWith (fun _ _ h' => ⟨rfl, h'⟩) here steps
  | succ links ih => exact h.makeFoldersWith (fun here steps h' => ih h' here steps) here steps

/-- The same folders are made in both trees. -/
theorem Alike.makeFolders (h : Alike t s) (path : String) :
    (s.makeFolders path).2 = (t.makeFolders path).2
      ∧ Alike (t.makeFolders path).1 (s.makeFolders path).1 := by
  unfold FileTree.makeFolders
  rw [h.current_eq]
  split
  · exact ⟨rfl, h⟩
  · split
    · exact ⟨rfl, h⟩
    · exact h.makeFoldersFrom _ _ _

end FileTree

namespace Storage

open FileTree (Alike)

namespace Saving

variable {α β : Type}

/-- On trees that are alike, the step does the same. -/
def Blind (x : Saving α) : Prop :=
  ∀ t s, Alike t s → (x.run s).1 = (x.run t).1 ∧ Alike (x.run t).2 (x.run s).2

theorem Blind.pure (a : α) : Blind (pure a) := fun _ _ h => ⟨rfl, h⟩

theorem Blind.throw (e : StorageError) : Blind (throw e : Saving α) := fun _ _ h => ⟨rfl, h⟩

theorem Blind.bind {x : Saving α} {f : α → Saving β} (hx : Blind x) (hf : ∀ a, Blind (f a)) :
    Blind (x >>= f) := by
  intro t s h
  obtain ⟨hresult, halike⟩ := hx t s h
  rcases ht : x.run t with ⟨result, t₁⟩
  rcases hs : x.run s with ⟨result', s₁⟩
  rw [ht, hs] at hresult halike
  obtain rfl : result' = result := hresult
  cases result' with
  | error cause =>
    rw [run_bind_of_error ht, run_bind_of_error hs]
    exact ⟨rfl, halike⟩
  | ok a =>
    rw [run_bind_of_ok ht, run_bind_of_ok hs]
    exact hf a t₁ s₁ halike

theorem Blind.mapM {f : α → Saving β} {xs : List α} (h : ∀ x ∈ xs, Blind (f x)) :
    Blind (xs.mapM f) := by
  induction xs with
  | nil => exact Blind.pure []
  | cons x xs ih =>
    rw [List.mapM_cons]
    refine Blind.bind (h x List.mem_cons_self) fun y => ?_
    have hrest : Blind (xs.mapM f) := ih fun x' hx' => h x' (List.mem_cons_of_mem _ hx')
    exact Blind.bind hrest fun ys => Blind.pure _

theorem Blind.forM {f : α → Saving PUnit} {xs : List α} (h : ∀ x ∈ xs, Blind (f x)) :
    Blind (xs.forM f) := by
  rw [List.forM_eq_forM]
  induction xs with
  | nil => exact Blind.pure _
  | cons x xs ih =>
    rw [List.forM_cons]
    have hrest := ih fun x' hx' => h x' (List.mem_cons_of_mem _ hx')
    exact Blind.bind (h x List.mem_cons_self) fun _ => hrest

end Saving

open Saving (Blind)

theorem blind_makeFolder (path : String) (failure : StorageError) :
    Blind (makeFolder path failure) := by
  intro t s h
  obtain ⟨hmade, halike⟩ := h.makeFolders path
  rw [makeFolder_eq, makeFolder_eq, hmade]
  exact ⟨rfl, halike⟩

theorem blind_writeFile (path : String) (content : Content) (failure : StorageError) :
    Blind (writeFile path content failure) := by
  intro t s h
  have hwrite := h.writeFile? path content
  rw [writeFile_eq, writeFile_eq]
  generalize t.writeFile? path content = written at hwrite
  generalize s.writeFile? path content = written' at hwrite
  cases hwrite with
  | none => exact ⟨rfl, h⟩
  | some halike => exact ⟨rfl, halike⟩

theorem blind_saveFile (out : String) (entry : Entry) : Blind (saveFile out entry) := by
  rw [saveFile_eq]
  split
  · exact Blind.throw _
  · refine Blind.bind ?_ fun _ => blind_writeFile _ _ _
    unfold makeParent
    split
    · exact blind_makeFolder _ _
    · exact Blind.pure ()

theorem blind_sortOut (out : String) (entry : Entry) : Blind (sortOut out entry) := by
  unfold sortOut
  split
  · split
    · exact Blind.pure _
    · exact Blind.throw _
  · exact Blind.bind (blind_saveFile out entry) fun _ => Blind.pure none

theorem blind_saveJar (out : String) (sorted : List (String × Entry)) (unit : String) :
    Blind (saveJar out sorted unit) :=
  Blind.bind (blind_writeFile _ _ _) fun _ => Blind.pure _

theorem blind_saveJars (out : String) (entries : List Entry) : Blind (saveJars out entries) := by
  unfold saveJars
  refine Blind.bind (blind_makeFolder _ _) fun _ => ?_
  refine Blind.bind (Blind.mapM fun entry _ => blind_sortOut out entry) fun found => ?_
  exact Blind.mapM fun unit _ => blind_saveJar out _ unit

theorem blind_saveFolders (out : String) (entries : List Entry) :
    Blind (saveFolders out entries) :=
  Blind.forM fun entry _ => blind_saveFile out entry

end Storage

end LinkSet
