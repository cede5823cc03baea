import LinkSet.Proofs.SavingSteps

/-!
# Making folders

To make a folder changes nothing that is there. Whether all folders on the way can be made or not,
what is new in the tree are folders (`FileTree.addsFolders_makeFolders`), so every file is left as it
is (`FileTree.AddsFolders.fileAt?_eq`).
-/

namespace LinkSet

namespace FileTree

variable {t t' t'' : FileTree}

/-- The later tree has what the earlier one has, and besides only folders. -/
structure AddsFolders (t t' : FileTree) : Prop where
  current_eq : t'.current = t.current
  node?_eq : ∀ l, t'.node? l = t.node? l ∨ (t.node? l = none ∧ t'.node? l = some .folder)

theorem AddsFolders.refl (t : FileTree) : AddsFolders t t := ⟨rfl, fun _ => .inl rfl⟩

theorem AddsFolders.trans (h : AddsFolders t t') (h' : AddsFolders t' t'') :
    AddsFolders t t'' := by
  refine ⟨h'.current_eq.trans h.current_eq, fun l => ?_⟩
  rcases h.node?_eq l with hsame | ⟨hfree, hmade⟩
  · rw [← hsame]
    exact h'.node?_eq l
  · rcases h'.node?_eq l with hsame | ⟨hfree', _⟩
    · exact .inr ⟨hfree, hsame.trans hmade⟩
    · rw [hmade] at hfree'
      cases hfree'

theorem addsFolders_put {l : Location} (hfree : t.node? l = none) :
    AddsFolders t (t.put l .folder) := by
  refine ⟨current_put t l .folder, fun k => ?_⟩
  by_cases hk : l = k
  · subst hk
    have hl : l ≠ [] := by
      rintro rfl
      cases hfree
    exact .inr ⟨hfree, node?_put_self t hl _⟩
  · exact .inl (node?_put_of_ne t hk _)

theorem AddsFolders.fileAt?_eq (h : AddsFolders t t') (l : Location) :
    t'.fileAt? l = t.fileAt? l := by
  unfold fileAt?
  rcases h.node?_eq l with hsame | ⟨hfree, hmade⟩
  · rw [hsame]
  · rw [hfree, hmade]

theorem addsFolders_makeFoldersWith
    {onLink : FileTree → Location → List FolderStep → FileTree × Bool}
    (hlink : ∀ t here steps, AddsFolders t (onLink t here steps).1) (t : FileTree)
    (here : Location) (steps : List FolderStep) :
    AddsFolders t (makeFoldersWith onLink t here steps).1 := by
  induction steps generalizing t here with
  | nil => exact AddsFolders.refl t
  | cons step rest ih =>
    unfold makeFoldersWith
    split
    · exact AddsFolders.refl t
    · split
      · exact ih t here
      · split
        · exact ih t here.dropLast
        · split
          · exact AddsFolders.refl t
          · split
            · rename_i hfree
              split
              · exact (addsFolders_put hfree).trans (ih _ _)
              · exact AddsFolders.refl t
            · exact hlink _ _ _
            · exact ih _ _

theorem addsFolders_makeFoldersFrom (links : Nat) (t : FileTree) (here : Location)
    (steps : List FolderStep) : AddsFolders t (makeFoldersFrom links t here steps).1 := by
  induction links generalizing t here steps with
  | zero => exact addsFolders_makeFoldersWith (fun t _ _ => AddsFolders.refl t) t here steps
  | succ links ih => exact addsFolders_makeFoldersWith ih t here steps

theorem addsFolders_makeFolders (t : FileTree) (path : String) :
    AddsFolders t (t.makeFolders path).1 := by
  unfold makeFolders
  split
  · exact AddsFolders.refl t
  · split
    · exact AddsFolders.refl t
    · exact addsFolders_makeFoldersFrom _ t _ _

end FileTree

namespace Storage

theorem addsFolders_makeFolder (path : String) (failure : StorageError) :
    Saving.Obeys FileTree.AddsFolders (makeFolder path failure) := by
  intro t
  rw [makeFolder_eq]
  exact FileTree.addsFolders_makeFolders t path

end Storage

end LinkSet
