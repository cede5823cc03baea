import LinkSet.Storage

/-!
# Steps that save

A step that saves is taken on a file tree, and leaves one behind whether it fails or not. When a
step is made of two, it fails if one of them does (`Saving.bind_eq_error`). What both do to a tree,
whatever becomes of them, is what they do together (`Saving.Obeys.bind`).

To save the file of an entry takes two such steps, one for the folder it is in and one for the file
itself (`saveFile_eq`).
-/

namespace LinkSet.Storage

namespace Saving

variable {α β : Type} {t t' : FileTree} {e : StorageError}

/-! ## What comes of a step -/

theorem run_bind_of_ok {x : Saving α} {f : α → Saving β} {a : α} (h : x.run t = (.ok a, t')) :
    (x >>= f).run t = (f a).run t' := by
  change ExceptT.bindCont f (x.run t).1 (x.run t).2 = _
  rw [h]
  rfl

theorem run_bind_of_error {x : Saving α} {f : α → Saving β} (h : x.run t = (.error e, t')) :
    (x >>= f).run t = (.error e, t') := by
  change ExceptT.bindCont f (x.run t).1 (x.run t).2 = _
  rw [h]
  rfl

theorem bind_eq_ok {x : Saving α} {f : α → Saving β} {b : β} :
    (x >>= f).run t = (.ok b, t')
      ↔ ∃ a t₁, x.run t = (.ok a, t₁) ∧ (f a).run t₁ = (.ok b, t') := by
  rcases hx : x.run t with ⟨result, t₁⟩
  cases result with
  | error cause =>
    rw [run_bind_of_error hx]
    constructor
    · intro h
      cases h
    · rintro ⟨a, t₂, h, _⟩
      cases h
  | ok a =>
    rw [run_bind_of_ok hx]
    constructor
    · intro h
      exact ⟨a, t₁, rfl, h⟩
    · rintro ⟨a', t₂, h, hf⟩
      cases h
      exact hf

theorem bind_eq_error {x : Saving α} {f : α → Saving β} :
    (x >>= f).run t = (.error e, t')
      ↔ x.run t = (.error e, t') ∨ ∃ a t₁, x.run t = (.ok a, t₁) ∧ (f a).run t₁ = (.error e, t') := by
  rcases hx : x.run t with ⟨result, t₁⟩
  cases result with
  | error cause =>
    rw [run_bind_of_error hx]
    constructor
    · intro h
      cases h
      exact .inl rfl
    · rintro (h | ⟨a, t₂, h, _⟩)
      · cases h
        rfl
      · cases h
  | ok a =>
    rw [run_bind_of_ok hx]
    constructor
    · intro h
      exact .inr ⟨a, t₁, rfl, h⟩
    · rintro (h | ⟨a', t₂, h, hf⟩)
      · cases h
      · cases h
        exact hf

/-- If a sequence of steps fails, one of them does. -/
theorem exists_of_mapM_eq_error {f : α → Saving β} {xs : List α}
    (h : (xs.mapM f).run t = (.error e, t')) : ∃ x ∈ xs, ∃ t₁ t₂, (f x).run t₁ = (.error e, t₂) := by
  induction xs generalizing t with
  | nil => cases h
  | cons x xs ih =>
    rw [List.mapM_cons, bind_eq_error] at h
    rcases h with h | ⟨y, t₁, _, h⟩
    · exact ⟨x, List.mem_cons_self, t, t', h⟩
    · rcases bind_eq_error.1 h with h | ⟨ys, t₂, _, h⟩
      · obtain ⟨x', hx', hfails⟩ := ih h
        exact ⟨x', List.mem_cons_of_mem _ hx', hfails⟩
      · cases h

/-- What a sequence of steps gives, each is given by one of them. -/
theorem exists_of_mapM_eq_ok {f : α → Saving β} {xs : List α} {ys : List β}
    (h : (xs.mapM f).run t = (.ok ys, t')) :
    ∀ y ∈ ys, ∃ x ∈ xs, ∃ t₁ t₂, (f x).run t₁ = (.ok y, t₂) := by
  induction xs generalizing t ys with
  | nil =>
    cases h
    exact List.forall_mem_nil _
  | cons x xs ih =>
    rw [List.mapM_cons] at h
    obtain ⟨first, t₁, hfirst, h⟩ := bind_eq_ok.1 h
    obtain ⟨others, t₂, hothers, h⟩ := bind_eq_ok.1 h
    cases h
    refine List.forall_mem_cons.2 ⟨⟨x, List.mem_cons_self, t, t₁, hfirst⟩, fun y hy => ?_⟩
    obtain ⟨x', hx', hgives⟩ := ih hothers y hy
    exact ⟨x', List.mem_cons_of_mem _ hx', hgives⟩

/-! ## What a step does to the tree -/

/-- Whether the step fails or not, what it does to a tree is an `R`. -/
def Obeys (R : FileTree → FileTree → Prop) (x : Saving α) : Prop := ∀ t, R t (x.run t).2

section Obeys

variable {R : FileTree → FileTree → Prop} (hrefl : ∀ t, R t t)
  (htrans : ∀ t₁ t₂ t₃, R t₁ t₂ → R t₂ t₃ → R t₁ t₃)

include hrefl in
theorem Obeys.pure (a : α) : Obeys R (pure a) := fun t => hrefl t

include htrans in
/-- The second step only matters for what can come of the first. -/
theorem Obeys.bind_of_ok {x : Saving α} {f : α → Saving β} (hx : Obeys R x)
    (hf : ∀ a t t', x.run t = (.ok a, t') → Obeys R (f a)) : Obeys R (x >>= f) := by
  intro t
  have hfirst := hx t
  rcases h : x.run t with ⟨result, t₁⟩
  rw [h] at hfirst
  cases result with
  | error cause =>
    rw [run_bind_of_error h]
    exact hfirst
  | ok a =>
    rw [run_bind_of_ok h]
    exact htrans _ _ _ hfirst (hf a t t₁ h t₁)

include htrans in
theorem Obeys.bind {x : Saving α} {f : α → Saving β} (hx : Obeys R x) (hf : ∀ a, Obeys R (f a)) :
    Obeys R (x >>= f) :=
  Obeys.bind_of_ok htrans hx fun a _ _ _ => hf a

include hrefl htrans in
theorem Obeys.mapM {f : α → Saving β} {xs : List α} (h : ∀ x ∈ xs, Obeys R (f x)) :
    Obeys R (xs.mapM f) := by
  induction xs with
  | nil => exact Obeys.pure hrefl []
  | cons x xs ih =>
    rw [List.mapM_cons]
    refine Obeys.bind htrans (h x List.mem_cons_self) fun y => ?_
    have hrest : Obeys R (xs.mapM f) := ih fun x' hx' => h x' (List.mem_cons_of_mem _ hx')
    exact Obeys.bind htrans hrest fun ys => Obeys.pure hrefl _

include hrefl htrans in
theorem Obeys.forM {f : α → Saving PUnit} {xs : List α} (h : ∀ x ∈ xs, Obeys R (f x)) :
    Obeys R (xs.forM f) := by
  rw [List.forM_eq_forM]
  induction xs with
  | nil => exact Obeys.pure hrefl _
  | cons x xs ih =>
    rw [List.forM_cons]
    have hrest := ih fun x' hx' => h x' (List.mem_cons_of_mem _ hx')
    exact Obeys.bind htrans (h x List.mem_cons_self) fun _ => hrest

end Obeys

end Saving

/-! ## The steps that there are -/

variable {t t' : FileTree} {e : StorageError}

theorem makeFolder_eq (t : FileTree) (path : String) (failure : StorageError) :
    (makeFolder path failure).run t
      = (if (t.makeFolders path).2 then .ok () else .error failure, (t.makeFolders path).1) := by
  change ExceptT.run (if (t.makeFolders path).2 then pure () else throw failure : Saving Unit)
    (t.makeFolders path).1 = _
  split <;> rfl

theorem writeFile_eq (t : FileTree) (path : String) (content : Content) (failure : StorageError) :
    (writeFile path content failure).run t
      = match t.writeFile? path content with
        | some t' => (.ok (), t')
        | none => (.error failure, t) := by
  change ExceptT.run (match t.writeFile? path content with
    | some t' => set t'
    | none => throw failure : Saving Unit) t = _
  cases t.writeFile? path content <;> rfl

theorem error_of_makeFolder {path : String} {failure : StorageError}
    (h : (makeFolder path failure).run t = (.error e, t')) : e = failure := by
  rw [makeFolder_eq] at h
  split at h <;> cases h
  rfl

theorem error_of_writeFile {path : String} {content : Content} {failure : StorageError}
    (h : (writeFile path content failure).run t = (.error e, t')) : e = failure := by
  rw [writeFile_eq] at h
  split at h <;> cases h
  rfl

/-- The path of an entry from the folder for the results on. -/
def relativePath (entry : Entry) : String :=
  String.ofList (entry.path.toList.dropWhile (· = '/'))

/-- Makes the folder that the file with the given path is in. -/
def makeParent (target : String) : Saving Unit :=
  match PathText.parent? target with
  | some folder => makeFolder folder (.createFolder folder)
  | none => pure ()

theorem saveFile_eq (out : String) (entry : Entry) :
    saveFile out entry
      = if (PathText.steps (relativePath entry)).contains ".." then
          throw (.outsideOutput entry.path)
        else
          makeParent (PathText.join out (relativePath entry)) >>= fun _ =>
            writeFile (PathText.join out (relativePath entry)) (.plain entry.content)
              (.writeFile (PathText.join out (relativePath entry))) := by
  unfold saveFile
  rw [← relativePath]
  generalize relativePath entry = relative
  dsimp only
  generalize PathText.join out relative = target
  unfold makeParent
  cases PathText.parent? target <;> rfl

end LinkSet.Storage
