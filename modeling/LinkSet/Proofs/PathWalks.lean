import LinkSet.Proofs.FolderMaking
import LinkSet.Proofs.PathTexts
import Mathlib.Logic.Relation

/-!
# Walks along paths

To follow a path is to walk along it. A walk is somewhere on its way, with steps left, and each hop
takes one of them (`FileTree.Hop`): it stays, goes up, goes down to a file or a folder, or replaces a
link by the steps of its target. A path leads to a place exactly if its walk comes to an end there
(`FileTree.follow_eq_ok`).

A walk only looks at what is at the locations that it comes through. So it goes the same way in a
tree that keeps these (`FileTree.Hop.keeps`), and what was found at a path is found there again
(`FileTree.Keeps.locate?_eq`). Making folders and writing files keep what is there, apart from the
contents of files (`FileTree.writeFile?_eq_some`).
-/

namespace LinkSet.FileTree

variable {t t' t'' : FileTree}

/-! ## Hops -/

/-- A walk on its way. -/
structure Walk where
  /-- How many links it may still go through. -/
  links : Nat
  /-- Where it is. -/
  here : Location
  /-- The steps that are left. -/
  steps : List String

/-- The step goes down, to what has its name. -/
structure IsDown (step : String) : Prop where
  isStay_eq : PathText.isStay step = false
  ne_up : step ≠ ".."
  isName : FileTree.isName step = true

/-- A walk takes one of its steps. -/
inductive Hop (t : FileTree) : Walk → Walk → Prop
  | stay {n : Nat} {here : Location} {step : String} {rest : List String}
    (hfolder : t.isFolderAt here = true) (hstep : PathText.isStay step = true) :
    Hop t ⟨n, here, step :: rest⟩ ⟨n, here, rest⟩
  | up {n : Nat} {here : Location} {rest : List String} (hfolder : t.isFolderAt here = true) :
    Hop t ⟨n, here, ".." :: rest⟩ ⟨n, here.dropLast, rest⟩
  | down {n : Nat} {here : Location} {step : String} {rest : List String} {node : Node}
    (hfolder : t.isFolderAt here = true) (hstep : IsDown step)
    (hnode : t.node? (here ++ [step]) = some node) (hlink : ∀ target, node ≠ .link target) :
    Hop t ⟨n, here, step :: rest⟩ ⟨n, here ++ [step], rest⟩
  | link {n : Nat} {here : Location} {step target : String} {rest : List String}
    (hfolder : t.isFolderAt here = true) (hstep : IsDown step)
    (hnode : t.node? (here ++ [step]) = some (.link target)) :
    Hop t ⟨n + 1, here, step :: rest⟩ ⟨n, startOf here target, PathText.steps target ++ rest⟩

/-- A walk takes some of its steps. -/
abbrev Hops (t : FileTree) : Walk → Walk → Prop := Relation.ReflTransGen (Hop t)

/-- A walk has come to an end: no step is left, or one to a name that is free. -/
inductive Ends (t : FileTree) : Walk → Place → Prop
  | present {n : Nat} {l : Location} : Ends t ⟨n, l, []⟩ (.present l)
  | vacant {n : Nat} {folder : Location} {name : String} (hfolder : t.isFolderAt folder = true)
    (hname : IsDown name) (hfree : t.node? (folder ++ [name]) = none) :
    Ends t ⟨n, folder, [name]⟩ (.vacant folder name)

/-- What is done at a link by a walk that may go through so many links. -/
def onLinkOf (t : FileTree) : Nat → Location → List String → Except PathFault Place
  | 0 => fun _ _ => .error .unusable
  | n + 1 => t.follow n

theorem follow_eq (t : FileTree) (n : Nat) : t.follow n = t.followWith (t.onLinkOf n) := by
  cases n <;> rfl

section

variable {onLink : Location → List String → Except PathFault Place} {here : Location}
  {step : String} {rest : List String}

theorem followWith_stay (hfolder : t.isFolderAt here = true) (hstep : PathText.isStay step = true) :
    t.followWith onLink here (step :: rest) = t.followWith onLink here rest := by
  simp [followWith, hfolder, hstep]

theorem followWith_up (hfolder : t.isFolderAt here = true) :
    t.followWith onLink here (".." :: rest) = t.followWith onLink here.dropLast rest := by
  have hup : PathText.isStay ".." = false := by decide
  simp [followWith, hfolder, hup]

theorem followWith_down (hfolder : t.isFolderAt here = true) (hstep : IsDown step) :
    t.followWith onLink here (step :: rest)
      = match t.node? (here ++ [step]) with
        | none => if rest.isEmpty then .ok (.vacant here step) else .error .missing
        | some (.link target) => onLink (startOf here target) (PathText.steps target ++ rest)
        | some _ => t.followWith onLink (here ++ [step]) rest := by
  have hthere : ¬ (!t.isFolderAt here) = true := by simp [hfolder]
  have hmoves : ¬ PathText.isStay step = true := by simp [hstep.isStay_eq]
  have hdown : ¬ (step == "..") = true := by simp [hstep.ne_up]
  have hfits : ¬ (!isName step) = true := by simp [hstep.isName]
  rw [followWith]
  exact (if_neg hthere).trans ((if_neg hmoves).trans ((if_neg hdown).trans (if_neg hfits)))

end

/-- A hop does not change where the walk leads. -/
theorem follow_hop {w w' : Walk} (h : Hop t w w') :
    t.follow w.links w.here w.steps = t.follow w'.links w'.here w'.steps := by
  cases h with
  | stay hfolder hstep =>
    simp only [follow_eq]
    exact followWith_stay hfolder hstep
  | up hfolder =>
    simp only [follow_eq]
    exact followWith_up hfolder
  | @down n here step rest node hfolder hstep hnode hlink =>
    simp only [follow_eq]
    rw [followWith_down hfolder hstep, hnode]
    cases node with
    | file content => rfl
    | folder => rfl
    | link target => exact absurd rfl (hlink target)
  | link hfolder hstep hnode =>
    simp only [follow_eq t (_ + 1)]
    rw [followWith_down hfolder hstep, hnode]
    rfl

theorem follow_hops {w w' : Walk} (h : Hops t w w') :
    t.follow w.links w.here w.steps = t.follow w'.links w'.here w'.steps := by
  induction h with
  | refl => rfl
  | tail _ hhop ih => exact ih.trans (follow_hop hhop)

theorem follow_of_ends {w : Walk} {place : Place} (h : Ends t w place) :
    t.follow w.links w.here w.steps = .ok place := by
  cases h with
  | present => rw [follow_eq]; rfl
  | vacant hfolder hname hfree =>
    rw [follow_eq, followWith_down hfolder hname, hfree]
    rfl

/-- A walk that leads to a place can take its first step, or has come to an end. -/
theorem exists_hop_of_follow {n : Nat} {here : Location} {step : String} {rest : List String}
    {place : Place} (h : t.follow n here (step :: rest) = .ok place) :
    Ends t ⟨n, here, step :: rest⟩ place ∨ ∃ w, Hop t ⟨n, here, step :: rest⟩ w
      ∧ (w.links < n ∨ w.links = n ∧ w.steps = rest) := by
  rw [follow_eq] at h
  by_cases hfolder : t.isFolderAt here = true
  · by_cases hstay : PathText.isStay step = true
    · exact .inr ⟨_, .stay hfolder hstay, .inr ⟨rfl, rfl⟩⟩
    · by_cases hup : step = ".."
      · subst hup
        exact .inr ⟨_, .up hfolder, .inr ⟨rfl, rfl⟩⟩
      · by_cases hname : isName step = true
        · have hstep : IsDown step := ⟨Bool.eq_false_iff.2 hstay, hup, hname⟩
          rw [followWith_down hfolder hstep] at h
          cases hnode : t.node? (here ++ [step]) with
          | none =>
            rw [hnode] at h
            cases rest with
            | nil =>
              obtain rfl := Except.ok.inj h
              exact .inl (.vacant hfolder hstep hnode)
            | cons _ _ => cases h
          | some node =>
            cases node with
            | link target =>
              cases n with
              | zero =>
                rw [hnode] at h
                cases h
              | succ n => exact .inr ⟨_, .link hfolder hstep hnode, .inl (Nat.lt_succ_self n)⟩
            | file content =>
              exact .inr ⟨_, .down hfolder hstep hnode (by simp), .inr ⟨rfl, rfl⟩⟩
            | folder =>
              exact .inr ⟨_, .down hfolder hstep hnode (by simp), .inr ⟨rfl, rfl⟩⟩
        · simp [followWith, hfolder, hstay, hup, hname] at h
  · simp [followWith, hfolder] at h

/-- A walk leads to a place exactly if it comes to an end there. -/
theorem follow_eq_ok {w : Walk} {place : Place} :
    t.follow w.links w.here w.steps = .ok place ↔ ∃ w', Hops t w w' ∧ Ends t w' place := by
  constructor
  · intro h
    -- a hop uses up a link, or else a step
    obtain ⟨n, here, steps⟩ := w
    induction n using Nat.strongRecOn generalizing here steps with
    | ind n ihn =>
      induction steps generalizing here with
      | nil =>
        rw [follow_eq] at h
        obtain rfl := Except.ok.inj h
        exact ⟨_, .refl, .present⟩
      | cons step rest ih =>
        rcases exists_hop_of_follow h with hends | ⟨⟨n', here', steps'⟩, hhop, hless⟩
        · exact ⟨_, .refl, hends⟩
        · have hrest : t.follow n' here' steps' = .ok place := (follow_hop hhop).symm.trans h
          rcases hless with hlinks | ⟨rfl, rfl⟩
          · obtain ⟨w', hhops, hends⟩ := ihn n' hlinks here' steps' hrest
            exact ⟨w', .head hhop hhops, hends⟩
          · obtain ⟨w', hhops, hends⟩ := ih here' hrest
            exact ⟨w', .head hhop hhops, hends⟩
  · rintro ⟨w', hhops, hends⟩
    exact (follow_hops hhops).trans (follow_of_ends hends)

/-! ## Parts of walks -/

theorem Hop.append {w w' : Walk} (h : Hop t w w') (more : List String) :
    Hop t { w with steps := w.steps ++ more } { w' with steps := w'.steps ++ more } := by
  cases h with
  | stay hfolder hstep => exact .stay hfolder hstep
  | up hfolder => exact .up hfolder
  | down hfolder hstep hnode hlink => exact .down hfolder hstep hnode hlink
  | link hfolder hstep hnode =>
    dsimp only
    rw [List.append_assoc]
    exact .link hfolder hstep hnode

theorem Hops.append {w w' : Walk} (h : Hops t w w') (more : List String) :
    Hops t { w with steps := w.steps ++ more } { w' with steps := w'.steps ++ more } := by
  induction h with
  | refl => exact .refl
  | tail _ hhop ih => exact .tail ih (hhop.append more)

variable {n m : Nat} {here l : Location} {steps : List String}

theorem eq_of_hops_nil {w : Walk} (h : Hops t ⟨n, l, []⟩ w) : w = ⟨n, l, []⟩ := by
  rcases Relation.ReflTransGen.cases_head h with heq | ⟨_, hhop, _⟩
  · exact heq.symm
  · cases hhop

/-- A walk along steps goes along the first ones and then along the others. -/
theorem exists_hops_of_append {before behind : List String}
    (h : Hops t ⟨n, here, before ++ behind⟩ ⟨m, l, []⟩) :
    ∃ n' here', Hops t ⟨n, here, before⟩ ⟨n', here', []⟩
      ∧ Hops t ⟨n', here', behind⟩ ⟨m, l, []⟩ := by
  generalize hw : (⟨n, here, before ++ behind⟩ : Walk) = w at h
  induction h using Relation.ReflTransGen.head_induction_on generalizing n here before with
  | refl =>
    obtain ⟨rfl, rfl, hnil⟩ := Walk.mk.inj hw
    obtain ⟨rfl, rfl⟩ := List.append_eq_nil_iff.1 hnil
    exact ⟨_, _, .refl, .refl⟩
  | head hhop hrest ih =>
    subst hw
    cases before with
    | nil => exact ⟨_, _, .refl, .head hhop hrest⟩
    | cons step before =>
      cases hhop with
      | stay hfolder hstep =>
        obtain ⟨n', here', hbefore, hbehind⟩ := ih rfl
        exact ⟨n', here', .head (.stay hfolder hstep) hbefore, hbehind⟩
      | up hfolder =>
        obtain ⟨n', here', hbefore, hbehind⟩ := ih rfl
        exact ⟨n', here', .head (.up hfolder) hbefore, hbehind⟩
      | down hfolder hstep hnode hlink =>
        obtain ⟨n', here', hbefore, hbehind⟩ := ih rfl
        exact ⟨n', here', .head (.down hfolder hstep hnode hlink) hbefore, hbehind⟩
      | link hfolder hstep hnode =>
        obtain ⟨n', here', hbefore, hbehind⟩ := ih (by rw [List.append_assoc]; rfl)
        exact ⟨n', here', .head (.link hfolder hstep hnode) hbefore, hbehind⟩

theorem hops_concat_stay (hfolder : t.isFolderAt l = true) {step : String}
    (hstay : PathText.isStay step = true) :
    Hops t ⟨n, here, steps ++ [step]⟩ ⟨m, l, []⟩ ↔ Hops t ⟨n, here, steps⟩ ⟨m, l, []⟩ := by
  constructor
  · intro h
    obtain ⟨n', here', hbefore, hlast⟩ := exists_hops_of_append h
    obtain heq | ⟨w, hhop, hrest⟩ := Relation.ReflTransGen.cases_head hlast
    · cases heq
    · cases hhop with
      | stay =>
        cases eq_of_hops_nil hrest
        exact hbefore
      | up => cases hstay
      | down _ hstep => rw [hstep.isStay_eq] at hstay; cases hstay
      | link _ hstep => rw [hstep.isStay_eq] at hstay; cases hstay
  · intro h
    exact .tail (h.append [step]) (.stay hfolder hstay)

/-- Steps at the end of a walk that stay do not matter. -/
theorem hops_rdropWhile (hfolder : t.isFolderAt l = true) :
    Hops t ⟨n, here, steps.rdropWhile PathText.isStay⟩ ⟨m, l, []⟩
      ↔ Hops t ⟨n, here, steps⟩ ⟨m, l, []⟩ := by
  induction steps using List.reverseRecOn with
  | nil => exact Iff.rfl
  | append_singleton steps step ih =>
    rw [List.rdropWhile_concat]
    split
    · rename_i hstay
      exact ih.trans (hops_concat_stay hfolder hstay).symm
    · exact Iff.rfl

/-- A walk goes down through folders. -/
theorem hops_down {names rest : List String} (hnames : ∀ name ∈ names, IsDown name)
    (hfolders : ∀ k, k <+: names → t.isFolderAt (l ++ k) = true) :
    Hops t ⟨n, l, names ++ rest⟩ ⟨n, l ++ names, rest⟩ := by
  induction names generalizing l with
  | nil =>
    rw [List.append_nil]
    exact .refl
  | cons name names ih =>
    obtain ⟨hname, hnames⟩ := List.forall_mem_cons.1 hnames
    have hhere : t.isFolderAt l = true := by simpa using hfolders [] List.nil_prefix
    have hnode : t.node? (l ++ [name]) = some .folder := by
      have hfirst : [name] <+: name :: names := ⟨names, rfl⟩
      simpa [isFolderAt] using hfolders [name] hfirst
    have hbelow : ∀ k, k <+: names → t.isFolderAt (l ++ [name] ++ k) = true := by
      intro k hk
      rw [List.append_assoc]
      exact hfolders (name :: k) (List.cons_prefix_cons.2 ⟨rfl, hk⟩)
    refine .head (.down hhere hname hnode (by simp)) ?_
    rw [List.append_cons l name names]
    exact ih hnames hbelow

/-! ## Paths -/

/-- The walk along a path. -/
def walkOf (t : FileTree) (path : String) : Walk :=
  ⟨maxLinks, startOf t.current path, PathText.steps path⟩

theorem resolve_eq_ok {path : String} {place : Place} :
    t.resolve path = .ok place
      ↔ isUsable path = true ∧ path ≠ "" ∧ ∃ w, Hops t (t.walkOf path) w ∧ Ends t w place := by
  rw [← follow_eq_ok]
  unfold resolve
  by_cases husable : isUsable path = true
  · by_cases hempty : path = ""
    · subst hempty
      rw [husable]
      simp
    · simp [husable, hempty, walkOf]
  · simp [husable]

theorem isUsable_of_append {before behind : String} (h : isUsable (before ++ behind) = true) :
    isUsable before = true := by
  unfold isUsable at h ⊢
  rw [Bool.and_eq_true, Bool.not_eq_true', Bool.not_eq_true'] at h ⊢
  obtain ⟨hlong, hchar⟩ := h
  refine ⟨PathText.isTooLong_of_append hlong, ?_⟩
  simp only [String.toList_append, List.contains_append, Bool.or_eq_false_iff] at hchar
  exact hchar.1

theorem locate?_eq_some {path : String} {l : Location} :
    t.locate? path = some l
      ↔ isUsable path = true ∧ path ≠ "" ∧ ∃ n, Hops t (t.walkOf path) ⟨n, l, []⟩ := by
  have hresolve : t.locate? path = some l ↔ t.resolve path = .ok (.present l) := by
    unfold locate?
    constructor
    · intro h
      split at h
      · rename_i l' hl'
        rw [hl', Option.some.inj h]
      · cases h
    · intro h
      rw [h]
  rw [hresolve, resolve_eq_ok]
  refine and_congr_right fun _ => and_congr_right fun _ => ?_
  constructor
  · rintro ⟨w, hhops, hends⟩
    cases hends with
    | present => exact ⟨_, hhops⟩
  · rintro ⟨n, hhops⟩
    exact ⟨_, hhops, .present⟩

/-! ## Walks in trees that have changed -/

/-- The later tree has a folder for each folder, a link for each link and a file for each file. -/
structure Keeps (t t' : FileTree) : Prop where
  current_eq : t'.current = t.current
  folder : ∀ {l}, t.isFolderAt l = true → t'.isFolderAt l = true
  link : ∀ {l target}, t.node? l = some (.link target) → t'.node? l = some (.link target)
  file : ∀ {l content}, t.node? l = some (.file content) →
    ∃ content', t'.node? l = some (.file content')

theorem Keeps.refl (t : FileTree) : Keeps t t := ⟨rfl, id, id, fun h => ⟨_, h⟩⟩

theorem Keeps.trans (h : Keeps t t') (h' : Keeps t' t'') : Keeps t t'' := by
  refine ⟨h'.current_eq.trans h.current_eq, fun hl => h'.folder (h.folder hl),
    fun hl => h'.link (h.link hl), fun hl => ?_⟩
  obtain ⟨content, hcontent⟩ := h.file hl
  exact h'.file hcontent

theorem AddsFolders.keeps (h : AddsFolders t t') : Keeps t t' := by
  have hnode : ∀ {l node}, t.node? l = some node → t'.node? l = some node := by
    intro l node hl
    rcases h.node?_eq l with hsame | ⟨hfree, _⟩
    · rw [hsame, hl]
    · rw [hfree] at hl
      cases hl
  refine ⟨h.current_eq, fun hl => ?_, fun hl => hnode hl, fun hl => ⟨_, hnode hl⟩⟩
  rw [isFolderAt, beq_iff_eq] at hl ⊢
  exact hnode hl

theorem isFolderAt_iff {l : Location} : t.isFolderAt l = true ↔ t.node? l = some .folder := by
  rw [isFolderAt, beq_iff_eq]

theorem Hop.keeps (h : Keeps t t') {w w' : Walk} (hhop : Hop t w w') : Hop t' w w' := by
  cases hhop with
  | stay hfolder hstep => exact .stay (h.folder hfolder) hstep
  | up hfolder => exact .up (h.folder hfolder)
  | @down _ _ _ _ node hfolder hstep hnode hlink =>
    cases node with
    | file content =>
      obtain ⟨content', hnode'⟩ := h.file hnode
      exact .down (h.folder hfolder) hstep hnode' (by simp)
    | folder =>
      have hnode' := isFolderAt_iff.1 (h.folder (isFolderAt_iff.2 hnode))
      exact .down (h.folder hfolder) hstep hnode' (by simp)
    | link target => exact absurd rfl (hlink target)
  | link hfolder hstep hnode => exact .link (h.folder hfolder) hstep (h.link hnode)

theorem Keeps.hops (h : Keeps t t') {w w' : Walk} (hhops : Hops t w w') : Hops t' w w' :=
  Relation.ReflTransGen.mono (fun _ _ hhop => Hop.keeps h hhop) _ _ hhops

theorem Keeps.walkOf_eq (h : Keeps t t') (path : String) : t'.walkOf path = t.walkOf path := by
  rw [walkOf, walkOf, h.current_eq]

/-- What a path leads to is found there again. -/
theorem Keeps.locate?_eq (h : Keeps t t') {path : String} {l : Location}
    (hl : t.locate? path = some l) : t'.locate? path = some l := by
  obtain ⟨husable, hempty, n, hhops⟩ := locate?_eq_some.1 hl
  refine locate?_eq_some.2 ⟨husable, hempty, n, ?_⟩
  rw [h.walkOf_eq]
  exact h.hops hhops

/-! ## Writing files -/

/-- The current folder is there, and so are the folders that it is in. -/
def HasCurrent (t : FileTree) : Prop := ∀ l, l <+: t.current → t.isFolderAt l = true

theorem Keeps.hasCurrent (h : Keeps t t') (hcurrent : t.HasCurrent) : t'.HasCurrent := by
  intro l hl
  rw [h.current_eq] at hl
  exact h.folder (hcurrent l hl)

/-- A place that a walk can come to: a folder, or a file in a folder, and folders all the way. -/
structure Stands (t : FileTree) (l : Location) : Prop where
  above : ∀ k, k <+: l → k ≠ l → t.isFolderAt k = true
  isSome : ∃ node, t.node? l = some node ∧ ∀ target, node ≠ .link target

theorem stands_of_folders {l : Location} (h : ∀ k, k <+: l → t.isFolderAt k = true) :
    Stands t l :=
  ⟨fun k hk _ => h k hk, .folder, isFolderAt_iff.1 (h l List.prefix_rfl), by simp⟩

theorem Stands.folders {l : Location} (h : Stands t l) (hfolder : t.isFolderAt l = true) :
    ∀ k, k <+: l → t.isFolderAt k = true := by
  intro k hk
  by_cases heq : k = l
  · rw [heq]
    exact hfolder
  · exact h.above k hk heq

theorem Stands.hop {w w' : Walk} (h : Stands t w.here) (hhop : Hop t w w') : Stands t w'.here := by
  cases hhop with
  | stay hfolder hstep => exact h
  | @up n here rest hfolder =>
    refine stands_of_folders fun k hk => ?_
    exact h.folders hfolder k (hk.trans (List.dropLast_prefix here))
  | @down n here step rest node hfolder hstep hnode hlink =>
    refine ⟨fun k hk hne => ?_, node, hnode, hlink⟩
    rcases List.prefix_concat_iff.1 hk with heq | hk
    · exact absurd heq hne
    · exact h.folders hfolder k hk
  | @link n here step target rest hfolder hstep hnode =>
    show Stands t (startOf here target)
    unfold startOf
    split
    · exact stands_of_folders fun k hk => by rw [List.prefix_nil.1 hk]; rfl
    · exact h

theorem Stands.hops {w w' : Walk} (h : Stands t w.here) (hhops : Hops t w w') :
    Stands t w'.here := by
  induction hhops with
  | refl => exact h
  | tail _ hhop ih => exact ih.hop hhop

theorem HasCurrent.stands (h : t.HasCurrent) (path : String) : Stands t (t.walkOf path).here := by
  show Stands t (startOf t.current path)
  unfold startOf
  split
  · exact stands_of_folders fun k hk => by rw [List.prefix_nil.1 hk]; rfl
  · exact stands_of_folders h

theorem keeps_put_file {l : Location} (content : Content) (hl : l ≠ [])
    (hfree : t.node? l = none ∨ ∃ old, t.node? l = some (.file old)) :
    Keeps t (t.put l (.file content)) := by
  -- what is in the place, if anything is, is a file
  have hother : ∀ {k node}, t.node? k = some node → (∀ old, node ≠ .file old) →
      (t.put l (.file content)).node? k = some node := by
    intro k node hk hnode
    have hlk : l ≠ k := by
      rintro rfl
      rcases hfree with hnone | ⟨old, hold⟩
      · rw [hk] at hnone
        cases hnone
      · rw [hk] at hold
        exact hnode old (Option.some.inj hold)
    rw [node?_put_of_ne t hlk, hk]
  refine ⟨rfl, fun {k} hk => ?_, fun {k target} hk => hother hk (by simp), fun {k old} hk => ?_⟩
  · rw [isFolderAt_iff] at hk ⊢
    exact hother hk (by simp)
  · by_cases hlk : l = k
    · subst hlk
      exact ⟨content, node?_put_self t hl _⟩
    · exact ⟨old, (node?_put_of_ne t hlk _).trans hk⟩

/-- A file that is written is found at its path afterwards, and is all that has changed. -/
theorem writeFile?_eq_some (hcurrent : t.HasCurrent) {path : String} {content : Content}
    (h : t.writeFile? path content = some t') :
    ∃ l, l ≠ [] ∧ t' = t.put l (.file content) ∧ Keeps t t' ∧ t'.locate? path = some l := by
  unfold writeFile? at h
  split at h
  · rename_i l hresolve
    split at h
    · cases h
    · rename_i hfolder
      obtain rfl := Option.some.inj h
      obtain ⟨husable, hempty, w, hhops, hends⟩ := resolve_eq_ok.1 hresolve
      cases hends with
      | @present n =>
        obtain ⟨node, hnode, hlink⟩ := ((hcurrent.stands path).hops hhops).isSome
        have hl : l ≠ [] := by
          rintro rfl
          exact hfolder rfl
        have hfile : ∃ old, t.node? l = some (.file old) := by
          cases node with
          | file old => exact ⟨old, hnode⟩
          | folder => exact absurd (isFolderAt_iff.2 hnode) hfolder
          | link target => exact absurd rfl (hlink target)
        have hkeeps := keeps_put_file content hl (.inr hfile)
        have hlocate : t.locate? path = some l := locate?_eq_some.2 ⟨husable, hempty, n, hhops⟩
        exact ⟨l, hl, rfl, hkeeps, hkeeps.locate?_eq hlocate⟩
  · rename_i folder name hresolve
    obtain rfl := Option.some.inj h
    obtain ⟨husable, hempty, w, hhops, hends⟩ := resolve_eq_ok.1 hresolve
    cases hends with
    | @vacant n _ _ hfolder hname hfree =>
      have hl : folder ++ [name] ≠ [] := by simp
      have hkeeps := keeps_put_file content hl (.inl hfree)
      refine ⟨_, hl, rfl, hkeeps, locate?_eq_some.2 ⟨husable, hempty, n, ?_⟩⟩
      rw [hkeeps.walkOf_eq]
      exact .tail (hkeeps.hops hhops)
        (.down (hkeeps.folder hfolder) hname (node?_put_self t hl _) (by simp))
  · cases h

end LinkSet.FileTree
