import LinkSet.FileTree.PathText
import Mathlib.Data.List.DropRight

/-!
# Steps and names of paths

The steps of a path that goes on from a folder are those into the folder and then its own
(`PathText.steps_join`), whether or not the path of the folder ends in a slash.

The stem of a path is a name: it is not empty and has no slash (`PathText.stem?_eq_some`). With an
extension behind it, it is the stem of its path in any folder (`PathText.stem?_join`).

A path that ends in a name is the path of a folder with more text behind it
(`PathText.exists_parent`). The steps of both are the same up to the name, except that steps that stay
may be left out in front of it.
-/

namespace LinkSet.PathText

/-! ## Steps -/

theorem steps_ne_nil (path : String) : steps path ≠ [] := by
  unfold steps
  rw [Ne, List.map_eq_nil_iff]
  exact Text.pieces_ne_nil _ _

theorem not_mem_of_mem_steps {path step : String} (h : step ∈ steps path) :
    '/' ∉ step.toList := by
  obtain ⟨piece, hpiece, rfl⟩ := List.mem_map.1 h
  rw [String.toList_ofList]
  exact Text.not_mem_of_mem_pieces hpiece

theorem steps_of_not_mem {name : String} (h : '/' ∉ name.toList) : steps name = [name] := by
  rw [steps, Text.pieces_of_not_mem h]
  simp

theorem steps_append (before behind : String) :
    steps (before ++ "/" ++ behind) = steps before ++ steps behind := by
  have htext : (before ++ "/" ++ behind).toList = before.toList ++ '/' :: behind.toList := by simp
  rw [steps, htext, Text.pieces_append, List.map_append, steps, steps]

/-- To go on from a base adds a slash, unless the base is empty or ends in one. -/
theorem join_cases (base : String) :
    (base = "" ∧ ∀ rest, isAbsolute rest = false → join base rest = rest)
      ∨ ∃ front, (base = front ∨ base = front ++ "/")
        ∧ ∀ rest, isAbsolute rest = false → join base rest = front ++ "/" ++ rest := by
  unfold join
  by_cases hempty : base = ""
  · refine .inl ⟨hempty, fun rest hrest => ?_⟩
    simp [hempty, hrest]
  · by_cases hslash : base.toList.getLast? = some '/'
    · obtain ⟨front, hfront⟩ := List.getLast?_eq_some_iff.1 hslash
      have hbase : base = String.ofList front ++ "/" := by
        rw [← String.ofList_toList (s := base), hfront]
        simp
      refine .inr ⟨_, .inr hbase, fun rest hrest => ?_⟩
      simp [hrest, hbase]
    · refine .inr ⟨base, .inl rfl, fun rest hrest => ?_⟩
      simp [hslash, hempty, hrest]

/-- The steps into a folder, without an empty one at the end. -/
def stepsInto (folder : String) : List String := (steps (join folder "")).dropLast

/-- A path that goes on from a folder leads into it first. -/
theorem steps_join (folder : String) {rest : String} (hrest : isAbsolute rest = false) :
    steps (join folder rest) = stepsInto folder ++ steps rest := by
  have hempty : steps "" = [""] := rfl
  unfold stepsInto
  obtain ⟨_, hjoin⟩ | ⟨front, _, hjoin⟩ := join_cases folder
  · rw [hjoin rest hrest, hjoin "" rfl, hempty]
    rfl
  · rw [hjoin rest hrest, hjoin "" rfl, steps_append, steps_append, hempty, List.dropLast_concat]

/-! ## Names -/

theorem isAbsolute_of_not_mem {name : String} (h : '/' ∉ name.toList) :
    isAbsolute name = false := by
  unfold isAbsolute
  rw [beq_eq_false_iff_ne]
  exact fun hhead => h (List.mem_of_head? hhead)

theorem fileName?_eq_some {path name : String} (h : fileName? path = some name) :
    name ∈ steps path ∧ isStay name = false := by
  have hlast : ((steps path).filter fun step => !isStay step).getLast? = some name := by
    unfold fileName? at h
    split at h
    · cases h
    · exact h
  have hmem := List.mem_of_getLast? hlast
  rw [List.mem_filter] at hmem
  exact ⟨hmem.1, by simpa using hmem.2⟩

theorem fileName?_join (folder : String) {name : String} (hslash : '/' ∉ name.toList)
    (hstay : isStay name = false) (hup : name ≠ "..") :
    fileName? (join folder name) = some name := by
  have hlast : ((steps (join folder name)).filter fun step => !isStay step).getLast?
      = some name := by
    rw [steps_join folder (isAbsolute_of_not_mem hslash), steps_of_not_mem hslash]
    simp [List.filter_append, hstay]
  unfold fileName?
  rw [hlast]
  split
  · rename_i heq
    exact absurd (Option.some.inj heq) hup
  · rfl

/-- The stem of a path can be the name of a file. -/
theorem stem?_eq_some {path stem : String} (h : stem? path = some stem) :
    stem ≠ "" ∧ '/' ∉ stem.toList := by
  obtain ⟨name, hname, rfl⟩ := Option.map_eq_some_iff.1 h
  obtain ⟨hstep, hstay⟩ := fileName?_eq_some hname
  have hslash := not_mem_of_mem_steps hstep
  have hne : name ≠ "" := by
    rintro rfl
    cases hstay
  unfold splitName
  split
  · rename_i stem extension hcut
    split
    · exact ⟨hne, hslash⟩
    · rename_i hstem
      refine ⟨by simpa using hstem, ?_⟩
      rw [Text.cutLast?_eq_some hcut] at hslash
      simp only [List.mem_append, not_or] at hslash
      rw [String.toList_ofList]
      exact hslash.1
  · exact ⟨hne, hslash⟩

/-- A name is the stem of the path that it has in a folder with an extension behind it. -/
theorem stem?_join (folder : String) {stem extension : String} (hne : stem ≠ "")
    (hslash : '/' ∉ stem.toList) (hextension : '/' ∉ extension.toList)
    (hdot : '.' ∉ extension.toList) (hlong : extension.toList ≠ []) :
    stem? (join folder (stem ++ "." ++ extension)) = some stem := by
  have htext : (stem ++ "." ++ extension).toList = stem.toList ++ '.' :: extension.toList := by simp
  have hstem : stem.toList ≠ [] := by simpa using hne
  -- with more than a dot behind the stem, the name is no step that stays or goes up
  have hstep : ∀ step : String, step.toList = [] ∨ step.toList.getLast? = some '.' →
      stem ++ "." ++ extension ≠ step := by
    rintro step hstep rfl
    rw [htext] at hstep
    rcases hstep with hstep | hstep
    · simp at hstep
    · rw [List.append_cons, List.getLast?_append_of_ne_nil _ hlong] at hstep
      exact hdot (List.mem_of_getLast? hstep)
  have hstay : isStay (stem ++ "." ++ extension) = false := by
    rw [isStay, Bool.or_eq_false_iff, beq_eq_false_iff_ne, beq_eq_false_iff_ne]
    exact ⟨hstep "" (.inl rfl), hstep "." (.inr rfl)⟩
  have hfree : '/' ∉ (stem ++ "." ++ extension).toList := by
    rw [htext]
    simp [hslash, hextension]
  have hname := fileName?_join folder hfree hstay (hstep ".." (.inr rfl))
  rw [stem?, hname, Option.map_some, splitName, htext, Text.cutLast?_append hdot]
  simp [hstem]

/-! ## Texts of steps -/

theorem toList_slash : "/".toList = ['/'] := rfl

theorem intercalate_steps (path : String) : String.intercalate "/" (steps path) = path := by
  have htexts : (steps path).map String.toList = Text.pieces '/' path.toList := by
    simp [steps, Function.comp_def]
  rw [← String.toList_inj, Text.toList_intercalate toList_slash, htexts, Text.join_pieces]

theorem steps_intercalate {names : List String} (hne : names ≠ [])
    (hslash : ∀ name ∈ names, '/' ∉ name.toList) : steps (String.intercalate "/" names) = names := by
  rw [steps, Text.pieces_intercalate toList_slash hne hslash]
  simp [Function.comp_def]

/-! ## Paths that go on -/

theorem exists_join (base : String) {rest : String} (hrest : isAbsolute rest = false) :
    ∃ between, join base rest = base ++ between ++ rest := by
  obtain ⟨rfl, hjoin⟩ | ⟨front, rfl | rfl, hjoin⟩ := join_cases base
  · exact ⟨"", by simp [hjoin rest hrest]⟩
  · exact ⟨"/", hjoin rest hrest⟩
  · exact ⟨"", by simp [hjoin rest hrest]⟩

theorem isAbsolute_append {before : String} (hne : before ≠ "") (behind : String) :
    isAbsolute (before ++ behind) = isAbsolute before := by
  have hlist : before.toList ≠ [] := by simpa using hne
  rw [isAbsolute, isAbsolute, String.toList_append, List.head?_append_of_ne_nil _ hlist]

theorem isTooLong_of_append {before behind : String} (h : isTooLong (before ++ behind) = false) :
    isTooLong before = false := by
  unfold isTooLong at h ⊢
  rw [decide_eq_false_iff_not, String.utf8ByteSize_append] at h
  rw [decide_eq_false_iff_not]
  omega

theorem join_join (base : String) {name rest : String} (hne : name ≠ "") (hslash : '/' ∉ name.toList)
    (hrest : isAbsolute rest = false) :
    join (join base name) rest = join base (name ++ "/" ++ rest) := by
  have hlist : name.toList ≠ [] := by simpa using hne
  have hname : isAbsolute name = false := isAbsolute_of_not_mem hslash
  have hboth : isAbsolute (name ++ "/" ++ rest) = false := by
    rw [String.append_assoc, isAbsolute_append hne, hname]
  obtain ⟨between, hbetween⟩ := exists_join base hname
  -- the path up to the name does not end in a slash
  have hlast : (join base name).toList.getLast? = name.toList.getLast? := by
    rw [hbetween, String.toList_append, List.getLast?_append_of_ne_nil _ hlist]
  have hend : (join base name == "" || (join base name).toList.getLast? == some '/') = false := by
    rw [hlast, Bool.or_eq_false_iff, beq_eq_false_iff_ne, beq_eq_false_iff_ne, hbetween]
    exact ⟨by simp [hne], fun h => hslash (List.mem_of_getLast? h)⟩
  rw [join, hrest, if_neg Bool.false_ne_true, hend, if_neg Bool.false_ne_true]
  unfold join
  rw [hname, hboth, if_neg Bool.false_ne_true, if_neg Bool.false_ne_true]
  split <;> simp [String.append_assoc]

theorem isAbsolute_intercalate {names : List String} (hne : ∀ name ∈ names, name ≠ "")
    (hslash : ∀ name ∈ names, '/' ∉ name.toList) :
    isAbsolute (String.intercalate "/" names) = false := by
  cases names with
  | nil => rfl
  | cons name names =>
    have hname := isAbsolute_of_not_mem (hslash name List.mem_cons_self)
    cases names with
    | nil => simpa using hname
    | cons next names =>
      rw [String.intercalate_cons_cons, String.append_assoc,
        isAbsolute_append (hne name List.mem_cons_self), hname]

theorem exists_foldl_join (base : String) {names : List String}
    (hslash : ∀ name ∈ names, '/' ∉ name.toList) :
    ∃ rest, names.foldl join base = base ++ rest := by
  induction names generalizing base with
  | nil => exact ⟨"", by simp⟩
  | cons name names ih =>
    obtain ⟨hname, hslash⟩ := List.forall_mem_cons.1 hslash
    obtain ⟨between, hbetween⟩ := exists_join base (isAbsolute_of_not_mem hname)
    obtain ⟨rest, hrest⟩ := ih (join base name) hslash
    refine ⟨between ++ name ++ rest, ?_⟩
    rw [List.foldl_cons, hrest, hbetween]
    simp [String.append_assoc]

/-- To go on name by name is to go on with the names between slashes. -/
theorem foldl_join (base : String) {names : List String} (hnames : names ≠ [])
    (hne : ∀ name ∈ names, name ≠ "") (hslash : ∀ name ∈ names, '/' ∉ name.toList) :
    names.foldl join base = join base (String.intercalate "/" names) := by
  induction names generalizing base with
  | nil => exact absurd rfl hnames
  | cons name names ih =>
    obtain ⟨hname, hne⟩ := List.forall_mem_cons.1 hne
    obtain ⟨hfree, hslash⟩ := List.forall_mem_cons.1 hslash
    cases names with
    | nil => simp
    | cons next names =>
      rw [List.foldl_cons, ih _ (List.cons_ne_nil _ _) hne hslash,
        join_join base hname hfree (isAbsolute_intercalate hne hslash), String.intercalate_cons_cons]

/-! ## Folders of paths -/

theorem trimSteps_spec {steps : List String} (hne : steps ≠ []) :
    trimSteps steps ≠ [] ∧ ∃ stays, steps = stays ++ trimSteps steps
      ∧ ∀ step ∈ stays, isStay step = true := by
  induction steps with
  | nil => exact absurd rfl hne
  | cons step rest ih =>
    cases rest with
    | nil => exact ⟨List.cons_ne_nil _ _, [], rfl, fun _ h => nomatch h⟩
    | cons next rest =>
      rw [trimSteps]
      by_cases hstay : isStay step = true
      · obtain ⟨hkept, stays, hsplit, hstays⟩ := ih (List.cons_ne_nil _ _)
        rw [if_pos hstay]
        exact ⟨hkept, step :: stays, congrArg (step :: ·) hsplit,
        List.forall_mem_cons.2 ⟨hstay, hstays⟩⟩
      · rw [if_neg hstay]
        exact ⟨List.cons_ne_nil _ _, [], rfl, fun _ h => nomatch h⟩
      · simp

/-- The steps without those at the end that stay, except for the first one, which is kept. -/
def trimmed (steps : List String) : List String := (trimSteps steps.reverse).reverse

theorem trimmed_spec {steps : List String} (hne : steps ≠ []) :
    trimmed steps ≠ [] ∧ ∃ stays, steps = trimmed steps ++ stays
      ∧ ∀ step ∈ stays, isStay step = true := by
  have hreverse : steps.reverse ≠ [] := by simpa using hne
  obtain ⟨hkept, stays, hsplit, hstays⟩ := trimSteps_spec hreverse
  refine ⟨by simpa [trimmed] using hkept, stays.reverse, ?_, by simpa using hstays⟩
  rw [trimmed, ← List.reverse_append, ← hsplit, List.reverse_reverse]

theorem parent?_eq {path name : String} {front : List String}
    (hsteps : steps path = front ++ [name]) (hname : isStay name = false) :
    parent? path
      = some (if trimmed front = [""] then "/" else String.intercalate "/" (trimmed front)) := by
  have hlast : trimSteps (name :: front.reverse) = name :: front.reverse := by
    cases hreverse : front.reverse with
    | nil => rfl
    | cons next rest => rw [trimSteps, hname, if_neg Bool.false_ne_true]; simp
  unfold parent? trimmed
  rw [hsteps, List.reverse_append, List.reverse_singleton, List.singleton_append, hlast]
  split
  · rename_i h
    cases h
  · rename_i h
    obtain ⟨rfl, _⟩ := List.cons.inj h
    cases hname
  · rename_i h
    obtain ⟨_, rfl⟩ := List.cons.inj h
    split
    · rename_i hroot
      rw [hroot, List.reverse_singleton, if_pos rfl]
    · rename_i hroot
      rw [if_neg fun h => hroot (by simpa using congrArg List.reverse h)]

theorem rdropWhile_append_stays {kept stays : List String} (h : ∀ step ∈ stays, isStay step = true) :
    (kept ++ stays).rdropWhile isStay = kept.rdropWhile isStay := by
  rw [List.rdropWhile, List.reverse_append, List.dropWhile_append_of_pos (by simpa using h),
    List.rdropWhile]

theorem rdropWhile_append_names {front names : List String} (hne : names ≠ [])
    (h : ∀ name ∈ names, isStay name = false) :
    (front ++ names).rdropWhile isStay = front ++ names := by
  rw [List.rdropWhile_eq_self_iff]
  intro hlist
  have hmem : (front ++ names).getLast hlist ∈ names := by
    rw [List.getLast_append_of_ne_nil _ hne]
    exact List.getLast_mem hne
  rw [h _ hmem]
  simp

/-- Into a folder lead the steps of its path, except for steps at the end that stay. -/
theorem rdropWhile_stepsInto (folder : String) :
    (stepsInto folder).rdropWhile isStay = (steps folder).rdropWhile isStay := by
  have hempty : steps "" = [""] := rfl
  have hstay : ∀ step ∈ [""], isStay step = true := by decide
  unfold stepsInto
  obtain ⟨rfl, hjoin⟩ | ⟨front, hfolder, hjoin⟩ := join_cases folder
  · decide
  · rw [hjoin "" rfl, steps_append, hempty, List.dropLast_concat]
    rcases hfolder with rfl | rfl
    · rfl
    · rw [← String.append_empty (s := front ++ "/"), steps_append, hempty,
        rdropWhile_append_stays hstay]

theorem stepsInto_ne_nil {folder : String} (h : folder ≠ "") : stepsInto folder ≠ [] := by
  unfold stepsInto
  obtain ⟨hempty, _⟩ | ⟨front, _, hjoin⟩ := join_cases folder
  · exact absurd hempty h
  · have hlast : steps "" = [""] := rfl
    rw [hjoin "" rfl, steps_append, hlast, List.dropLast_concat]
    exact steps_ne_nil front

/-- The path without its last name is that of a folder. Its steps are those before the name, except
that steps at the end may be left out that stay. -/
theorem exists_parent {path name : String} {front : List String}
    (hsteps : steps path = front ++ [name]) (hname : isStay name = false) (hfront : front ≠ []) :
    ∃ folder rest, parent? path = some folder ∧ path = folder ++ rest ∧ folder ≠ ""
      ∧ (steps folder).rdropWhile isStay = front.rdropWhile isStay
      ∧ (front.rdropWhile isStay = front → steps folder = front) := by
  obtain ⟨hkept, stays, hsplit, hstays⟩ := trimmed_spec hfront
  rw [parent?_eq hsteps hname]
  generalize trimmed front = kept at *
  subst hsplit
  have hrest : path
        = String.intercalate "/" kept ++ ("/" ++ String.intercalate "/" (stays ++ [name])) := by
    rw [← intercalate_steps path, hsteps, List.append_assoc,
      String.intercalate_append_of_ne_nil hkept (by simp), String.append_assoc]
  have hsame : (kept ++ stays).rdropWhile isStay = kept.rdropWhile isStay :=
    rdropWhile_append_stays hstays
  rw [hsame]
  by_cases hroot : kept = [""]
  · subst hroot
    refine ⟨"/", String.intercalate "/" (stays ++ [name]), by simp, ?_, by decide, by decide, ?_⟩
    · rw [hrest]
      simp
    · intro h
      cases h
  · have hkeptsteps : steps (String.intercalate "/" kept) = kept := by
      refine steps_intercalate hkept fun step hstep => ?_
      have hmem : step ∈ steps path := by
        rw [hsteps, List.append_assoc]
        exact List.mem_append_left _ hstep
      exact not_mem_of_mem_steps hmem
    rw [if_neg hroot]
    refine ⟨_, _, rfl, hrest, ?_, by rw [hkeptsteps], ?_⟩
    · intro hempty
      rw [hempty] at hkeptsteps
      exact hroot hkeptsteps.symm
    · rw [hkeptsteps]
      intro h
      have hshort : kept ++ stays <+: kept := h ▸ List.rdropWhile_prefix isStay _
      exact (List.prefix_append kept stays).eq_of_length_le hshort.length_le

end LinkSet.PathText
