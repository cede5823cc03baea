/-!
# Pieces of text

Texts are cut at a separator, and a cut text can be put together again.

Main statements: joining the pieces gives the text back (`join_pieces`), no piece contains the
separator (`not_mem_of_mem_pieces`), the pieces of a text with a separator in it are those before and
those behind it (`pieces_append`), and joined texts are the pieces again (`pieces_join`).
-/

namespace LinkSet.Text

/-- The pieces of a text between the separators. There is always at least one. -/
def pieces (separator : Char) : List Char → List (List Char)
  | [] => [[]]
  | c :: rest =>
    if c = separator then [] :: pieces separator rest
    else
      match pieces separator rest with
      | [] => [[c]]
      | piece :: others => (c :: piece) :: others

/-- The pieces, with separators between them. -/
def join (separator : Char) : List (List Char) → List Char
  | [] => []
  | [piece] => piece
  | piece :: others => piece ++ separator :: join separator others

/-- What stands before and behind the first separator, if there is one. -/
def cut? (separator : Char) (text : List Char) : Option (List Char × List Char) :=
  match text.dropWhile (· ≠ separator) with
  | [] => none
  | _ :: rest => some (text.takeWhile (· ≠ separator), rest)

/-- What stands before and behind the last separator, if there is one. -/
def cutLast? (separator : Char) (text : List Char) : Option (List Char × List Char) :=
  (cut? separator text.reverse).map fun (behind, before) => (before.reverse, behind.reverse)

/-- What is left of a list without the given start, if it starts so. -/
def dropStart? {α : Type} [BEq α] (start text : List α) : Option (List α) :=
  if start.isPrefixOf text then some (text.drop start.length) else none

/-- What is left of a text without the given end, if it ends so. -/
def dropEnd? (ending text : List Char) : Option (List Char) :=
  if ending.isSuffixOf text then some (text.take (text.length - ending.length)) else none

theorem dropStart?_eq_some {α : Type} [BEq α] [LawfulBEq α] {start text rest : List α} :
    dropStart? start text = some rest ↔ text = start ++ rest := by
  unfold dropStart?
  constructor
  · intro h
    split at h
    · rename_i hs
      obtain ⟨back, rfl⟩ := List.isPrefixOf_iff_prefix.1 hs
      simp at h
      rw [h]
    · simp at h
  · rintro rfl
    simp

theorem dropEnd?_eq_some {ending text rest : List Char} :
    dropEnd? ending text = some rest ↔ text = rest ++ ending := by
  unfold dropEnd?
  constructor
  · intro h
    split at h
    · rename_i hs
      obtain ⟨front, rfl⟩ := List.isSuffixOf_iff_suffix.1 hs
      simp at h
      rw [h]
    · simp at h
  · rintro rfl
    simp

theorem pieces_ne_nil (separator : Char) (text : List Char) : pieces separator text ≠ [] := by
  cases text with
  | nil => simp [pieces]
  | cons c rest =>
    unfold pieces
    split
    · simp
    · split <;> simp

/-- Joining the pieces gives the text back. -/
theorem join_pieces (separator : Char) (text : List Char) :
    join separator (pieces separator text) = text := by
  induction text with
  | nil => rfl
  | cons c rest ih =>
    unfold pieces
    have hne := pieces_ne_nil separator rest
    split
    · rename_i h
      cases hp : pieces separator rest with
      | nil => exact absurd hp hne
      | cons piece others =>
        rw [hp] at ih
        simp [join, ih, h]
    · cases hp : pieces separator rest with
      | nil => exact absurd hp hne
      | cons piece others =>
        rw [hp] at ih
        cases others with
        | nil => simpa [join] using ih
        | cons _ _ => simpa [join] using ih

/-- No piece contains the separator. -/
theorem not_mem_of_mem_pieces {separator : Char} {text piece : List Char}
    (h : piece ∈ pieces separator text) : separator ∉ piece := by
  induction text generalizing piece with
  | nil => simp [pieces] at h; simp [h]
  | cons c rest ih =>
    unfold pieces at h
    split at h
    · rcases List.mem_cons.1 h with rfl | h
      · simp
      · exact ih h
    · rename_i hc
      cases hp : pieces separator rest with
      | nil => exact absurd hp (pieces_ne_nil separator rest)
      | cons first others =>
        rw [hp] at h ih
        rcases List.mem_cons.1 h with rfl | h
        · simp only [List.mem_cons, not_or]
          exact ⟨fun e => hc e.symm, ih (List.mem_cons_self ..)⟩
        · exact ih (List.mem_cons_of_mem _ h)

/-- A text without separators is one piece. -/
theorem pieces_of_not_mem {separator : Char} {text : List Char} (h : separator ∉ text) :
    pieces separator text = [text] := by
  induction text with
  | nil => rfl
  | cons c rest ih =>
    have hc : c ≠ separator := fun heq => h (heq ▸ List.mem_cons_self)
    have hrest : separator ∉ rest := fun hmem => h (List.mem_cons_of_mem _ hmem)
    rw [pieces, if_neg hc, ih hrest]

/-- The pieces of texts with a separator between them are those of each. -/
theorem pieces_append (separator : Char) (before behind : List Char) :
    pieces separator (before ++ separator :: behind)
      = pieces separator before ++ pieces separator behind := by
  induction before with
  | nil => simp [pieces]
  | cons c before ih =>
    rw [List.cons_append, pieces, pieces, ih]
    cases hp : pieces separator before with
    | nil => exact absurd hp (pieces_ne_nil separator before)
    | cons piece others => split <;> rfl

/-- The pieces of joined texts are these texts, if there are any and none has a separator. -/
theorem pieces_join {separator : Char} {texts : List (List Char)} (hne : texts ≠ [])
    (h : ∀ text ∈ texts, separator ∉ text) : pieces separator (join separator texts) = texts := by
  induction texts with
  | nil => exact absurd rfl hne
  | cons text others ih =>
    obtain ⟨htext, hothers⟩ := List.forall_mem_cons.1 h
    cases others with
    | nil => exact pieces_of_not_mem htext
    | cons next others =>
      rw [join, pieces_append, pieces_of_not_mem htext, ih (List.cons_ne_nil _ _) hothers]
      · rfl
      · exact List.cons_ne_nil _ _

theorem join_eq_intercalate (separator : Char) (texts : List (List Char)) :
    join separator texts = [separator].intercalate texts := by
  induction texts with
  | nil => rfl
  | cons text others ih =>
    cases others with
    | nil => simp [join]
    | cons next others =>
      rw [join, ih, List.intercalate_cons_cons, List.append_assoc]
      · rfl
      · exact List.cons_ne_nil _ _

theorem toList_intercalate {separator : String} {c : Char} (h : separator.toList = [c])
    (texts : List String) :
    (separator.intercalate texts).toList = join c (texts.map String.toList) := by
  rw [String.toList_intercalate, h, join_eq_intercalate]

/-- The pieces of texts with a separator between them are these texts, if there are any and none has
a separator. -/
theorem pieces_intercalate {separator : String} {c : Char} (h : separator.toList = [c])
    {texts : List String} (hne : texts ≠ []) (hfree : ∀ text ∈ texts, c ∉ text.toList) :
    pieces c (separator.intercalate texts).toList = texts.map String.toList := by
  have hmap : texts.map String.toList ≠ [] := by
    rwa [Ne, List.map_eq_nil_iff]
  rw [toList_intercalate h, pieces_join hmap]
  intro text htext
  obtain ⟨text', htext', rfl⟩ := List.mem_map.1 htext
  exact hfree text' htext'

/-- A text is cut at its first separator. -/
theorem cut?_append {separator : Char} {before : List Char} (h : separator ∉ before)
    (behind : List Char) : cut? separator (before ++ separator :: behind) = some (before, behind) := by
  have hb : ∀ c ∈ before, (decide (c ≠ separator)) = true := by
    intro c hc
    simp only [decide_eq_true_eq]
    rintro rfl
    exact h hc
  unfold cut?
  rw [List.dropWhile_append_of_pos hb, List.takeWhile_append_of_pos hb]
  simp

/-- What is cut at a separator was put together with it, and the first part is free of it. -/
theorem cut?_eq_some {separator : Char} {text before behind : List Char}
    (h : cut? separator text = some (before, behind)) :
    text = before ++ separator :: behind ∧ separator ∉ before := by
  unfold cut? at h
  split at h
  · simp at h
  · rename_i c rest hd
    simp only [Option.some.injEq, Prod.mk.injEq] at h
    obtain ⟨rfl, rfl⟩ := h
    have hsplit := List.takeWhile_append_dropWhile (p := (· ≠ separator)) (l := text)
    have hc : c = separator := by
      have hne := List.head?_dropWhile_not (· ≠ separator) text
      rw [hd] at hne
      simpa using hne
    rw [hd, hc] at hsplit
    refine ⟨hsplit.symm, fun hm => ?_⟩
    have hall := List.all_takeWhile (p := (· ≠ separator)) (l := text)
    simpa using List.all_eq_true.1 hall separator hm

theorem cutLast?_append {separator : Char} {behind : List Char} (h : separator ∉ behind)
    (before : List Char) :
    cutLast? separator (before ++ separator :: behind) = some (before, behind) := by
  have hreverse : (before ++ separator :: behind).reverse
      = behind.reverse ++ separator :: before.reverse := by simp
  rw [cutLast?, hreverse, cut?_append (by simpa using h)]
  simp

theorem cutLast?_eq_some {separator : Char} {text before behind : List Char}
    (h : cutLast? separator text = some (before, behind)) :
    text = before ++ separator :: behind := by
  unfold cutLast? at h
  obtain ⟨⟨behind', before'⟩, hcut, hparts⟩ := Option.map_eq_some_iff.1 h
  obtain ⟨hbefore, hbehind⟩ := Prod.mk.inj hparts
  have htext := (cut?_eq_some hcut).1
  rw [← hbefore, ← hbehind, ← List.reverse_reverse text, htext]
  simp

end LinkSet.Text
