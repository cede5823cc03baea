import LinkSet.Text.Blank
import LinkSet.Text.Pieces
import Mathlib.Data.List.DropRight

/-!
# Trimmed texts

A text is a trimmed text with white space around it, in one way only (`Text.trim_eq_iff`). White space
around a text that is cut at a separator goes to the first and to the last piece, and is lost when
the pieces are trimmed (`Text.Pads.map_trim_pieces`).
-/

namespace LinkSet.Text

variable {separator : Char} {before behind text text' : List Char}

/-! ## White space around a text -/

/-- The text is white space and nothing else. -/
def IsBlankText (text : List Char) : Prop := ∀ c ∈ text, isBlank c = true

/-- There is no white space at the ends of the text. -/
def IsBare (text : List Char) : Prop :=
  (∀ c, text.head? = some c → isBlank c = false) ∧ ∀ c, text.getLast? = some c → isBlank c = false

/-- The second text is the first one with white space around it. -/
def Pads (text padded : List Char) : Prop :=
  ∃ before behind, IsBlankText before ∧ IsBlankText behind ∧ padded = before ++ text ++ behind

theorem trimStart_append (hbefore : IsBlankText before) (text : List Char) :
    trimStart (before ++ text) = trimStart text :=
  List.dropWhile_append_of_pos hbefore

theorem trimEnd_append (hbehind : IsBlankText behind) (text : List Char) :
    trimEnd (text ++ behind) = trimEnd text := by
  have hreverse : IsBlankText behind.reverse := by
    intro c hc
    exact hbehind c (List.mem_reverse.1 hc)
  rw [trimEnd, List.reverse_append, trimStart_append hreverse, trimEnd]

theorem exists_trimStart (text : List Char) :
    ∃ before, IsBlankText before ∧ text = before ++ trimStart text := by
  refine ⟨text.takeWhile isBlank, ?_, List.takeWhile_append_dropWhile.symm⟩
  intro c hc
  exact List.all_eq_true.1 List.all_takeWhile c hc

theorem exists_trimEnd (text : List Char) :
    ∃ behind, IsBlankText behind ∧ text = trimEnd text ++ behind := by
  obtain ⟨before, hbefore, htext⟩ := exists_trimStart text.reverse
  refine ⟨before.reverse, ?_, ?_⟩
  · intro c hc
    exact hbefore c (List.mem_reverse.1 hc)
  · rw [trimEnd, ← List.reverse_append, ← htext, List.reverse_reverse]

theorem pads_trim (text : List Char) : Pads (trim text) text := by
  obtain ⟨before, hbefore, htext⟩ := exists_trimStart text
  obtain ⟨behind, hbehind, hrest⟩ := exists_trimEnd (trimStart text)
  refine ⟨before, behind, hbefore, hbehind, ?_⟩
  rw [trim, List.append_assoc, ← hrest, ← htext]

theorem trimStart_eq_self (h : ∀ c, text.head? = some c → isBlank c = false) :
    trimStart text = text := by
  cases text with
  | nil => rfl
  | cons c rest => exact List.dropWhile_cons_of_neg (by rw [h c rfl]; decide)

theorem trimEnd_eq_self (h : ∀ c, text.getLast? = some c → isBlank c = false) :
    trimEnd text = text := by
  have hhead : ∀ c, text.reverse.head? = some c → isBlank c = false := by
    intro c hc
    rw [List.head?_reverse] at hc
    exact h c hc
  rw [trimEnd, trimStart_eq_self hhead, List.reverse_reverse]

theorem head?_trimStart (text : List Char) (c : Char) (hc : (trimStart text).head? = some c) :
    isBlank c = false := by
  have hnot := List.head?_dropWhile_not isBlank text
  rw [trimStart] at hc
  rw [hc] at hnot
  exact hnot

theorem getLast?_trimEnd (text : List Char) (c : Char) (hc : (trimEnd text).getLast? = some c) :
    isBlank c = false := by
  rw [trimEnd, List.getLast?_reverse] at hc
  exact head?_trimStart text.reverse c hc

/-- White space around a text is lost when it is trimmed. -/
theorem Pads.trim_eq (h : Pads text text') : trim text' = trim text := by
  obtain ⟨before, behind, hbefore, hbehind, rfl⟩ := h
  obtain ⟨start, hstart, htext⟩ := exists_trimStart text
  have hleft : trimStart (before ++ text ++ behind) = trimStart (trimStart text ++ behind) := by
    rw [List.append_assoc, trimStart_append hbefore]
    conv_lhs => rw [htext]
    rw [List.append_assoc, trimStart_append hstart]
  rw [trim, trim, hleft]
  by_cases hempty : trimStart text = []
  · -- the text is white space itself, so nothing is left of either
    have hnothing : trimStart behind = [] := by
      have happend := trimStart_append hbehind []
      rwa [List.append_nil] at happend
    rw [hempty, List.nil_append, hnothing]
  · have hhead : ∀ c, (trimStart text ++ behind).head? = some c → isBlank c = false := by
      intro c hc
      rw [List.head?_append_of_ne_nil _ hempty] at hc
      exact head?_trimStart text c hc
    rw [trimStart_eq_self hhead, trimEnd_append hbehind]

theorem isBare_trim (text : List Char) : IsBare (trim text) := by
  refine ⟨?_, getLast?_trimEnd _⟩
  intro c hc
  obtain ⟨behind, _, hrest⟩ := exists_trimEnd (trimStart text)
  have hhead : (trimStart text).head? = some c := by
    rw [hrest, List.head?_append, ← trim, hc]
    rfl
  exact head?_trimStart text c hhead

theorem IsBare.trim_eq (h : IsBare text) : trim text = text := by
  rw [trim, trimStart_eq_self h.1, trimEnd_eq_self h.2]

theorem isBare_iff : IsBare text ↔ trim text = text := by
  constructor
  · exact IsBare.trim_eq
  · intro h
    rw [← h]
    exact isBare_trim text

instance : Decidable (IsBare text) := decidable_of_iff _ isBare_iff.symm

/-- A text is trimmed to the one without white space at its ends that it is made of. -/
theorem trim_eq_iff : trim text' = text ↔ IsBare text ∧ Pads text text' := by
  constructor
  · rintro rfl
    exact ⟨isBare_trim text', pads_trim text'⟩
  · rintro ⟨hbare, hpads⟩
    rw [hpads.trim_eq, hbare.trim_eq]

/-! ## Trimmed pieces -/

theorem not_mem_of_isBlankText (hseparator : isBlank separator = false) (h : IsBlankText text) :
    separator ∉ text := by
  intro hmem
  rw [h separator hmem] at hseparator
  cases hseparator

theorem Pads.not_mem (hseparator : isBlank separator = false) (h : Pads text text')
    (hfree : separator ∉ text) : separator ∉ text' := by
  obtain ⟨before, behind, hbefore, hbehind, rfl⟩ := h
  have hleft := not_mem_of_isBlankText hseparator hbefore
  have hright := not_mem_of_isBlankText hseparator hbehind
  simp only [List.mem_append, not_or]
  exact ⟨⟨hleft, hfree⟩, hright⟩

/-- A text without separators in front of another one is part of its first piece. -/
theorem exists_pieces_append_left (hbefore : separator ∉ before) (text : List Char) :
    ∃ first others, pieces separator text = first :: others
      ∧ pieces separator (before ++ text) = (before ++ first) :: others := by
  induction before with
  | nil =>
    obtain ⟨first, others, hpieces⟩ := List.exists_cons_of_ne_nil (pieces_ne_nil separator text)
    exact ⟨first, others, hpieces, hpieces⟩
  | cons c before ih =>
    have hc : c ≠ separator := fun heq => hbefore (heq ▸ List.mem_cons_self)
    obtain ⟨first, others, hpieces, happend⟩ := ih fun hmem => hbefore (List.mem_cons_of_mem _ hmem)
    refine ⟨first, others, hpieces, ?_⟩
    rw [List.cons_append, pieces, if_neg hc, happend]
    rfl

/-- A text without separators behind another one is part of its last piece. -/
theorem exists_pieces_append_right (hbehind : separator ∉ behind) (text : List Char) :
    ∃ others last, pieces separator text = others ++ [last]
      ∧ pieces separator (text ++ behind) = others ++ [last ++ behind] := by
  induction text with
  | nil => exact ⟨[], [], rfl, pieces_of_not_mem hbehind⟩
  | cons c text ih =>
    obtain ⟨others, last, hpieces, happend⟩ := ih
    rw [List.cons_append, pieces, pieces, hpieces, happend]
    by_cases hc : c = separator
    · refine ⟨[] :: others, last, ?_, ?_⟩
      · rw [if_pos hc]
        rfl
      · rw [if_pos hc]
        rfl
    · rw [if_neg hc, if_neg hc]
      cases others with
      | nil => exact ⟨[], c :: last, rfl, rfl⟩
      | cons first others => exact ⟨(c :: first) :: others, last, rfl, rfl⟩

/-- White space around a text is lost when its pieces are trimmed. -/
theorem Pads.map_trim_pieces (hseparator : isBlank separator = false) (h : Pads text text') :
    (pieces separator text').map trim = (pieces separator text).map trim := by
  obtain ⟨before, behind, hbefore, hbehind, rfl⟩ := h
  obtain ⟨first, rest, hfirst, happend⟩ :=
    exists_pieces_append_left (not_mem_of_isBlankText hseparator hbefore) text
  obtain ⟨others, last, hlast, happend'⟩ :=
    exists_pieces_append_right (not_mem_of_isBlankText hseparator hbehind) (before ++ text)
  have hpadded : Pads last (last ++ behind) := ⟨[], behind, by simp [IsBlankText], hbehind, rfl⟩
  have hpadded' : Pads first (before ++ first) :=
    ⟨before, [], hbefore, by simp [IsBlankText], (List.append_nil _).symm⟩
  calc (pieces separator (before ++ text ++ behind)).map trim
      = others.map trim ++ [trim (last ++ behind)] := by rw [happend', List.map_append]; rfl
    _ = (others ++ [last]).map trim := by rw [hpadded.trim_eq, List.map_append]; rfl
    _ = trim (before ++ first) :: rest.map trim := by rw [← hlast, happend, List.map_cons]
    _ = (pieces separator text).map trim := by rw [hpadded'.trim_eq, hfirst, List.map_cons]

end LinkSet.Text
