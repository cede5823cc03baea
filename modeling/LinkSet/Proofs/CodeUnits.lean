import LinkSet.Text.Utf16

/-!
# Code units of texts

Units are read exactly if they are those of a text (`ofUnits?_eq_some_iff`), and this is so unless a
surrogate among them is outside a pair (`ofUnits?_eq_none_iff`).
-/

namespace LinkSet.Text.Utf16

variable {u v : UInt16} {us rest : List UInt16} {text : List Char}

/-! ## Units that are read -/

theorem not_isTrail_of_isLead (h : IsLead u) : ¬ IsTrail u := by
  unfold IsLead at h
  unfold IsTrail
  omega

theorem toNat_ofNat_of_isValidChar {n : Nat} (h : n.isValidChar) : (Char.ofNat n).toNat = n := by
  rw [Char.ofNat, dif_pos h]
  rfl

/-- A pair of surrogates stands for a character above `U+FFFF`. -/
theorem unitsOfChar_charOfPair (hu : IsLead u) (hv : IsTrail v) :
    unitsOfChar (charOfPair u v) = [u, v] := by
  unfold IsLead at hu
  unfold IsTrail at hv
  let n := 0x10000 + (u.toNat - 0xD800) * 0x400 + (v.toNat - 0xDC00)
  have hvalid : n.isValidChar := .inr (by omega)
  have hn : (charOfPair u v).toNat = n := toNat_ofNat_of_isValidChar hvalid
  have hlead : 0xD800 + (n - 0x10000) / 0x400 = u.toNat := by omega
  have htrail : 0xDC00 + (n - 0x10000) % 0x400 = v.toNat := by omega
  have hlarge : ¬ n < 0x10000 := by omega
  rw [unitsOfChar, hn, if_neg hlarge, hlead, htrail, UInt16.ofNat_toNat, UInt16.ofNat_toNat]

/-- A unit that is no surrogate stands for a character. -/
theorem unitsOfChar_ofNat (hlead : ¬ IsLead u) (htrail : ¬ IsTrail u) :
    unitsOfChar (Char.ofNat u.toNat) = [u] := by
  have hlt := u.toNat_lt
  unfold IsLead at hlead
  unfold IsTrail at htrail
  have hvalid : u.toNat.isValidChar := by
    unfold Nat.isValidChar
    omega
  rw [unitsOfChar, toNat_ofNat_of_isValidChar hvalid, if_pos hlt, UInt16.ofNat_toNat]

theorem units_of_readFrom? {done : List Char} (h : readFrom? done us = some text) :
    units text = units done.reverse ++ us := by
  fun_induction readFrom? done us with
  | case1 done =>
    obtain rfl := Option.some.inj h
    rw [List.append_nil]
  | case2 => cases h
  | case3 done u hu v rest hv ih =>
    rw [ih h, List.reverse_cons]
    simp only [units, List.flatMap_append, List.flatMap_singleton, unitsOfChar_charOfPair hu hv,
      List.append_assoc, List.cons_append, List.nil_append]
  | case4 => cases h
  | case5 => cases h
  | case6 done u rest hlead htrail ih =>
    rw [ih h, List.reverse_cons]
    simp only [units, List.flatMap_append, List.flatMap_singleton,
      unitsOfChar_ofNat hlead htrail, List.append_assoc, List.cons_append, List.nil_append]

/-- What is read from some units is the text that has them. -/
theorem ofUnits?_eq_some_iff : ofUnits? us = some text ↔ units text = us := by
  constructor
  · exact units_of_readFrom?
  · rintro rfl
    exact ofUnits?_units text

/-! ## Surrogates outside a pair -/

/-- At this place stands a surrogate that opens a pair and no one behind it closes this pair, or one
that closes a pair and no one in front of it has opened it. -/
def UnpairedAt (us : List UInt16) (i : Nat) : Prop :=
  ∃ u, us[i]? = some u
    ∧ ((IsLead u ∧ ∀ v, us[i + 1]? = some v → ¬ IsTrail v)
      ∨ (IsTrail u ∧ ∀ j v, j + 1 = i → us[j]? = some v → ¬ IsLead v))

/-- Some surrogate is outside a pair. -/
def Unpaired (us : List UInt16) : Prop := ∃ i, UnpairedAt us i

theorem unpairedAt_zero :
    UnpairedAt (u :: rest) 0 ↔ (IsLead u ∧ ∀ v, rest.head? = some v → ¬ IsTrail v) ∨ IsTrail u := by
  constructor
  · rintro ⟨_, hu, hcases⟩
    obtain rfl := Option.some.inj hu
    rcases hcases with ⟨hlead, hnext⟩ | ⟨htrail, _⟩
    · exact .inl ⟨hlead, fun v hv => hnext v (by rwa [List.head?_eq_getElem?] at hv)⟩
    · exact .inr htrail
  · rintro (⟨hlead, hnext⟩ | htrail)
    · exact ⟨u, rfl, .inl ⟨hlead, fun v hv => hnext v (by rwa [List.head?_eq_getElem?])⟩⟩
    · exact ⟨u, rfl, .inr ⟨htrail, fun j v hj => absurd hj (Nat.succ_ne_zero j)⟩⟩

/-- Whether a surrogate is in a pair depends only on its neighbours. -/
theorem unpairedAt_succ {i : Nat} (h : i ≠ 0 ∨ ¬ IsLead u) :
    UnpairedAt (u :: rest) (i + 1) ↔ UnpairedAt rest i := by
  have hbefore : (∀ j v, j + 1 = i + 1 → (u :: rest)[j]? = some v → ¬ IsLead v)
      ↔ ∀ j v, j + 1 = i → rest[j]? = some v → ¬ IsLead v := by
    constructor
    · intro hall j v hj hv
      exact hall (j + 1) v (by omega) (by rwa [List.getElem?_cons_succ])
    · intro hall j v hj hv
      obtain rfl : j = i := by omega
      cases j with
      | zero =>
        obtain rfl := Option.some.inj hv
        exact h.resolve_left fun hne => hne rfl
      | succ j => exact hall j v rfl (by rwa [List.getElem?_cons_succ] at hv)
  simp only [UnpairedAt, List.getElem?_cons_succ, hbefore]

theorem unpaired_cons (h : ¬ IsLead u) :
    Unpaired (u :: rest) ↔ IsTrail u ∨ Unpaired rest := by
  constructor
  · rintro ⟨i, hi⟩
    cases i with
    | zero => exact .inl ((unpairedAt_zero.1 hi).resolve_left fun hlead => h hlead.1)
    | succ i => exact .inr ⟨i, (unpairedAt_succ (.inr h)).1 hi⟩
  · rintro (htrail | ⟨i, hi⟩)
    · exact ⟨0, unpairedAt_zero.2 (.inr htrail)⟩
    · exact ⟨i + 1, (unpairedAt_succ (.inr h)).2 hi⟩

theorem unpaired_pair (hu : IsLead u) (hv : IsTrail v) :
    Unpaired (u :: v :: rest) ↔ Unpaired rest := by
  have hlead : ¬ IsLead v := fun h => not_isTrail_of_isLead h hv
  constructor
  · rintro ⟨i, hi⟩
    match i with
    | 0 =>
      rcases unpairedAt_zero.1 hi with ⟨_, hnext⟩ | htrail
      · exact absurd hv (hnext v rfl)
      · exact absurd htrail (not_isTrail_of_isLead hu)
    | 1 =>
      obtain ⟨w, hw, ⟨hleadw, _⟩ | ⟨_, hbefore⟩⟩ := hi
      · obtain rfl := Option.some.inj hw
        exact absurd hleadw hlead
      · exact absurd hu (hbefore 0 u rfl rfl)
    | i + 2 =>
      have hbehind := (unpairedAt_succ (.inl (Nat.succ_ne_zero i))).1 hi
      exact ⟨i, (unpairedAt_succ (.inr hlead)).1 hbehind⟩
  · rintro ⟨i, hi⟩
    have hbehind := (unpairedAt_succ (u := v) (.inr hlead)).2 hi
    exact ⟨i + 2, (unpairedAt_succ (.inl (Nat.succ_ne_zero i))).2 hbehind⟩

/-- Units are refused exactly if a surrogate is outside a pair. -/
theorem ofUnits?_eq_none_iff : ofUnits? us = none ↔ Unpaired us := by
  suffices h : ∀ done, readFrom? done us = none ↔ Unpaired us from h []
  intro done
  fun_induction readFrom? done us with
  | case1 done => simp [Unpaired, UnpairedAt]
  | case2 done u hu =>
    exact iff_of_true rfl ⟨0, unpairedAt_zero.2 (.inl ⟨hu, fun v hv => nomatch hv⟩)⟩
  | case3 done u hu v rest hv ih => rw [ih, unpaired_pair hu hv]
  | case4 done u hu v rest hv =>
    refine iff_of_true rfl ⟨0, unpairedAt_zero.2 (.inl ⟨hu, fun w hw => ?_⟩)⟩
    obtain rfl := Option.some.inj hw
    exact hv
  | case5 done u rest hlead htrail =>
    exact iff_of_true rfl ⟨0, unpairedAt_zero.2 (.inr htrail)⟩
  | case6 done u rest hlead htrail ih =>
    rw [ih, unpaired_cons hlead, or_iff_right htrail]

end LinkSet.Text.Utf16
