/-!
# UTF-16

The 16-bit code units of a text. A character below `U+10000` is one unit; any other is a pair of
surrogates, the lead from `D800` to `DBFF` and the trail from `DC00` to `DFFF`. Reading is strict: a
surrogate outside a pair is refused.

Main statement: a text reads back from its units (`ofUnits?_units`).
-/

namespace LinkSet.Text.Utf16

/-- The code units of one character. -/
def unitsOfChar (c : Char) : List UInt16 :=
  if c.toNat < 0x10000 then
    [UInt16.ofNat c.toNat]
  else
    [UInt16.ofNat (0xD800 + (c.toNat - 0x10000) / 0x400),
      UInt16.ofNat (0xDC00 + (c.toNat - 0x10000) % 0x400)]

/-- The code units of a text. -/
def units (text : List Char) : List UInt16 :=
  text.flatMap unitsOfChar

/-- A unit that opens a surrogate pair. -/
def IsLead (u : UInt16) : Prop := 0xD800 ≤ u.toNat ∧ u.toNat < 0xDC00

/-- A unit that closes a surrogate pair. -/
def IsTrail (u : UInt16) : Prop := 0xDC00 ≤ u.toNat ∧ u.toNat < 0xE000

instance (u : UInt16) : Decidable (IsLead u) := inferInstanceAs (Decidable (_ ∧ _))

instance (u : UInt16) : Decidable (IsTrail u) := inferInstanceAs (Decidable (_ ∧ _))

/-- The character of a surrogate pair. -/
def charOfPair (lead trail : UInt16) : Char :=
  Char.ofNat (0x10000 + (lead.toNat - 0xD800) * 0x400 + (trail.toNat - 0xDC00))

/-- Reads units behind the characters `done`, which are kept in reverse. -/
def readFrom? (done : List Char) : List UInt16 → Option (List Char)
  | [] => some done.reverse
  | u :: rest =>
    if IsLead u then
      match rest with
      | [] => none
      | v :: rest => if IsTrail v then readFrom? (charOfPair u v :: done) rest else none
    else if IsTrail u then none
    else readFrom? (Char.ofNat u.toNat :: done) rest

/-- The text with the given units, if every surrogate is in a pair. -/
def ofUnits? (units : List UInt16) : Option (List Char) :=
  readFrom? [] units

/-- One character is read from its units. -/
theorem readFrom?_unitsOfChar (done : List Char) (c : Char) (rest : List UInt16) :
    readFrom? done (unitsOfChar c ++ rest) = readFrom? (c :: done) rest := by
  have valid := c.valid
  have bound : c.toNat < 0x110000 := by
    rcases valid with h | h
    · exact Nat.lt_trans h (by decide)
    · exact h.2
  unfold unitsOfChar
  split
  · have hv : (UInt16.ofNat c.toNat).toNat = c.toNat := by
      rw [UInt16.toNat_ofNat']; omega
    have hs : c.toNat < 0xD800 ∨ 0xE000 ≤ c.toNat := by
      rcases valid with h | h
      · exact .inl h
      · exact .inr (Nat.succ_le_of_lt h.1)
    have hl : ¬ IsLead (UInt16.ofNat c.toNat) := by
      intro h; unfold IsLead at h; omega
    have ht : ¬ IsTrail (UInt16.ofNat c.toNat) := by
      intro h; unfold IsTrail at h; omega
    rw [List.singleton_append, readFrom?.eq_def]
    simp only [hl, ht, if_false, hv, Char.ofNat_toNat]
  · have hl : (UInt16.ofNat (0xD800 + (c.toNat - 0x10000) / 0x400)).toNat
        = 0xD800 + (c.toNat - 0x10000) / 0x400 := by
      rw [UInt16.toNat_ofNat']; omega
    have ht : (UInt16.ofNat (0xDC00 + (c.toNat - 0x10000) % 0x400)).toNat
        = 0xDC00 + (c.toNat - 0x10000) % 0x400 := by
      rw [UInt16.toNat_ofNat']; omega
    have isLead : IsLead (UInt16.ofNat (0xD800 + (c.toNat - 0x10000) / 0x400)) := by
      unfold IsLead; omega
    have isTrail : IsTrail (UInt16.ofNat (0xDC00 + (c.toNat - 0x10000) % 0x400)) := by
      unfold IsTrail; omega
    have hc : charOfPair (UInt16.ofNat (0xD800 + (c.toNat - 0x10000) / 0x400))
        (UInt16.ofNat (0xDC00 + (c.toNat - 0x10000) % 0x400)) = c := by
      unfold charOfPair
      rw [hl, ht]
      rw [show 0x10000 + (0xD800 + (c.toNat - 0x10000) / 0x400 - 0xD800) * 0x400
        + (0xDC00 + (c.toNat - 0x10000) % 0x400 - 0xDC00) = c.toNat by omega]
      exact Char.ofNat_toNat c
    rw [List.cons_append, List.singleton_append, readFrom?.eq_def]
    simp only [isLead, isTrail, if_true, hc]

/-- A text reads back from its units. -/
theorem ofUnits?_units (text : List Char) : ofUnits? (units text) = some text := by
  suffices h : ∀ done, readFrom? done (units text) = some (done.reverse ++ text) from h []
  induction text with
  | nil => intro done; simp [units, readFrom?]
  | cons c text ih =>
    intro done
    rw [units, List.flatMap_cons, readFrom?_unitsOfChar]
    exact (ih (c :: done)).trans (by simp)

end LinkSet.Text.Utf16
