import LinkSet.Names
import LinkSet.Text.Utf8

/-!
# The order of names

Sets of names are listed in the order of code points. This is also the order of UTF-8 bytes, since a
character that comes later has greater bytes: it has a greater lead byte, or it has the same lead
byte and differs in a continuation (`encodeChar_lt`). So names are listed in increasing order of
their UTF-8 bytes (`NameSet.pairwise_bytes_toList`).
-/

namespace LinkSet

namespace Utf8

/-! ## Characters -/

variable {a b : UInt8} {xs ys : Bytes}

theorem cons_lt_of_lt (h : a.toNat < b.toNat) : a :: xs < b :: ys :=
  List.cons_lt_cons_iff.2 (.inl h)

theorem cons_lt_of_le (hle : a.toNat ≤ b.toNat) (hlt : a.toNat = b.toNat → xs < ys) :
    a :: xs < b :: ys := by
  rcases Nat.lt_or_eq_of_le hle with h | h
  · exact cons_lt_of_lt h
  · exact List.cons_lt_cons_iff.2 (.inr ⟨UInt8.toNat_inj.1 h, hlt h⟩)

/-- A character that comes later has greater bytes, whatever stands behind them. -/
theorem encodeChar_lt {c d : Char} (h : c < d) (xs ys : Bytes) :
    String.utf8EncodeChar c ++ xs < String.utf8EncodeChar d ++ ys := by
  have hlt : c.toNat < d.toNat := h
  have hd := toNat_lt_of_char d
  -- among characters of as many bytes, the first byte that differs decides
  by_cases h₁ : d.toNat ≤ 0x7F
  · rw [encodeChar_of_one h₁, encodeChar_of_one (by omega)]
    refine cons_lt_of_lt ?_
    simp only [UInt8.toNat_ofNat']
    omega
  by_cases h₂ : 0x7F < c.toNat ∧ d.toNat ≤ 0x7FF
  · rw [encodeChar_of_two h₂.1 (by omega), encodeChar_of_two (by omega) h₂.2]
    refine cons_lt_of_le ?_ fun e₁ => cons_lt_of_lt ?_
    all_goals
      simp only [UInt8.toNat_ofNat'] at *
      omega
  by_cases h₃ : 0x7FF < c.toNat ∧ d.toNat ≤ 0xFFFF
  · rw [encodeChar_of_three h₃.1 (by omega), encodeChar_of_three (by omega) h₃.2]
    refine cons_lt_of_le ?_ fun e₁ => cons_lt_of_le ?_ fun e₂ => cons_lt_of_lt ?_
    all_goals
      simp only [UInt8.toNat_ofNat'] at *
      omega
  by_cases h₄ : 0xFFFF < c.toNat
  · rw [encodeChar_of_four h₄, encodeChar_of_four (by omega)]
    refine cons_lt_of_le ?_ fun e₁ => cons_lt_of_le ?_ fun e₂ => cons_lt_of_le ?_ fun e₃ =>
      cons_lt_of_lt ?_
    all_goals
      simp only [UInt8.toNat_ofNat'] at *
      omega
  · obtain ⟨b, bs, hb, b₁, b₂, b₃, _⟩ := encodeChar_lead c
    obtain ⟨b', bs', hb', _, b₂', b₃', b₄'⟩ := encodeChar_lead d
    rw [hb, hb']
    refine cons_lt_of_lt ?_
    omega

/-! ## Names -/

/-- Texts in the order of code points are in the order of their bytes. -/
theorem flatMap_encodeChar_lt {cs ds : List Char} (h : cs < ds) :
    cs.flatMap String.utf8EncodeChar < ds.flatMap String.utf8EncodeChar := by
  induction h with
  | nil =>
    rename_i d ds
    obtain ⟨b, bs, hb, _⟩ := encodeChar_lead d
    rw [List.flatMap_cons, hb]
    exact List.nil_lt_cons _ _
  | rel h => exact encodeChar_lt h _ _
  | cons _ ih => exact List.append_left_lt ih

theorem lt_of_compare {a b : String} (h : compare a b = .lt) : a < b := by
  change compareOfLessAndEq a b = .lt at h
  unfold compareOfLessAndEq at h
  by_cases hlt : a < b
  · exact hlt
  · rw [if_neg hlt] at h
    split at h <;> cases h

theorem bytes_lt {a b : String} (h : compare a b = .lt) : bytes a < bytes b := by
  rw [bytes_eq, bytes_eq]
  exact flatMap_encodeChar_lt (lt_of_compare h)

end Utf8

theorem NameSet.pairwise_toList (names : NameSet) : names.toList.Pairwise fun a b => a < b :=
  names.ordered_toList.imp Utf8.lt_of_compare

/-- The names of a set are listed in the order of their UTF-8 bytes. -/
theorem NameSet.pairwise_bytes_toList (names : NameSet) :
    names.toList.Pairwise fun a b => Utf8.bytes a < Utf8.bytes b :=
  names.ordered_toList.imp Utf8.bytes_lt

end LinkSet
