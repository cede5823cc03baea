import LinkSet.Bytes

/-!
# UTF-8

The bytes of a text, one to four for each character. Reading never fails: what cannot be the start of
a character, and what has been read of a character that then breaks off, is read as `U+FFFD`.

Main statement: a text reads back from its bytes (`decode_bytes`).
-/

namespace LinkSet.Utf8

/-! ## Writing -/

/-- The bytes of a name in UTF-8. -/
def bytes (name : String) : Bytes := name.toUTF8.data.toList

theorem bytes_eq (name : String) : bytes name = name.toList.flatMap String.utf8EncodeChar := by
  have h : name.toUTF8 = name.toList.utf8Encode := by
    rw [String.toUTF8_eq_toByteArray, ← String.toByteArray_ofList, String.ofList_toList]
  rw [bytes, h, List.utf8Encode, List.toList_data_toByteArray]

theorem encodeChar_of_one {c : Char} (h : c.toNat ≤ 0x7F) :
    String.utf8EncodeChar c = [UInt8.ofNat c.toNat] :=
  if_pos h

theorem encodeChar_of_two {c : Char} (hlo : 0x7F < c.toNat) (hhi : c.toNat ≤ 0x7FF) :
    String.utf8EncodeChar c
      = [UInt8.ofNat (c.toNat / 64 % 0x20 + 0xC0), UInt8.ofNat (c.toNat % 64 + 0x80)] :=
  (if_neg (Nat.not_le.2 hlo)).trans (if_pos hhi)

theorem encodeChar_of_three {c : Char} (hlo : 0x7FF < c.toNat) (hhi : c.toNat ≤ 0xFFFF) :
    String.utf8EncodeChar c
      = [UInt8.ofNat (c.toNat / 4096 % 0x10 + 0xE0), UInt8.ofNat (c.toNat / 64 % 64 + 0x80),
        UInt8.ofNat (c.toNat % 64 + 0x80)] := by
  have h₁ : ¬ c.toNat ≤ 0x7F := by omega
  exact (if_neg h₁).trans ((if_neg (Nat.not_le.2 hlo)).trans (if_pos hhi))

theorem encodeChar_of_four {c : Char} (hlo : 0xFFFF < c.toNat) :
    String.utf8EncodeChar c
      = [UInt8.ofNat (c.toNat / 262144 % 0x08 + 0xF0), UInt8.ofNat (c.toNat / 4096 % 64 + 0x80),
        UInt8.ofNat (c.toNat / 64 % 64 + 0x80), UInt8.ofNat (c.toNat % 64 + 0x80)] := by
  have h₁ : ¬ c.toNat ≤ 0x7F := by omega
  have h₂ : ¬ c.toNat ≤ 0x7FF := by omega
  exact (if_neg h₁).trans ((if_neg h₂).trans (if_neg (Nat.not_le.2 hlo)))

theorem toNat_lt_of_char (c : Char) : c.toNat < 0x110000 := by
  rcases c.valid with h | ⟨_, h⟩
  · exact Nat.lt_trans h (by decide)
  · exact h

/-- How the bytes of a character start: with a lead byte that tells how many bytes there are. -/
theorem encodeChar_lead (c : Char) : ∃ b tail, String.utf8EncodeChar c = b :: tail
    ∧ (c.toNat ≤ 0x7F → b.toNat ≤ 0x7F)
    ∧ (0x7F < c.toNat → c.toNat ≤ 0x7FF → 0xC0 ≤ b.toNat ∧ b.toNat < 0xE0)
    ∧ (0x7FF < c.toNat → c.toNat ≤ 0xFFFF → 0xE0 ≤ b.toNat ∧ b.toNat < 0xF0)
    ∧ (0xFFFF < c.toNat → 0xF0 ≤ b.toNat) := by
  by_cases h₁ : c.toNat ≤ 0x7F
  · refine ⟨_, _, encodeChar_of_one h₁, ?_⟩
    simp only [UInt8.toNat_ofNat']
    omega
  · by_cases h₂ : c.toNat ≤ 0x7FF
    · refine ⟨_, _, encodeChar_of_two (by omega) h₂, ?_⟩
      simp only [UInt8.toNat_ofNat']
      omega
    · by_cases h₃ : c.toNat ≤ 0xFFFF
      · refine ⟨_, _, encodeChar_of_three (by omega) h₃, ?_⟩
        simp only [UInt8.toNat_ofNat']
        omega
      · refine ⟨_, _, encodeChar_of_four (by omega), ?_⟩
        simp only [UInt8.toNat_ofNat']
        omega

/-! ## Reading -/

/-- What stands for bytes that are no character. -/
def replacement : Char := '\uFFFD'

/-- A character of which the first bytes have been read. -/
structure Started where
  /-- The number that these bytes give. -/
  bits : Nat
  /-- How many bytes are to come behind the next one. -/
  more : Nat
  /-- The least that the next byte can be. -/
  least : Nat
  /-- The most that the next byte can be. -/
  most : Nat

/-- The character that a byte starts which is followed by others. Overlong forms, surrogates and
numbers above `U+10FFFF` are ruled out by what the second byte can be. -/
def start? (b : Nat) : Option Started :=
  if 0xC2 ≤ b ∧ b ≤ 0xDF then some ⟨b % 0x20, 0, 0x80, 0xBF⟩
  else if 0xE0 ≤ b ∧ b ≤ 0xEF then
    some ⟨b % 0x10, 1, if b = 0xE0 then 0xA0 else 0x80, if b = 0xED then 0x9F else 0xBF⟩
  else if 0xF0 ≤ b ∧ b ≤ 0xF4 then
    some ⟨b % 0x08, 2, if b = 0xF0 then 0x90 else 0x80, if b = 0xF4 then 0x8F else 0xBF⟩
  else none

/-- What is read from the first byte of a character, and the character that it starts. -/
def readFirst (b : Nat) : List Char × Option Started :=
  if b < 0x80 then ([Char.ofNat b], none)
  else
    match start? b with
    | some s => ([], some s)
    | none => ([replacement], none)

/-- What is read from one byte, and the character that it leaves started. -/
def readByte (state : Option Started) (b : Nat) : List Char × Option Started :=
  match state with
  | none => readFirst b
  | some s =>
    if s.least ≤ b ∧ b ≤ s.most then
      let bits := 0x40 * s.bits + b % 0x40
      match s.more with
      | 0 => ([Char.ofNat bits], none)
      | more + 1 => ([], some ⟨bits, more, 0x80, 0xBF⟩)
    else
      -- the character breaks off, and the byte is the first of another one
      let (chars, next) := readFirst b
      (replacement :: chars, next)

/-- The characters of the bytes behind a character that may have been started. -/
def readFrom (state : Option Started) : Bytes → List Char
  | [] => if state.isSome then [replacement] else []
  | b :: rest =>
    let (chars, next) := readByte state b.toNat
    chars ++ readFrom next rest

/-- The text of the bytes. -/
def decode (bytes : Bytes) : String := String.ofList (readFrom none bytes)

/-! ## Reading back -/

theorem readFrom_ofNat {state next : Option Started} {b : Nat} {chars : List Char} (hb : b < 0x100)
    (h : readByte state b = (chars, next)) (rest : Bytes) :
    readFrom state (UInt8.ofNat b :: rest) = chars ++ readFrom next rest := by
  rw [readFrom, UInt8.toNat_ofNat_of_lt' hb, h]

/-- A byte in the middle of a character goes on with it. -/
theorem readByte_of_more {bits more least most b : Nat} (hlo : least ≤ b) (hhi : b ≤ most) :
    readByte (some ⟨bits, more + 1, least, most⟩) b
      = ([], some ⟨0x40 * bits + b % 0x40, more, 0x80, 0xBF⟩) :=
  if_pos ⟨hlo, hhi⟩

/-- The last byte of a character makes it up. -/
theorem readByte_of_last {bits least most b : Nat} (hlo : least ≤ b) (hhi : b ≤ most) :
    readByte (some ⟨bits, 0, least, most⟩) b = ([Char.ofNat (0x40 * bits + b % 0x40)], none) :=
  if_pos ⟨hlo, hhi⟩

theorem readByte_of_one {b : Nat} (h : b < 0x80) : readByte none b = ([Char.ofNat b], none) :=
  if_pos h

theorem readByte_of_start {b : Nat} {s : Started} (h : 0x80 ≤ b) (hs : start? b = some s) :
    readByte none b = ([], some s) := by
  rw [readByte, readFirst, if_neg (Nat.not_lt.2 h), hs]

theorem start?_of_two {b : Nat} (hlo : 0xC2 ≤ b) (hhi : b ≤ 0xDF) :
    start? b = some ⟨b % 0x20, 0, 0x80, 0xBF⟩ :=
  if_pos ⟨hlo, hhi⟩

theorem start?_of_three {b : Nat} (hlo : 0xE0 ≤ b) (hhi : b ≤ 0xEF) :
    start? b = some ⟨b % 0x10, 1, if b = 0xE0 then 0xA0 else 0x80,
      if b = 0xED then 0x9F else 0xBF⟩ := by
  rw [start?, if_neg (by omega), if_pos ⟨hlo, hhi⟩]

theorem start?_of_four {b : Nat} (hlo : 0xF0 ≤ b) (hhi : b ≤ 0xF4) :
    start? b = some ⟨b % 0x08, 2, if b = 0xF0 then 0x90 else 0x80,
      if b = 0xF4 then 0x8F else 0xBF⟩ := by
  rw [start?, if_neg (by omega), if_neg (by omega), if_pos ⟨hlo, hhi⟩]

/-- One character is read from its bytes. -/
theorem readFrom_encodeChar (c : Char) (rest : Bytes) :
    readFrom none (String.utf8EncodeChar c ++ rest) = c :: readFrom none rest := by
  have hlimit := toNat_lt_of_char c
  have hchar : ∀ {n : Nat}, n = c.toNat → Char.ofNat n = c := by
    rintro _ rfl
    exact Char.ofNat_toNat c
  by_cases h₁ : c.toNat ≤ 0x7F
  · have hread : readByte none c.toNat = ([c], none) := by
      rw [readByte_of_one (by omega), hchar rfl]
    rw [encodeChar_of_one h₁]
    exact readFrom_ofNat (by omega) hread rest
  by_cases h₂ : c.toNat ≤ 0x7FF
  · have hlast : 0x40 * ((c.toNat / 64 % 0x20 + 0xC0) % 0x20) + (c.toNat % 64 + 0x80) % 0x40
        = c.toNat := by omega
    rw [encodeChar_of_two (by omega) h₂]
    simp only [List.cons_append, List.nil_append]
    rw [readFrom_ofNat (by omega)
        (readByte_of_start (by omega) (start?_of_two (by omega) (by omega))),
      readFrom_ofNat (by omega) (readByte_of_last (by omega) (by omega)), hchar hlast]
    rfl
  by_cases h₃ : c.toNat ≤ 0xFFFF
  · have hlast : 0x40 * (0x40 * ((c.toNat / 4096 % 0x10 + 0xE0) % 0x10)
        + (c.toNat / 64 % 64 + 0x80) % 0x40) + (c.toNat % 64 + 0x80) % 0x40 = c.toNat := by omega
    -- a character is no surrogate, so the second byte behind 0xED is small enough
    have hvalid : c.toNat < 0xD800 ∨ 0xDFFF < c.toNat := by
      rcases c.valid with h | ⟨h, _⟩
      · exact .inl h
      · exact .inr h
    rw [encodeChar_of_three (by omega) h₃]
    simp only [List.cons_append, List.nil_append]
    rw [readFrom_ofNat (by omega)
        (readByte_of_start (by omega) (start?_of_three (by omega) (by omega))),
      readFrom_ofNat (by omega) (readByte_of_more (by split <;> omega) (by split <;> omega)),
      readFrom_ofNat (by omega) (readByte_of_last (by omega) (by omega)), hchar hlast]
    rfl
  · have hlast : 0x40 * (0x40 * (0x40 * ((c.toNat / 262144 % 0x08 + 0xF0) % 0x08)
        + (c.toNat / 4096 % 64 + 0x80) % 0x40) + (c.toNat / 64 % 64 + 0x80) % 0x40)
        + (c.toNat % 64 + 0x80) % 0x40 = c.toNat := by omega
    rw [encodeChar_of_four (by omega)]
    simp only [List.cons_append, List.nil_append]
    rw [readFrom_ofNat (by omega)
        (readByte_of_start (by omega) (start?_of_four (by omega) (by omega))),
      readFrom_ofNat (by omega) (readByte_of_more (by split <;> omega) (by split <;> omega)),
      readFrom_ofNat (by omega) (readByte_of_more (by omega) (by omega)),
      readFrom_ofNat (by omega) (readByte_of_last (by omega) (by omega)), hchar hlast]
    rfl

/-- A text reads back from its bytes. -/
theorem decode_bytes (name : String) : decode (bytes name) = name := by
  have hchars : ∀ chars : List Char,
      readFrom none (chars.flatMap String.utf8EncodeChar) = chars := by
    intro chars
    induction chars with
    | nil => rfl
    | cons c chars ih => rw [List.flatMap_cons, readFrom_encodeChar, ih]
  rw [decode, bytes_eq, hchars, String.ofList_toList]

end LinkSet.Utf8
