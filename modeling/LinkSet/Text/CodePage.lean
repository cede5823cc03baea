import LinkSet.Text.Utf8

/-!
# Code page 437

The 256 characters that a byte can stand for in texts which are not in UTF-8. The first half of them
is ASCII.

Main statement: a text in ASCII reads the same here as in UTF-8 (`decode_bytes`).
-/

namespace LinkSet.Text.CodePage

/-- The characters of the upper half, from 0x80 on. -/
def upperHalf : List Char :=
  ['Ç', 'ü', 'é', 'â', 'ä', 'à', 'å', 'ç', 'ê', 'ë', 'è', 'ï', 'î', 'ì', 'Ä', 'Å',
    'É', 'æ', 'Æ', 'ô', 'ö', 'ò', 'û', 'ù', 'ÿ', 'Ö', 'Ü', '¢', '£', '¥', '₧', 'ƒ',
    'á', 'í', 'ó', 'ú', 'ñ', 'Ñ', 'ª', 'º', '¿', '⌐', '¬', '½', '¼', '¡', '«', '»',
    '░', '▒', '▓', '│', '┤', '╡', '╢', '╖', '╕', '╣', '║', '╗', '╝', '╜', '╛', '┐',
    '└', '┴', '┬', '├', '─', '┼', '╞', '╟', '╚', '╔', '╩', '╦', '╠', '═', '╬', '╧',
    '╨', '╤', '╥', '╙', '╘', '╒', '╓', '╫', '╪', '┘', '┌', '█', '▄', '▌', '▐', '▀',
    'α', 'ß', 'Γ', 'π', 'Σ', 'σ', 'µ', 'τ', 'Φ', 'Θ', 'Ω', 'δ', '∞', 'φ', 'ε', '∩',
    '≡', '±', '≥', '≤', '⌠', '⌡', '÷', '≈', '°', '∙', '·', '√', 'ⁿ', '²', '■', '\u00A0']

example : upperHalf.length = 128 := rfl

/-- The character that a byte stands for. -/
def char (b : UInt8) : Char :=
  if b < 0x80 then Char.ofNat b.toNat else upperHalf.getD (b.toNat - 0x80) Utf8.replacement

/-- The text of the bytes. -/
def decode (bytes : Bytes) : String := String.ofList (bytes.map char)

/-- A character whose bytes are all ASCII is one byte. -/
theorem encodeChar_of_ascii {c : Char} (h : ∀ b ∈ String.utf8EncodeChar c, b < 0x80) :
    c.toNat ≤ 0x7F := by
  obtain ⟨b, tail, hbytes, -, htwo, hthree, hfour⟩ := Utf8.encodeChar_lead c
  have hb : b.toNat < 0x80 := h b (hbytes ▸ List.mem_cons_self)
  omega

theorem map_char_encodeChar {c : Char} (h : ∀ b ∈ String.utf8EncodeChar c, b < 0x80) :
    (String.utf8EncodeChar c).map char = [c] := by
  have hascii : c.toNat ≤ 0x7F := encodeChar_of_ascii h
  rw [Utf8.encodeChar_of_one hascii] at h ⊢
  have hb : UInt8.ofNat c.toNat < 0x80 := h _ (List.mem_singleton_self _)
  have hsmall : c.toNat < UInt8.size := Nat.lt_of_le_of_lt hascii (by decide)
  rw [List.map_singleton, char, if_pos hb, UInt8.toNat_ofNat_of_lt' hsmall, Char.ofNat_toNat]

/-- A text in ASCII is read from its bytes. -/
theorem decode_bytes {name : String} (h : ∀ b ∈ Utf8.bytes name, b < 0x80) :
    decode (Utf8.bytes name) = name := by
  have hchars : ∀ chars : List Char, (∀ b ∈ chars.flatMap String.utf8EncodeChar, b < 0x80) →
      (chars.flatMap String.utf8EncodeChar).map char = chars := by
    intro chars
    induction chars with
    | nil => exact fun _ => rfl
    | cons c chars ih =>
      intro hall
      rw [List.flatMap_cons, List.forall_mem_append] at hall
      rw [List.flatMap_cons, List.map_append, map_char_encodeChar hall.1, ih hall.2]
      rfl
  rw [Utf8.bytes_eq] at h ⊢
  rw [decode, hchars _ h, String.ofList_toList]

end LinkSet.Text.CodePage
