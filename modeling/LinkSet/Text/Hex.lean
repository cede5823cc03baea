import LinkSet.Bytes

/-!
# Hexadecimal text

Numbers and bytes in base sixteen, with lower-case digits.
-/

namespace LinkSet.Text.Hex

/-- A number without leading zeros. -/
def ofNat (n : Nat) : String :=
  String.ofList (Nat.toDigits 16 n)

/-- A number with leading zeros up to `width` digits. -/
def ofNatPadded (width n : Nat) : String :=
  String.ofList ((Nat.toDigits 16 n).leftpad width '0')

/-- The digit of a value below sixteen. -/
def digit (n : Nat) : Char :=
  Nat.digitChar n

/-- Bytes, two digits each. -/
def ofBytes (bytes : Bytes) : String :=
  String.ofList (bytes.flatMap fun b => [digit (b.toNat / 16), digit (b.toNat % 16)])

end LinkSet.Text.Hex
