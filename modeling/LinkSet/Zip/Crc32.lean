import LinkSet.Bytes

/-!
# CRC-32

The checksum by which a zip container guards its members: the remainder of a division of polynomials,
with the bits of each byte taken from the lowest on.
-/

namespace LinkSet.Zip

/-- The divisor, without its highest term and with its bits reversed. -/
def crcDivisor : UInt32 := 0xEDB88320

/-- The remainder after one more bit. -/
def crcBit (r : UInt32) : UInt32 :=
  if r &&& 1 = 1 then (r >>> 1) ^^^ crcDivisor else r >>> 1

/-- What each byte contributes to the remainder. -/
def crcTable : Array UInt32 :=
  Array.ofFn fun i : Fin 256 => Nat.repeat crcBit 8 (UInt32.ofNat i)

/-- The remainder after one more byte. -/
def crcByte (r : UInt32) (b : UInt8) : UInt32 :=
  crcTable.getD ((r ^^^ b.toUInt32) &&& 0xFF).toNat 0 ^^^ (r >>> 8)

/-- The checksum of the bytes. -/
def crc32 (bytes : Bytes) : UInt32 :=
  ~~~(bytes.foldl crcByte 0xFFFFFFFF)

end LinkSet.Zip
