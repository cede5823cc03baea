import LinkSet.Text.Hex

/-!
# SHA-256

The 256-bit digest of a sequence of bytes. The message is padded to whole blocks of 64 bytes, and the
padded bytes are absorbed one by one; each full block is mixed into the eight words of the state.

Main statement: the padded message consists of whole blocks (`length_pad_mod`).
-/

namespace LinkSet.Sha256

/-! ## The compression of one block -/

/-- The eight words that are carried from block to block. -/
structure Words where
  /-- First word. -/
  a : UInt32
  /-- Second word. -/
  b : UInt32
  /-- Third word. -/
  c : UInt32
  /-- Fourth word. -/
  d : UInt32
  /-- Fifth word. -/
  e : UInt32
  /-- Sixth word. -/
  f : UInt32
  /-- Seventh word. -/
  g : UInt32
  /-- Eighth word. -/
  h : UInt32
deriving DecidableEq, Repr

/-- The words before the first block: fractional parts of the square roots of the first primes. -/
def initial : Words :=
  ⟨0x6a09e667, 0xbb67ae85, 0x3c6ef372, 0xa54ff53a, 0x510e527f, 0x9b05688c, 0x1f83d9ab, 0x5be0cd19⟩

/-- One constant for each round: fractional parts of the cube roots of the first primes. -/
def roundConstants : List UInt32 :=
  [0x428a2f98, 0x71374491, 0xb5c0fbcf, 0xe9b5dba5, 0x3956c25b, 0x59f111f1, 0x923f82a4, 0xab1c5ed5,
    0xd807aa98, 0x12835b01, 0x243185be, 0x550c7dc3, 0x72be5d74, 0x80deb1fe, 0x9bdc06a7, 0xc19bf174,
    0xe49b69c1, 0xefbe4786, 0x0fc19dc6, 0x240ca1cc, 0x2de92c6f, 0x4a7484aa, 0x5cb0a9dc, 0x76f988da,
    0x983e5152, 0xa831c66d, 0xb00327c8, 0xbf597fc7, 0xc6e00bf3, 0xd5a79147, 0x06ca6351, 0x14292967,
    0x27b70a85, 0x2e1b2138, 0x4d2c6dfc, 0x53380d13, 0x650a7354, 0x766a0abb, 0x81c2c92e, 0x92722c85,
    0xa2bfe8a1, 0xa81a664b, 0xc24b8b70, 0xc76c51a3, 0xd192e819, 0xd6990624, 0xf40e3585, 0x106aa070,
    0x19a4c116, 0x1e376c08, 0x2748774c, 0x34b0bcb5, 0x391c0cb3, 0x4ed8aa4a, 0x5b9cca4f, 0x682e6ff3,
    0x748f82ee, 0x78a5636f, 0x84c87814, 0x8cc70208, 0x90befffa, 0xa4506ceb, 0xbef9a3f7, 0xc67178f2]

/-- The word turned right by `n` bits. -/
def rotate (x n : UInt32) : UInt32 := (x >>> n) ||| (x <<< (32 - n))

/-- The sixteen words of a block. -/
def blockWords (block : Array UInt8) : Array UInt32 :=
  Array.ofFn fun i : Fin 16 =>
    Bytes.toUInt32 (block.getD (4 * i) 0) (block.getD (4 * i + 1) 0) (block.getD (4 * i + 2) 0)
      (block.getD (4 * i + 3) 0)

/-- The schedule with one more word, made of four earlier ones. -/
def extendSchedule (w : Array UInt32) : Array UInt32 :=
  let n := w.size
  let w₂ := w.getD (n - 2) 0
  let w₁₅ := w.getD (n - 15) 0
  let s₁ := rotate w₂ 17 ^^^ rotate w₂ 19 ^^^ (w₂ >>> 10)
  let s₀ := rotate w₁₅ 7 ^^^ rotate w₁₅ 18 ^^^ (w₁₅ >>> 3)
  w.push (s₁ + w.getD (n - 7) 0 + s₀ + w.getD (n - 16) 0)

/-- The 64 words that a block contributes, one for each round. -/
def schedule (block : Array UInt8) : Array UInt32 :=
  Nat.repeat extendSchedule 48 (blockWords block)

/-- One round, with the sum of its constant and its word of the schedule. -/
def Words.round (s : Words) (input : UInt32) : Words :=
  let s₁ := rotate s.e 6 ^^^ rotate s.e 11 ^^^ rotate s.e 25
  let choice := (s.e &&& s.f) ^^^ (~~~s.e &&& s.g)
  let t₁ := s.h + s₁ + choice + input
  let s₀ := rotate s.a 2 ^^^ rotate s.a 13 ^^^ rotate s.a 22
  let majority := (s.a &&& s.b) ^^^ (s.a &&& s.c) ^^^ (s.b &&& s.c)
  ⟨t₁ + s₀ + majority, s.a, s.b, s.c, s.d + t₁, s.e, s.f, s.g⟩

/-- The sum, word by word. -/
def Words.add (s t : Words) : Words :=
  ⟨s.a + t.a, s.b + t.b, s.c + t.c, s.d + t.d, s.e + t.e, s.f + t.f, s.g + t.g, s.h + t.h⟩

/-- The words after one more block. -/
def Words.compress (s : Words) (block : Array UInt8) : Words :=
  let inputs := roundConstants.zipWith (· + ·) (schedule block).toList
  s.add (inputs.foldl Words.round s)

/-- The bytes of the words, in order. -/
def Words.toBytes (s : Words) : Bytes :=
  [s.a, s.b, s.c, s.d, s.e, s.f, s.g, s.h].flatMap Bytes.ofUInt32

/-! ## The message -/

/-- The zero bytes between the closing bit and the length, so that the blocks become full. -/
def zeroCount (length : Nat) : Nat := (119 - length % 64) % 64

/-- The message with a closing bit, zeros, and its length in bits. -/
def pad (message : Bytes) : Bytes :=
  let bits := 8 * message.length
  message ++ 0x80 :: List.replicate (zeroCount message.length) 0
    ++ Bytes.ofUInt32 (UInt32.ofNat (bits / 0x100000000)) ++ Bytes.ofUInt32 (UInt32.ofNat bits)

/-- Words for the full blocks so far, and the bytes of the next block. -/
structure State where
  /-- The words after the full blocks. -/
  words : Words
  /-- The bytes behind the full blocks. -/
  block : Array UInt8

/-- Takes in one byte. -/
def State.absorb (s : State) (byte : UInt8) : State :=
  let block := s.block.push byte
  if block.size = 64 then ⟨s.words.compress block, #[]⟩ else ⟨s.words, block⟩

/-- The digest of a message. -/
def digest (message : Bytes) : Bytes :=
  ((pad message).foldl State.absorb ⟨initial, #[]⟩).words.toBytes

/-- The digest as text. -/
def hexDigest (message : Bytes) : String :=
  Text.Hex.ofBytes (digest message)

/-- The digest of `abc`, which the definition of the function gives as a test. -/
example : hexDigest [0x61, 0x62, 0x63]
    = "ba7816bf8f01cfea414140de5dae2223b00361a396177a9cb410ff61f20015ad" := by
  decide +kernel

/-- The padded message consists of whole blocks. -/
theorem length_pad_mod (message : Bytes) : (pad message).length % 64 = 0 := by
  simp only [pad, zeroCount, List.length_append, List.length_cons, List.length_replicate,
    Bytes.length_ofUInt32]
  omega

/-- A digest has 32 bytes. -/
@[simp] theorem length_digest (message : Bytes) : (digest message).length = 32 := rfl

end LinkSet.Sha256
