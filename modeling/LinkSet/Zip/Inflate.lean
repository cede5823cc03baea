/-!
# Inflating

Reading data in the `deflate` format: a sequence of blocks, each stored as it is or written in two
prefix codes, one for bytes and the lengths of repetitions, one for their distances. Bits are taken from
the lowest of each byte on.

Every symbol takes at least one bit. So the number of bits bounds the number of steps, and it is the
fuel of the loops here.
-/

namespace LinkSet.Zip

/-- Compressed data, and how many of its bits have been read. -/
structure BitCursor where
  /-- The compressed data. -/
  data : Array UInt8
  /-- The number of bits behind. -/
  position : Nat

/-- A step that reads bits, if the data are well-formed. -/
abbrev BitReader := StateT BitCursor Option

namespace BitReader

/-- Reads one bit. -/
def bit : BitReader Nat := fun c =>
  (c.data[c.position / 8]?).map fun b =>
    (b.toNat >>> (c.position % 8) % 2, { c with position := c.position + 1 })

/-- Reads a number of `n` bits, lowest bit first. -/
def bits : Nat → BitReader Nat
  | 0 => return 0
  | n + 1 => do
    let low ← bit
    let high ← bits n
    return low + 2 * high

/-- Moves to the start of the next whole byte. -/
def align : BitReader Unit := fun c =>
  some ((), { c with position := (c.position + 7) / 8 * 8 })

/-- Takes `n` bytes, from the start of a byte on. -/
def takeBytes (n : Nat) : BitReader (Array UInt8) := fun c =>
  let start := c.position / 8
  if start + n ≤ c.data.size then
    some (c.data.extract start (start + n), { c with position := c.position + 8 * n })
  else none

end BitReader

/-! ## Prefix codes -/

/-- A prefix code in which shorter words come first, and words of one length are in the order of their
symbols. -/
structure PrefixCode where
  /-- How many words there are of each length. -/
  counts : Array Nat
  /-- The symbols in the order of their words. -/
  symbols : Array Nat

namespace PrefixCode

/-- The longest word of a code. -/
def maxLength : Nat := 15

/-- The code in which each symbol has a word of the given length, or none for length 0. -/
def ofLengths (lengths : List Nat) : PrefixCode where
  counts := Array.ofFn fun n : Fin (maxLength + 1) => if n.val = 0 then 0 else lengths.count n.val
  symbols := ((List.range maxLength).flatMap fun n =>
    (lengths.zipIdx.filter (·.1 = n + 1)).map (·.2)).toArray

/-- Reads a word bit by bit: `word` has been read, `first` is the first word of its length, and `index`
the place of that word's symbol. -/
def readFrom (code : PrefixCode) (length word first index : Nat) : Nat → BitReader Nat
  | 0 => failure
  | fuel + 1 => do
    let word := word + (← BitReader.bit)
    let count := code.counts.getD length 0
    if word < first + count then
      match code.symbols[index + (word - first)]? with
      | some symbol => return symbol
      | none => failure
    else
      code.readFrom (length + 1) (2 * word) (2 * (first + count)) (index + count) fuel

/-- Reads the symbol of the next word. -/
def read (code : PrefixCode) : BitReader Nat := code.readFrom 1 0 0 0 maxLength

end PrefixCode

/-! ## Blocks -/

/-- The least length and the number of further bits of each symbol for a repetition. -/
def lengthTable : Array (Nat × Nat) :=
  #[(3, 0), (4, 0), (5, 0), (6, 0), (7, 0), (8, 0), (9, 0), (10, 0), (11, 1), (13, 1), (15, 1), (17, 1),
    (19, 2), (23, 2), (27, 2), (31, 2), (35, 3), (43, 3), (51, 3), (59, 3), (67, 4), (83, 4), (99, 4),
    (115, 4), (131, 5), (163, 5), (195, 5), (227, 5), (258, 0)]

/-- The least distance and the number of further bits of each symbol for a distance. -/
def distanceTable : Array (Nat × Nat) :=
  #[(1, 0), (2, 0), (3, 0), (4, 0), (5, 1), (7, 1), (9, 2), (13, 2), (17, 3), (25, 3), (33, 4), (49, 4),
    (65, 5), (97, 5), (129, 6), (193, 6), (257, 7), (385, 7), (513, 8), (769, 8), (1025, 9), (1537, 9),
    (2049, 10), (3073, 10), (4097, 11), (6145, 11), (8193, 12), (12289, 12), (16385, 13), (24577, 13)]

/-- Reads the number that a symbol stands for, with its further bits. -/
def readTabled (table : Array (Nat × Nat)) (symbol : Nat) : BitReader Nat :=
  match table[symbol]? with
  | some (least, more) => do return least + (← BitReader.bits more)
  | none => failure

/-- The output with `length` more bytes, each a copy of the one `distance` before it. -/
def repeatBack (out : Array UInt8) (distance : Nat) : Nat → Array UInt8
  | 0 => out
  | length + 1 => repeatBack (out.push (out.getD (out.size - distance) 0)) distance length

/-- Reads the symbols of a block up to its end. -/
def readSymbols (lengths distances : PrefixCode) :
    Nat → Array UInt8 → BitReader (Array UInt8)
  | 0, _ => failure
  | fuel + 1, out => do
    let symbol ← lengths.read
    if symbol < 256 then
      readSymbols lengths distances fuel (out.push (UInt8.ofNat symbol))
    else if symbol = 256 then
      return out
    else do
      let length ← readTabled lengthTable (symbol - 257)
      let distance ← readTabled distanceTable (← distances.read)
      if distance ≤ out.size then
        readSymbols lengths distances fuel (repeatBack out distance length)
      else failure

/-- The code for bytes and lengths in a block without codes of its own. -/
def fixedLengths : PrefixCode :=
  .ofLengths (List.replicate 144 8 ++ List.replicate 112 9 ++ List.replicate 24 7
    ++ List.replicate 8 8)

/-- The code for distances in a block without codes of its own. -/
def fixedDistances : PrefixCode := .ofLengths (List.replicate 30 5)

/-- Reads word lengths, which are themselves written in a code with signs for repetitions, until there
are `total` of them. `done` is kept in reverse. -/
def readWordLengths (code : PrefixCode) (total : Nat) :
    Nat → List Nat → BitReader (List Nat)
  | 0, _ => failure
  | fuel + 1, done =>
    if done.length = total then return done.reverse
    else if total < done.length then failure
    else do
      match ← code.read with
      | 16 =>
        match done.head? with
        | some last => do
          let n ← BitReader.bits 2
          readWordLengths code total fuel (List.replicate (3 + n) last ++ done)
        | none => failure
      | 17 => do
        let n ← BitReader.bits 3
        readWordLengths code total fuel (List.replicate (3 + n) 0 ++ done)
      | 18 => do
        let n ← BitReader.bits 7
        readWordLengths code total fuel (List.replicate (11 + n) 0 ++ done)
      | length => readWordLengths code total fuel (length :: done)

/-- The symbols for word lengths, in the order in which their own word lengths are given. -/
def wordLengthOrder : List Nat :=
  [16, 17, 18, 0, 8, 7, 9, 6, 10, 5, 11, 4, 12, 3, 13, 2, 14, 1, 15]

/-- Reads the two codes at the start of a block. -/
def readCodes : BitReader (PrefixCode × PrefixCode) := do
  let lengthCount := 257 + (← BitReader.bits 5)
  let distanceCount := 1 + (← BitReader.bits 5)
  let orderCount := 4 + (← BitReader.bits 4)
  let given ← (wordLengthOrder.take orderCount).mapM fun symbol => do
    return (symbol, ← BitReader.bits 3)
  let code := PrefixCode.ofLengths ((List.range 19).map fun symbol => (given.lookup symbol).getD 0)
  let total := lengthCount + distanceCount
  let all ← readWordLengths code total (total + 1) []
  return (.ofLengths (all.take lengthCount), .ofLengths (all.drop lengthCount))

/-- Reads the rest of a stored block, which starts at a whole byte. -/
def readStored (out : Array UInt8) : BitReader (Array UInt8) := do
  BitReader.align
  let length ← BitReader.bits 16
  let complement ← BitReader.bits 16
  if length + complement = 0xFFFF then
    return out ++ (← BitReader.takeBytes length)
  else failure

/-- Reads the rest of a block of the given kind. -/
def readBlock (fuel kind : Nat) (out : Array UInt8) : BitReader (Array UInt8) :=
  match kind with
  | 0 => readStored out
  | 1 => readSymbols fixedLengths fixedDistances fuel out
  | 2 => do
    let (lengths, distances) ← readCodes
    readSymbols lengths distances fuel out
  | _ => failure

/-- Reads blocks up to the last one. -/
def readBlocks : Nat → Array UInt8 → BitReader (Array UInt8)
  | 0, _ => failure
  | fuel + 1, out => do
    let isLast ← BitReader.bit
    let kind ← BitReader.bits 2
    let out ← readBlock fuel kind out
    if isLast = 1 then return out else readBlocks fuel out

/-- The data that were compressed. -/
def inflate? (data : Array UInt8) : Option (Array UInt8) :=
  (readBlocks (8 * data.size + 1) #[]).run' ⟨data, 0⟩

end LinkSet.Zip
