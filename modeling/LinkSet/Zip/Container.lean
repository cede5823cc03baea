import LinkSet.FileTree.Content
import LinkSet.Text.CodePage
import LinkSet.Zip.Crc32
import LinkSet.Zip.Inflate

/-!
# Zip containers

The bytes of a jar. A container holds a record for each member, with its name and its data, then a
directory that lists the records, then an end record that says where the directory is. Numbers are
stored with the lowest byte first.

Members are packed without looking for repetitions, in whichever of the two usual methods the jar asks
for: *stored* as they are, or as *deflated* data that consist of stored blocks. Both methods are
unpacked in full. One of the flags says that a name is in UTF-8; without it, a name is in code page
437. Names in ASCII, which are the same in both, are packed without it.
-/

namespace LinkSet.Zip

/-! ## Packing -/

/-- The two bytes of a number, low byte first. -/
def two (n : Nat) : Bytes := [UInt8.ofNat n, UInt8.ofNat (n / 0x100)]

/-- The four bytes of a number, lowest byte first. -/
def four (n : Nat) : Bytes := two n ++ two (n / 0x10000)

/-- The most bytes that fit in a stored block. -/
def maxBlock : Nat := 65535

/-- Deflated data made of `count` stored blocks and a last one. -/
def storedBlocks : Nat → Bytes → Bytes
  | 0, data => 1 :: two data.length ++ two (maxBlock - data.length) ++ data
  | count + 1, data =>
    0 :: two maxBlock ++ two 0 ++ data.take maxBlock ++ storedBlocks count (data.drop maxBlock)

/-- The data of a member, as they are stored. -/
def packedData (compressed : Bool) (m : Member) : Bytes :=
  if compressed then storedBlocks ((m.content.length - 1) / maxBlock) m.content
  else m.content

/-- The flags of a member with the given name. -/
def nameFlags (name : String) : Nat :=
  if (Utf8.bytes name).all (· < 0x80) then 0 else 0x800

/-- What the record and the directory say of a member: the version needed, flags, method, time and date
of change, checksum, both lengths, the length of the name and that of further fields. -/
def description (compressed : Bool) (m : Member) : Bytes :=
  two 20 ++ two (nameFlags m.name) ++ two (if compressed then 8 else 0)
    ++ two 0 ++ two 0x21
    ++ four (crc32 m.content).toNat
    ++ four (packedData compressed m).length ++ four m.content.length
    ++ two (Utf8.bytes m.name).length ++ two 0

/-- The record of a member. -/
def record (compressed : Bool) (m : Member) : Bytes :=
  [0x50, 0x4B, 3, 4] ++ description compressed m ++ Utf8.bytes m.name
    ++ packedData compressed m

/-- The line of the directory for a member whose record starts at `offset`. -/
def directoryLine (compressed : Bool) (m : Member) (offset : Nat) : Bytes :=
  [0x50, 0x4B, 1, 2] ++ two 20 ++ description compressed m ++ two 0 ++ two 0 ++ two 0 ++ four 0
    ++ four offset ++ Utf8.bytes m.name

/-- The records of the members, and the directory, for records from `offset` on. -/
def recordsAndDirectory (compressed : Bool) (offset : Nat) : List Member → Bytes × Bytes
  | [] => ([], [])
  | m :: members =>
    let first := record compressed m
    let (records, directory) := recordsAndDirectory compressed (offset + first.length) members
    (first ++ records, directoryLine compressed m offset ++ directory)

/-- The bytes of a jar. -/
def pack (jar : Jar) : Bytes :=
  let (records, directory) := recordsAndDirectory jar.compressed 0 jar.members
  let count := two jar.members.length
  records ++ directory ++ [0x50, 0x4B, 5, 6] ++ two 0 ++ two 0 ++ count ++ count
    ++ four directory.length ++ four records.length ++ two 0

/-! ## Unpacking -/

/-- The number in two bytes. -/
def two? (data : Array UInt8) (offset : Nat) : Option Nat := do
  let low ← data[offset]?
  let high ← data[offset + 1]?
  return low.toNat + 0x100 * high.toNat

/-- The number in four bytes. -/
def four? (data : Array UInt8) (offset : Nat) : Option Nat := do
  let low ← two? data offset
  let high ← two? data (offset + 2)
  return low + 0x10000 * high

/-- Whether a part with the given mark starts at an offset. -/
def isMarked (data : Array UInt8) (offset : Nat) (mark : Bytes) : Bool :=
  (data.extract offset (offset + mark.length)).toList == mark

/-- The bytes between two offsets, if they are all there. -/
def cut? (data : Array UInt8) (start length : Nat) : Option (Array UInt8) :=
  if start + length ≤ data.size then some (data.extract start (start + length)) else none

/-- The offset of the end record, which may have a comment behind it. -/
def findEnd? (data : Array UInt8) : Option Nat :=
  if data.size < 22 then none
  else
    let last := data.size - 22
    (List.range (min last maxBlock + 1)).findSome? fun back =>
      if isMarked data (last - back) [0x50, 0x4B, 5, 6] then some (last - back) else none

/-- The data of a member in their plain form, if their checksum is right. -/
def plainData? (method checksum : Nat) (data : Array UInt8) : Option Bytes := do
  let plain ← match method with
    | 0 => some data
    | 8 => inflate? data
    | _ => none
  let bytes := plain.toList
  if (crc32 bytes).toNat = checksum then some bytes else none

/-- The name of a member, as its flags say that it is written. -/
def nameOf (flags : Nat) (bytes : Bytes) : String :=
  if flags.testBit 11 then Utf8.decode bytes else Text.CodePage.decode bytes

/-- The member of the directory line at an offset, for records counted from `base`, and the offset of
the next line. Members that are encrypted, as their first flag says, are not unpacked. -/
def memberAt? (data : Array UInt8) (base offset : Nat) : Option (Member × Nat) := do
  guard (isMarked data offset [0x50, 0x4B, 1, 2])
  let flags ← two? data (offset + 8)
  guard (flags % 2 = 0)
  let method ← two? data (offset + 10)
  let checksum ← four? data (offset + 16)
  let packedLength ← four? data (offset + 20)
  let nameLength ← two? data (offset + 28)
  let fieldsLength ← two? data (offset + 30)
  let commentLength ← two? data (offset + 32)
  let start := base + (← four? data (offset + 42))
  let name ← cut? data (offset + 46) nameLength
  guard (isMarked data start [0x50, 0x4B, 3, 4])
  let before := 30 + (← two? data (start + 26)) + (← two? data (start + 28))
  let packed ← cut? data (start + before) packedLength
  let content ← plainData? method checksum packed
  return (⟨nameOf flags name.toList, content⟩,
    offset + 46 + nameLength + fieldsLength + commentLength)

/-- The members of the given number of directory lines. -/
def membersFrom? (data : Array UInt8) (base offset : Nat) : Nat → Option (List Member)
  | 0 => some []
  | count + 1 => do
    let (m, next) ← memberAt? data base offset
    let members ← membersFrom? data base next count
    return m :: members

/-- The members of the jar that consists of the bytes, if they are a jar. -/
def unpack? (bytes : Bytes) : Option (List Member) := do
  let data := bytes.toArray
  let stop ← findEnd? data
  let count ← two? data (stop + 10)
  let length ← four? data (stop + 12)
  let offset ← four? data (stop + 16)
  guard (offset + length ≤ stop)
  let base := stop - (offset + length)
  membersFrom? data base (base + offset) count

end LinkSet.Zip

namespace LinkSet.Content

/-- The bytes of a file. -/
def toBytes : Content → Bytes
  | .plain bytes => bytes
  | .packed jar => Zip.pack jar

/-- The members of a file, if it is a jar. Those of a jar that is held as their list are these; its bytes
give the same. -/
def members? : Content → Option (List Member)
  | .plain bytes => Zip.unpack? bytes
  | .packed jar => some jar.members

end LinkSet.Content
