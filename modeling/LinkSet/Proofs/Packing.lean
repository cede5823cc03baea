import LinkSet.Zip.Container
import Mathlib.Algebra.Group.Nat.Defs
import Mathlib.Data.Option.Basic

/-!
# Packing and unpacking

A jar can be held as the list of its members or as its bytes, and it makes no difference which: from
the bytes of a jar its members are unpacked, in order, with their names and contents, if its numbers
fit into the room that a container has for them (`Zip.unpack?_pack`). So this is what the content of
a file says in either form (`Content.members?_pack`).

The directory line of a member leads to its record, so unpacking looks at two places at a time. What
stands where is told by `Zip.PartAt`, and each reader takes what stands at its place.
-/

namespace LinkSet.Zip

/-! ## Parts of a file -/

/-- The part stands in the file at the given offset. -/
def PartAt (data : Bytes) (offset : Nat) (part : Bytes) : Prop :=
  ∃ front back, data = front ++ part ++ back ∧ front.length = offset

namespace PartAt

variable {data part p q : Bytes} {i : Nat}

theorem self : PartAt data 0 data := ⟨[], [], by rw [List.nil_append, List.append_nil], rfl⟩

theorem left (h : PartAt data i (p ++ q)) : PartAt data i p := by
  obtain ⟨front, back, rfl, hi⟩ := h
  exact ⟨front, q ++ back, by simp only [List.append_assoc], hi⟩

theorem right (h : PartAt data i (p ++ q)) : PartAt data (i + p.length) q := by
  obtain ⟨front, back, rfl, rfl⟩ := h
  exact ⟨front ++ p, back, by simp only [List.append_assoc], List.length_append⟩

/-- Two parts behind each other. -/
theorem append_iff : PartAt data i (p ++ q) ↔ PartAt data i p ∧ PartAt data (i + p.length) q := by
  refine ⟨fun h => ⟨h.left, h.right⟩, ?_⟩
  rintro ⟨⟨front, back, rfl, rfl⟩, front', back', hback, hfront⟩
  rw [List.append_assoc front'] at hback
  obtain ⟨-, rfl⟩ := List.append_inj hback (List.length_append.trans hfront.symm)
  exact ⟨front, back', by simp only [List.append_assoc], rfl⟩

theorem le_length (h : PartAt data i part) : i + part.length ≤ data.length := by
  obtain ⟨front, back, rfl, rfl⟩ := h
  simp only [List.length_append]
  omega

theorem getElem? {b : UInt8} {rest : Bytes} (h : PartAt data i (b :: rest)) :
    data.toArray[i]? = some b := by
  obtain ⟨front, back, rfl, rfl⟩ := h
  rw [List.getElem?_toArray, List.append_assoc, List.getElem?_append_right (Nat.le_refl _),
    Nat.sub_self]
  rfl

theorem extract (h : PartAt data i part) :
    data.toArray.extract i (i + part.length) = part.toArray := by
  obtain ⟨front, back, rfl, rfl⟩ := h
  rw [List.extract_toArray, List.extract_eq_take_drop, List.append_assoc, List.drop_left,
    Nat.add_sub_cancel_left, List.take_left]

end PartAt

variable {data part : Bytes} {i n : Nat}

theorem isMarked_of_partAt (h : PartAt data i part) : isMarked data.toArray i part = true := by
  rw [isMarked, h.extract, beq_self_eq_true]

theorem cut?_of_partAt (h : PartAt data i part) :
    cut? data.toArray i part.length = some part.toArray := by
  have hroom : i + part.length ≤ data.toArray.size := h.le_length
  rw [cut?, if_pos hroom, h.extract]

/-! ## Numbers -/

@[simp] theorem length_two (n : Nat) : (two n).length = 2 := rfl

@[simp] theorem length_four (n : Nat) : (four n).length = 4 := rfl

theorem PartAt.getElem?_two (h : PartAt data i (two n)) :
    data.toArray[i]? = some (UInt8.ofNat n)
      ∧ data.toArray[i + 1]? = some (UInt8.ofNat (n / 0x100)) :=
  ⟨h.getElem?, (h.right (p := [UInt8.ofNat n])).getElem?⟩

theorem two?_of_partAt (h : PartAt data i (two n)) :
    two? data.toArray i = some (n % 0x10000) := by
  obtain ⟨hlow, hhigh⟩ := h.getElem?_two
  have hsum : (UInt8.ofNat n).toNat + 0x100 * (UInt8.ofNat (n / 0x100)).toNat = n % 0x10000 := by
    simp only [UInt8.toNat_ofNat']
    omega
  rw [two?, hlow, hhigh]
  exact congrArg some hsum

theorem four?_of_partAt (h : PartAt data i (four n)) :
    four? data.toArray i = some (n % 0x100000000) := by
  have hlow : two? data.toArray i = some (n % 0x10000) := two?_of_partAt h.left
  have hhigh : two? data.toArray (i + 2) = some (n / 0x10000 % 0x10000) :=
    two?_of_partAt (h.right (p := two n))
  have hsum : n % 0x10000 + 0x10000 * (n / 0x10000 % 0x10000) = n % 0x100000000 := by omega
  rw [four?, hlow, hhigh]
  exact congrArg some hsum

/-! ## Bits -/

namespace BitReader

variable {α β : Type} {c c' : BitCursor} {bytes : Array UInt8} {b : UInt8} {a : α}
  {j k m x y : Nat}

theorem bind_of_eq {read : BitReader α} (next : α → BitReader β) (h : read c = some (a, c')) :
    (read >>= next) c = next a c' := by
  simp only [bind, StateT.bind, h, Option.bind_some]

theorem bit_of_getElem? (hb : bytes[k]? = some b) (hj : j < 8) :
    bit ⟨bytes, 8 * k + j⟩ = some (b.toNat >>> j % 2, ⟨bytes, 8 * k + (j + 1)⟩) := by
  have hplace : (8 * k + j) / 8 = k := by omega
  have hshift : (8 * k + j) % 8 = j := by omega
  rw [bit]
  simp only [hplace, hshift, hb, Option.map_some, Nat.add_assoc]

/-- Bits of one byte are read as the number that they make up, with what is read behind them above
it. -/
theorem bits_add_of_getElem? (hb : bytes[k]? = some b) (hm : j + m ≤ 8)
    (hrest : bits n ⟨bytes, 8 * k + (j + m)⟩ = some (y, c')) :
    bits (m + n) ⟨bytes, 8 * k + j⟩ = some (b.toNat >>> j % 2 ^ m + 2 ^ m * y, c') := by
  induction m generalizing j with
  | zero =>
    simpa only [Nat.zero_add, Nat.add_zero, Nat.pow_zero, Nat.mod_one, Nat.one_mul] using hrest
  | succ m ih =>
    have htail : bits (m + n) ⟨bytes, 8 * k + (j + 1)⟩
        = some (b.toNat >>> (j + 1) % 2 ^ m + 2 ^ m * y, c') := by
      refine ih (by omega) ?_
      rwa [Nat.add_assoc, Nat.add_comm 1 m]
    have hsum : b.toNat >>> j % 2 + 2 * (b.toNat >>> (j + 1) % 2 ^ m + 2 ^ m * y)
        = b.toNat >>> j % 2 ^ (m + 1) + 2 ^ (m + 1) * y := by
      rw [Nat.pow_succ', Nat.mod_mul, Nat.shiftRight_succ, Nat.mul_add, Nat.mul_assoc,
        Nat.add_assoc]
    rw [Nat.add_right_comm, bits, bind_of_eq _ (bit_of_getElem? hb (by omega)),
      bind_of_eq _ htail, ← hsum]
    rfl

theorem bits_of_getElem? (hb : bytes[k]? = some b) (hm : j + m ≤ 8) :
    bits m ⟨bytes, 8 * k + j⟩ = some (b.toNat >>> j % 2 ^ m, ⟨bytes, 8 * k + (j + m)⟩) :=
  bits_add_of_getElem? (n := 0) (y := 0) hb hm rfl

theorem align_of_lt (hj : 0 < j) (hj' : j ≤ 8) :
    align ⟨bytes, 8 * k + j⟩ = some ((), ⟨bytes, 8 * (k + 1)⟩) := by
  have hnext : (8 * k + j + 7) / 8 * 8 = 8 * (k + 1) := by omega
  rw [align, hnext]

theorem bits_of_partAt (hn : n < 0x10000) (h : PartAt data k (two n)) :
    bits 16 ⟨data.toArray, 8 * k⟩ = some (n, ⟨data.toArray, 8 * (k + 2)⟩) := by
  obtain ⟨hlow, hhigh⟩ := h.getElem?_two
  have hsecond := bits_of_getElem? (j := 0) (m := 8) hhigh (by decide)
  have hboth := bits_add_of_getElem? (j := 0) (m := 8) hlow (by decide) hsecond
  have hsum : (UInt8.ofNat n).toNat >>> 0 % 2 ^ 8
      + 2 ^ 8 * ((UInt8.ofNat (n / 0x100)).toNat >>> 0 % 2 ^ 8) = n := by
    simp only [UInt8.toNat_ofNat', Nat.shiftRight_zero]
    omega
  rw [hsum] at hboth
  exact hboth

theorem takeBytes_of_partAt (h : PartAt data k part) :
    takeBytes part.length ⟨data.toArray, 8 * k⟩
      = some (part.toArray, ⟨data.toArray, 8 * (k + part.length)⟩) := by
  have hstart : 8 * k / 8 = k := by omega
  have hroom : k + part.length ≤ data.toArray.size := h.le_length
  rw [takeBytes]
  simp only [hstart, if_pos hroom, h.extract, Nat.mul_add]

end BitReader

/-! ## Inflating stored blocks -/

variable {flag : UInt8} {body out : Bytes} {c : BitCursor} {k count fuel : Nat}

/-- A stored block, with its first byte in front. -/
def storedBlock (flag : UInt8) (body : Bytes) : Bytes :=
  [flag] ++ (two body.length ++ (two (maxBlock - body.length) ++ body))

theorem length_storedBlock : (storedBlock flag body).length = 5 + body.length := by
  simp only [storedBlock, List.length_append, List.length_singleton, length_two, ← Nat.add_assoc,
    Nat.reduceAdd]

theorem readStored_of_partAt (hroom : body.length ≤ maxBlock)
    (h : PartAt data k (storedBlock flag body)) :
    readStored out.toArray ⟨data.toArray, 8 * k + 3⟩
      = some ((out ++ body).toArray, ⟨data.toArray, 8 * (k + (storedBlock flag body).length)⟩) := by
  have hlength : BitReader.bits 16 ⟨data.toArray, 8 * (k + 1)⟩
      = some (body.length, ⟨data.toArray, 8 * (k + 3)⟩) :=
    BitReader.bits_of_partAt (Nat.lt_succ_of_le hroom) h.right.left
  have hcomplement : BitReader.bits 16 ⟨data.toArray, 8 * (k + 3)⟩
      = some (maxBlock - body.length, ⟨data.toArray, 8 * (k + 5)⟩) :=
    BitReader.bits_of_partAt (Nat.lt_succ_of_le (Nat.sub_le _ _)) h.right.right.left
  have hbody : BitReader.takeBytes body.length ⟨data.toArray, 8 * (k + 5)⟩
      = some (body.toArray, ⟨data.toArray, 8 * (k + 5 + body.length)⟩) :=
    BitReader.takeBytes_of_partAt h.right.right.right
  have hsum : body.length + (maxBlock - body.length) = 0xFFFF := Nat.add_sub_cancel' hroom
  rw [readStored, BitReader.bind_of_eq _ (BitReader.align_of_lt (by decide) (by decide)),
    BitReader.bind_of_eq _ hlength, BitReader.bind_of_eq _ hcomplement, if_pos hsum,
    BitReader.bind_of_eq _ hbody, List.append_toArray, length_storedBlock, ← Nat.add_assoc]
  rfl

/-- A stored block is read, and the blocks behind it if it is not the last one. -/
theorem readBlocks_of_partAt (hflag : flag.toNat < 2) (hroom : body.length ≤ maxBlock)
    (h : PartAt data k (storedBlock flag body)) :
    readBlocks (fuel + 1) out.toArray ⟨data.toArray, 8 * k⟩
      = (if flag.toNat = 1 then return (out ++ body).toArray
        else readBlocks fuel (out ++ body).toArray : BitReader (Array UInt8))
        ⟨data.toArray, 8 * (k + (storedBlock flag body).length)⟩ := by
  have hhead : data.toArray[k]? = some flag := h.left.getElem?
  have hlast : BitReader.bit ⟨data.toArray, 8 * k⟩
      = some (flag.toNat, ⟨data.toArray, 8 * k + 1⟩) := by
    have hlow : flag.toNat >>> 0 % 2 = flag.toNat := Nat.mod_eq_of_lt hflag
    rw [← hlow]
    exact BitReader.bit_of_getElem? (j := 0) hhead (by decide)
  -- The first byte is below 2, so behind its lowest bit there is the kind 0.
  have hkind : BitReader.bits 2 ⟨data.toArray, 8 * k + 1⟩
      = some (0, ⟨data.toArray, 8 * k + 3⟩) := by
    have hzero : flag.toNat >>> 1 % 2 ^ 2 = 0 := by
      rw [Nat.shiftRight_eq_div_pow, Nat.div_eq_of_lt hflag, Nat.zero_mod]
    rw [← hzero]
    exact BitReader.bits_of_getElem? hhead (by decide)
  rw [readBlocks, BitReader.bind_of_eq _ hlast, BitReader.bind_of_eq _ hkind, readBlock,
    BitReader.bind_of_eq _ (readStored_of_partAt hroom h)]

theorem storedBlocks_zero : storedBlocks 0 body = storedBlock 1 body := by
  simp only [storedBlocks, storedBlock, List.cons_append, List.append_assoc, List.nil_append]

theorem storedBlocks_succ (hfull : maxBlock ≤ body.length) :
    storedBlocks (count + 1) body
      = storedBlock 0 (body.take maxBlock) ++ storedBlocks count (body.drop maxBlock) := by
  simp only [storedBlocks, storedBlock, List.length_take, Nat.min_eq_left hfull, Nat.sub_self,
    List.cons_append, List.append_assoc, List.nil_append]

/-- Blocks are read into whatever the blocks before them gave. -/
theorem readBlocks_storedBlocks (hlow : count * maxBlock ≤ body.length)
    (hhigh : body.length ≤ (count + 1) * maxBlock) (hfuel : count < fuel)
    (h : PartAt data k (storedBlocks count body)) :
    ∃ c, readBlocks fuel out.toArray ⟨data.toArray, 8 * k⟩ = some ((out ++ body).toArray, c) := by
  induction count generalizing body out k fuel with
  | zero =>
    rw [Nat.zero_add, Nat.one_mul] at hhigh
    rw [storedBlocks_zero] at h
    cases fuel with
    | zero => exact absurd hfuel (Nat.not_lt_zero _)
    | succ fuel =>
      rw [readBlocks_of_partAt (by decide) hhigh h, if_pos (by decide)]
      exact ⟨_, rfl⟩
  | succ count ih =>
    rw [Nat.add_one_mul] at hlow hhigh
    have hfull : maxBlock ≤ body.length := by omega
    have htake : (body.take maxBlock).length ≤ maxBlock := List.length_take_le _ _
    have hdrop : (body.drop maxBlock).length = body.length - maxBlock := List.length_drop
    rw [storedBlocks_succ hfull] at h
    cases fuel with
    | zero => exact absurd hfuel (Nat.not_lt_zero _)
    | succ fuel =>
      have hout : out ++ body.take maxBlock ++ body.drop maxBlock = out ++ body := by
        rw [List.append_assoc, List.take_append_drop]
      rw [readBlocks_of_partAt (by decide) htake h.left, if_neg (by decide), ← hout]
      exact ih (by omega) (by omega) (Nat.lt_of_succ_lt_succ hfuel) h.right

theorem lt_length_storedBlocks (count : Nat) (body : Bytes) :
    count < (storedBlocks count body).length := by
  induction count generalizing body with
  | zero => exact Nat.zero_lt_succ _
  | succ count ih =>
    have hrest := ih (body.drop maxBlock)
    simp only [storedBlocks, List.cons_append, List.length_cons, List.length_append]
    omega

theorem inflate?_storedBlocks (hlow : count * maxBlock ≤ body.length)
    (hhigh : body.length ≤ (count + 1) * maxBlock) :
    inflate? (storedBlocks count body).toArray = some body.toArray := by
  have hfuel : count < 8 * (storedBlocks count body).toArray.size + 1 := by
    have hlength := lt_length_storedBlocks count body
    rw [List.size_toArray]
    omega
  obtain ⟨c, hc⟩ : ∃ c, readBlocks _ #[] ⟨_, 8 * 0⟩ = some (([] ++ body).toArray, c) :=
    readBlocks_storedBlocks hlow hhigh hfuel PartAt.self
  exact congrArg (Option.map Prod.fst) hc

/-- Data that were packed, in either way, are unpacked. -/
theorem plainData?_packedData (compressed : Bool) (m : Member) :
    plainData? (if compressed then 8 else 0) (crc32 m.content).toNat
      (packedData compressed m).toArray = some m.content := by
  cases compressed with
  | false => exact if_pos rfl
  | true =>
    have hpos : 0 < maxBlock := by decide
    have hlow : (m.content.length - 1) / maxBlock * maxBlock ≤ m.content.length :=
      Nat.le_trans (Nat.div_mul_le_self _ _) (Nat.sub_le _ _)
    have hhigh : m.content.length ≤ ((m.content.length - 1) / maxBlock + 1) * maxBlock := by
      have := Nat.lt_div_mul_add (a := m.content.length - 1) hpos
      rw [Nat.add_one_mul]
      omega
    simp only [plainData?, packedData, if_true, inflate?_storedBlocks hlow hhigh,
      Option.bind_eq_bind, Option.bind_some]

/-! ## Members -/

theorem nameOf_bytes (name : String) : nameOf (nameFlags name) (Utf8.bytes name) = name := by
  by_cases hascii : (Utf8.bytes name).all (· < 0x80) = true
  · have hall : ∀ b ∈ Utf8.bytes name, b < 0x80 := by
      simpa only [List.all_eq_true, decide_eq_true_eq] using hascii
    rw [nameFlags, if_pos hascii, nameOf, if_neg (by decide), Text.CodePage.decode_bytes hall]
  · rw [nameFlags, if_neg hascii, nameOf, if_pos (by decide), Utf8.decode_bytes]

theorem nameFlags_lt (name : String) : nameFlags name < 0x10000 := by
  rw [nameFlags]
  split <;> decide

theorem nameFlags_mod_two (name : String) : nameFlags name % 2 = 0 := by
  rw [nameFlags]
  split <;> rfl

theorem guard_true [Decidable True] : (guard True : Option Unit) = some () :=
  (Option.guard_eq_some' ()).2 trivial

variable {compressed : Bool} {m : Member} {line start : Nat}

/-- A directory line and the record that it leads to give the member. -/
theorem memberAt?_of_partAt (hstart : start < 0x100000000)
    (hname : (Utf8.bytes m.name).length < 0x10000)
    (hpacked : (packedData compressed m).length < 0x100000000)
    (hline : PartAt data line (directoryLine compressed m start))
    (hrecord : PartAt data start (record compressed m)) :
    memberAt? data.toArray 0 line
      = some (m, line + (directoryLine compressed m start).length) := by
  -- Every field with its place, from the two encodings.
  simp only [directoryLine, record, description, PartAt.append_iff, and_assoc, List.length_append,
    length_two, length_four, List.length_cons, List.length_nil, Nat.add_assoc, Nat.reduceAdd]
    at hline hrecord
  obtain ⟨hmark, -, -, hflags, hmethod, -, -, hchecksum, hlength, -, hnameLength, hfields, hcomment,
    -, -, -, hoffset, hnameBytes⟩ := hline
  obtain ⟨hrecordMark, -, -, -, -, -, -, -, -, hnameLength', hfields', -, hdata⟩ := hrecord
  have hmethodIs : (if compressed then 8 else 0) % 0x10000 = if compressed then 8 else 0 := by
    cases compressed <;> rfl
  have hchecksumIs : (crc32 m.content).toNat % 0x100000000 = (crc32 m.content).toNat :=
    Nat.mod_eq_of_lt (crc32 m.content).toNat_lt
  have hend : line + (directoryLine compressed m start).length
      = line + 46 + (Utf8.bytes m.name).length := by
    simp only [directoryLine, description, List.length_append, length_two, length_four,
      List.length_cons, List.length_nil, Nat.add_assoc, Nat.reduceAdd]
  simp only [memberAt?, isMarked_of_partAt hmark, isMarked_of_partAt hrecordMark,
    two?_of_partAt hflags, two?_of_partAt hmethod, four?_of_partAt hchecksum,
    four?_of_partAt hlength, two?_of_partAt hnameLength, two?_of_partAt hfields,
    two?_of_partAt hcomment, four?_of_partAt hoffset, cut?_of_partAt hnameBytes,
    two?_of_partAt hnameLength', two?_of_partAt hfields', cut?_of_partAt hdata,
    Nat.mod_eq_of_lt (nameFlags_lt m.name), Nat.mod_eq_of_lt hname, Nat.mod_eq_of_lt hpacked,
    Nat.mod_eq_of_lt hstart, hmethodIs, hchecksumIs, nameFlags_mod_two, plainData?_packedData,
    nameOf_bytes, guard_true, Nat.zero_add, Nat.zero_mod, Nat.add_zero, Option.pure_def,
    Option.bind_eq_bind, Option.bind_some, hend]

/-! ## The whole jar -/

/-- The numbers of a jar have room in a container. -/
structure Fits (jar : Jar) : Prop where
  /-- The length of each name has two bytes. -/
  name : ∀ m ∈ jar.members, (Utf8.bytes m.name).length < 0x10000
  /-- The number of members has two bytes. -/
  count : jar.members.length < 0x10000
  /-- Every place in the container has four bytes. -/
  size : (pack jar).length < 0x100000000

variable {members : List Member}

/-- The members of a run of directory lines, when their records stand where the lines say. -/
theorem membersFrom?_of_partAt (hname : ∀ m ∈ members, (Utf8.bytes m.name).length < 0x10000)
    (hsize : data.length < 0x100000000)
    (hlines : PartAt data line (recordsAndDirectory compressed start members).2)
    (hrecords : PartAt data start (recordsAndDirectory compressed start members).1) :
    membersFrom? data.toArray 0 line members.length = some members := by
  induction members generalizing line start with
  | nil => rfl
  | cons m members ih =>
    rw [recordsAndDirectory] at hlines hrecords
    have hpacked : (packedData compressed m).length ≤ (record compressed m).length := by
      rw [record, List.length_append]
      exact Nat.le_add_left _ _
    have hroom := hrecords.left.le_length
    have hfirst := memberAt?_of_partAt (by omega) (hname m List.mem_cons_self) (by omega)
      hlines.left hrecords.left
    have hrest := ih (fun n hn => hname n (List.mem_cons_of_mem m hn)) hlines.right hrecords.right
    rw [List.length_cons, membersFrom?, hfirst]
    simp only [Option.bind_eq_bind, Option.bind_some, hrest]
    rfl

/-- The end record is found where it stands if nothing is behind it. -/
theorem findEnd?_of_partAt (h : PartAt data i [0x50, 0x4B, 5, 6]) (hsize : data.length = i + 22) :
    findEnd? data.toArray = some i := by
  have hroom : ¬ i + 22 < 22 := by omega
  rw [findEnd?, List.size_toArray, hsize, if_neg hroom, Nat.add_sub_cancel]
  simp only [List.range_succ_eq_map, List.findSome?_cons, Nat.sub_zero, isMarked_of_partAt h, if_true]

/-- The members of a jar are unpacked from its bytes. -/
theorem unpack?_pack {jar : Jar} (h : Fits jar) : unpack? (pack jar) = some jar.members := by
  obtain ⟨hname, hcount, hsize⟩ := h
  generalize hdata : pack jar = data at hsize ⊢
  generalize hparts : recordsAndDirectory jar.compressed 0 jar.members = parts
  have hall : PartAt data 0 (pack jar) := hdata ▸ PartAt.self
  have hlength : data.length = parts.1.length + parts.2.length + 22 := by
    rw [← hdata]
    simp only [pack, hparts, List.length_append, length_two, length_four, List.length_cons,
      List.length_nil, Nat.add_assoc, Nat.reduceAdd]
  simp only [pack, hparts, PartAt.append_iff, and_assoc, List.length_append, length_two, length_four,
    List.length_cons, List.length_nil, Nat.zero_add, Nat.add_assoc, Nat.reduceAdd] at hall
  obtain ⟨hrecords, hdirectory, hmark, -, -, -, hcount', hlines, hrecords', -⟩ := hall
  have hsmall : parts.1.length < 0x100000000 := by omega
  have hsmall' : parts.2.length < 0x100000000 := by omega
  subst hparts
  have hmembers := membersFrom?_of_partAt hname hsize hdirectory hrecords
  simp only [unpack?, findEnd?_of_partAt hmark hlength, Nat.add_assoc, two?_of_partAt hcount',
    four?_of_partAt hlines, four?_of_partAt hrecords', Nat.mod_eq_of_lt hcount,
    Nat.mod_eq_of_lt hsmall, Nat.mod_eq_of_lt hsmall', guard_true, Nat.le_refl, Nat.sub_self,
    Nat.zero_add, hmembers, Option.bind_eq_bind, Option.bind_some]

example : Fits ⟨[⟨"p/A.class", [1, 2]⟩, ⟨"é/", []⟩], true⟩ :=
  ⟨by decide, by decide, by decide +kernel⟩

end LinkSet.Zip

namespace LinkSet.Content

/-- A jar has the same members when it is held as its bytes. -/
theorem members?_pack {jar : Jar} (h : Zip.Fits jar) :
    (plain (packed jar).toBytes).members? = (packed jar).members? :=
  Zip.unpack?_pack h

end LinkSet.Content
