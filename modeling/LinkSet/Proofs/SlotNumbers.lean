import LinkSet.Proofs.SealingEnds

/-!
# The number of slots

The number of slots of a constant pool is written in 16 bits. Sealing counts the slots that it adds,
and refuses to add more than can be counted. But a pool that ends in a long or double can have one
slot more than the number in front of it says, 65536 in all. If nothing is added to such a pool, no
check is made, and the number of slots that is written is 0
(`ClassFile.count_ne_of_sealTo_crowded`). In all other cases it is right
(`ClassFile.count_of_sealTo`).
-/

namespace LinkSet

namespace ClassForm

variable {f : ClassForm} {permitted : Option PermittedSubclasses} {names : List String}
  {out : Bytes}

/-- The number of slots that is written is taken modulo 2¹⁶. -/
theorem SealingEnd.slice_count (h : f.SealingEnd permitted names (.ok out)) :
    Bytes.slice out 8 10
      = Bytes.ofUInt16 (UInt16.ofNat (f.pool.pool.size + f.pool.pool.needed names)) := by
  cases h with
  | written =>
    simp only [List.append_assoc]
    rw [← List.append_assoc]
    exact Bytes.slice_mid rfl rfl

/-- A pool to which constants are added has room for them, and then their number can be written. -/
theorem SealingEnd.toNat_count (h : f.SealingEnd permitted names (.ok out))
    (hsize : f.pool.pool.size ≤ PoolExtension.maxSlots) :
    (UInt16.ofNat (f.pool.pool.size + f.pool.pool.needed names)).toNat
      = f.pool.pool.size + f.pool.pool.needed names := by
  cases h with
  | written _ hroom =>
    unfold PoolExtension.maxSlots at hsize hroom
    refine toNat_ofNat_of_lt ?_
    omega

theorem SealingEnd.needed_eq_zero (h : f.SealingEnd permitted names (.ok out))
    (hsize : PoolExtension.maxSlots < f.pool.pool.size) : f.pool.pool.needed names = 0 := by
  cases h with
  | written _ hroom => omega

/-- If there is no room for what is needed, this is what sealing fails with, unless it has met a
name that is too long. -/
theorem SealingEnd.of_full {result : Except ClassFileError Bytes}
    (h : f.SealingEnd permitted names result) (hlacking : f.pool.pool.needed names ≠ 0)
    (hfull : PoolExtension.maxSlots < f.pool.pool.size + f.pool.pool.needed names) :
    (∃ slots, result = .error (.constantPoolOverflow slots))
      ∨ ∃ n ∈ names, PoolExtension.maxTextLength < (ModifiedUtf8.encode n).length
        ∧ result = .error (.nameTooLong (ModifiedUtf8.encode n).length) := by
  cases h with
  | written _ hroom => omega
  | @tooLong name hname hlong => exact .inr ⟨name, hname, hlong, rfl⟩
  | noRoom => exact .inl ⟨_, rfl⟩
  | noPlace hroom => omega

end ClassForm

namespace ClassFile

open AttributeForm (encodeTable ListingPut)

/-- The number of slots that sealing writes is the number of slots there were and of constants that
it has added, if the pool had no slot too many. It adds as many as are needed, and behind them only
the listing is new. With a slot too many sealing either fails, or adds nothing, writes 0, and what
comes out cannot be read. If there are not as many slots left as are needed, sealing fails. -/
theorem count_of_sealTo {b : Bytes} {cf : ClassFile} (hparse : parse b = .ok cf)
    (subtypes : NameSet) :
    (∃ old : Table AttributeForm, b.drop cf.layout.attributesCount = encodeTable old
      ∧ ∀ out, cf.apply (.sealTo subtypes) b = .ok out →
        ∃ (count : UInt16) (added : List Constant) (listing : AttributeForm)
          (new : Table AttributeForm),
          out = b.take 8 ++ Bytes.ofUInt16 count ++ b.slice 10 cf.layout.poolEnd
            ++ added.flatMap Constant.encode
            ++ (b.slice cf.layout.poolEnd cf.layout.attributesCount ++ encodeTable new)
          ∧ Bytes.slice out 8 10 = Bytes.ofUInt16 count
          ∧ (∀ k ∈ added, PoolExtension.Addable k)
          ∧ added.length = cf.pool.needed subtypes.toList
          ∧ ListingPut cf.pool listing old.1 new.1
          ∧ (cf.pool.size ≤ 65535 → count.toNat = cf.pool.size + added.length)
          ∧ (65535 < cf.pool.size →
            cf.pool.size = 65536 ∧ added = [] ∧ count = 0 ∧ ∀ cf', parse out ≠ .ok cf'))
    ∧ (cf.pool.needed subtypes.toList ≠ 0 →
      65535 < cf.pool.size + cf.pool.needed subtypes.toList →
      (∃ slots, cf.apply (.sealTo subtypes) b = .error (.constantPoolOverflow slots))
        ∨ ∃ n ∈ subtypes, 65535 < (ModifiedUtf8.encode n).length
          ∧ cf.apply (.sealTo subtypes) b
            = .error (.nameTooLong (ModifiedUtf8.encode n).length)) := by
  obtain ⟨f, rfl, _, hd⟩ := parse_eq_ok.1 hparse
  have hend := ClassForm.sealTo_ends hd subtypes.nodup_toList
  rw [← hd.apply_sealTo] at hend
  have hpool : cf.pool = f.pool.pool := hd.pool
  constructor
  · refine ⟨f.attributes, hd.drop_attributes, fun out hout => ?_⟩
    have hunread : 65535 < cf.pool.size → ∀ cf', parse out ≠ .ok cf' := by
      intro hlarge cf' hparse'
      exact absurd (size_le_of_parse_sealTo hparse hout hparse') (Nat.not_le.2 hlarge)
    rw [hout] at hend
    have hslice := hend.slice_count
    have hcount := hend.toNat_count
    have hzero := hend.needed_eq_zero
    have hlimit := f.pool.size_le
    rw [hpool, hd.slice_constants, hd.slice_body, f.take_head]
    rw [hpool] at hunread
    cases hend with
    | written _ _ _ haddable hlength hput =>
      refine ⟨_, _, _, _, rfl, hslice, haddable, hlength, hput, ?_,
        fun hlarge => ⟨by omega, ?_, ?_, hunread hlarge⟩⟩
      · rw [hlength]
        exact hcount
      · rw [hzero hlarge] at hlength
        exact List.length_eq_zero_iff.1 hlength
      · have hall : f.pool.pool.size = 65536 := by omega
        rw [hzero hlarge, hall]
        rfl
  · intro hlacking hfull
    rw [hpool] at hlacking hfull
    rcases hend.of_full hlacking hfull with hoverflow | ⟨n, hn, hlong, herror⟩
    · exact .inl hoverflow
    · exact .inr ⟨n, Std.ExtTreeSet.mem_toList.1 hn, hlong, herror⟩

/-- The class `A` has three slots. Sealing it to `B` and `C` takes five constants, the name of the
attribute and two for each of them, and 8 slots are written. -/
theorem count_of_sealTo_plain :
    ∃ (out : Bytes) (added : List Constant),
      plainClass.apply (.sealTo (NameSet.ofList ["B", "C"])) plainBytes = .ok out
        ∧ added.length = 5 ∧ Bytes.slice out 8 10 = [0, 8]
        ∧ plainBytes.take 8 ++ [0, 8] ++ plainBytes.slice 10 17 ++ added.flatMap Constant.encode
          ++ plainBytes.slice 17 29 <+: out := by
  have hneeded : plainClass.pool.needed (NameSet.ofList ["B", "C"]).toList = 5 := by decide +kernel
  have hok : (plainClass.apply (.sealTo (NameSet.ofList ["B", "C"])) plainBytes).isOk := by
    decide +kernel
  cases happly : plainClass.apply (.sealTo (NameSet.ofList ["B", "C"])) plainBytes with
  | error cause =>
    rw [happly] at hok
    cases hok
  | ok out =>
    obtain ⟨_, _, hwritten⟩ := (count_of_sealTo parse_plainBytes (NameSet.ofList ["B", "C"])).1
    obtain ⟨count, added, listing, new, hout, hslice, -, hlength, -, hcount, -⟩ :=
      hwritten out happly
    rw [hneeded] at hlength
    have hnumber : count.toNat = 8 := by
      rw [hcount (by decide), hlength]
      rfl
    have hbytes : Bytes.ofUInt16 count = [0, 8] := by
      rw [show count = 8 from UInt16.toNat_inj.1 hnumber]
      rfl
    rw [hbytes] at hout hslice
    refine ⟨out, added, rfl, hlength, hslice, encodeTable new, ?_⟩
    rw [hout]
    simp only [List.append_assoc]
    rfl

end ClassFile

/-! ## A pool with a slot too many -/

namespace ConstantForm

theorem slotsOf_replicate (n : Nat) (x : ConstantForm) :
    slotsOf (List.replicate n x) = n * x.slots := by
  induction n with
  | zero => rw [List.replicate_zero, slotsOf_nil, Nat.zero_mul]
  | succ n ih => rw [List.replicate_succ, slotsOf_cons, ih, Nat.succ_mul, Nat.add_comm]

/-- Of constants with two slots, the last may take one that is not missing. -/
theorem fills_replicate {x : ConstantForm} (hx : x.slots = 2) (n : Nat) :
    Fills (2 * n - 1) (List.replicate n x) := by
  induction n with
  | zero => exact fills_nil.2 rfl
  | succ n ih =>
    have hrest : 2 * (n + 1) - 1 - x.slots = 2 * n - 1 := by omega
    rw [List.replicate_succ, fills_cons, hrest]
    exact ⟨by omega, ih⟩

/-- The long 0. -/
def longZero : ConstantForm := .wide 5 [0, 0, 0, 0, 0, 0, 0, 0] (.inl rfl) rfl

/-- A class `A`, and the name of the attribute that lists permitted subclasses. -/
def named : List ConstantForm :=
  [.utf8 [65] (by decide), .classRef 1,
    .utf8 (ModifiedUtf8.encode PermittedSubclasses.attributeName) (by decide +kernel)]

end ConstantForm

namespace PoolForm

/-- A pool that says that it has 65535 slots, with a long that begins in the last of them. -/
def crowded : PoolForm where
  count := 0xFFFF
  constants := ConstantForm.named ++ List.replicate 32766 ConstantForm.longZero
  fills := by
    have hrest := ConstantForm.fills_replicate (x := .longZero) rfl 32766
    change ConstantForm.Fills 65534 (_ :: _ :: _ :: List.replicate 32766 ConstantForm.longZero)
    simp only [ConstantForm.fills_cons, ConstantForm.slots]
    exact ⟨by decide, by decide, by decide, hrest⟩

theorem size_crowded : crowded.pool.size = 65536 := by
  have hnamed : ConstantForm.slotsOf ConstantForm.named = 3 := rfl
  have hlong : ConstantForm.longZero.slots = 2 := rfl
  have hslots : ConstantForm.slotsOf crowded.constants = 3 + 32766 * 2 := by
    rw [crowded, ConstantForm.slotsOf_append, ConstantForm.slotsOf_replicate, hnamed, hlong]
  rw [size_pool, hslots]

/-- The first slots hold what they are named for. -/
theorem slot?_crowded {i : Nat} {k : Constant}
    (h : (pushAll .empty ConstantForm.named).slot? i = some k) : crowded.pool.slot? i = some k := by
  rw [pool, crowded, pushAll_append]
  exact growsTo_pushAll _ _ i k h

theorem needed_crowded : crowded.pool.needed [] = 0 := by
  have hslot := slot?_crowded (i := 3) rfl
  have htext : crowded.pool.hasText (ModifiedUtf8.encode PermittedSubclasses.attributeName)
      = true := by
    obtain ⟨hi, hget⟩ := Array.getElem?_eq_some_iff.1 hslot
    exact Array.any_eq_true.2 ⟨3, hi, ConstantPool.isUtf8_iff.2 hget⟩
  rw [ConstantPool.needed, if_pos htext]
  rfl

end PoolForm

namespace ClassForm

/-- A public class `A` without a superclass, members and attributes, over the crowded pool. -/
def crowded : ClassForm where
  minorVersion := 0
  majorVersion := 52
  pool := .crowded
  flags := 0x21
  thisIndex := 2
  superIndex := 0
  interfaces := ⟨[], by decide⟩
  fields := ⟨[], by decide⟩
  methods := ⟨[], by decide⟩
  attributes := ⟨[], by decide⟩

theorem resolves_crowded : crowded.Resolves where
  thisIndex := by
    have hclass : PoolForm.crowded.pool.slot? 2 = some (.classRef 1) := PoolForm.slot?_crowded rfl
    have htext : PoolForm.crowded.pool.slot? 1 = some (.utf8 [65]) := PoolForm.slot?_crowded rfl
    have hname : ModifiedUtf8.decode? [65] = some "A" := by decide +kernel
    exact ⟨"A", [65], ⟨1, hclass, htext⟩, hname⟩
  superIndex := fun h => absurd rfl h
  interfaces := fun _ h => nomatch h
  attributes := fun _ h => nomatch h

end ClassForm

namespace ClassFile

/-- The bytes of a class whose pool takes 65536 slots. -/
def crowdedBytes : Bytes :=
  [0xCA, 0xFE, 0xBA, 0xBE, 0, 0, 0, 52] ++ [0xFF, 0xFF]
    ++ ([1, 0, 1, 65, 7, 0, 1]
      ++ [1, 0, 19, 80, 101, 114, 109, 105, 116, 116, 101, 100, 83, 117, 98, 99, 108, 97, 115, 115,
        101, 115]
      ++ (List.replicate 32766 [5, 0, 0, 0, 0, 0, 0, 0, 0]).flatten)
    ++ [0, 0x21, 0, 2, 0, 0, 0, 0, 0, 0, 0, 0] ++ [0, 0]

theorem encode_crowded : ClassForm.crowded.encode = crowdedBytes := by
  have hnamed : ConstantForm.named.flatMap ConstantForm.encode
      = [1, 0, 1, 65, 7, 0, 1]
        ++ [1, 0, 19, 80, 101, 114, 109, 105, 116, 116, 101, 100, 83, 117, 98, 99, 108, 97, 115,
          115, 101, 115] := by decide +kernel
  have hlong : ConstantForm.longZero.encode = [5, 0, 0, 0, 0, 0, 0, 0, 0] := rfl
  have hpool : ClassForm.crowded.pool.encode = [0xFF, 0xFF] ++ (ConstantForm.named
      ++ List.replicate 32766 ConstantForm.longZero).flatMap ConstantForm.encode := rfl
  have hhead : ClassForm.crowded.head = [0xCA, 0xFE, 0xBA, 0xBE, 0, 0, 0, 52] := by decide
  have hbody : ClassForm.crowded.body = [0, 0x21, 0, 2, 0, 0, 0, 0, 0, 0, 0, 0] := by decide
  have hattributes : AttributeForm.encodeTable ClassForm.crowded.attributes = [0, 0] := by decide
  rw [ClassForm.encode, hhead, hpool, hbody, hattributes, List.flatMap_append, hnamed,
    List.flatMap_replicate, hlong, crowdedBytes, List.append_assoc _ [0xFF, 0xFF]]

/-- Sealing a class with 65536 slots, when no constant is missing, writes 0 as their number. -/
theorem count_ne_of_sealTo_crowded :
    ∃ cf out, parse crowdedBytes = .ok cf ∧ cf.pool.size = 65536
      ∧ cf.apply (.sealTo (NameSet.ofList [])) crowdedBytes = .ok out
      ∧ Bytes.slice out 8 10 = [0, 0] ∧ ∀ cf', parse out ≠ .ok cf' := by
  obtain ⟨cf, hd⟩ := ClassForm.resolves_crowded.exists_describes
  have hparse : parse crowdedBytes = .ok cf :=
    parse_eq_ok.2 ⟨.crowded, encode_crowded, ClassForm.resolves_crowded, hd⟩
  have hpool : cf.pool.size = 65536 := by
    rw [hd.pool]
    exact PoolForm.size_crowded
  have hneeded : ClassForm.crowded.pool.pool.needed [] = 0 := PoolForm.needed_crowded
  have hnames : (NameSet.ofList []).toList = [] := by decide +kernel
  have hend : ClassForm.crowded.SealingEnd cf.permitted [] (cf.sealTo crowdedBytes []) := by
    rw [← encode_crowded]
    exact ClassForm.sealTo_ends hd List.nodup_nil
  have hattributes : ClassForm.crowded.attributes.1.length < 65535 := by decide
  obtain ⟨out, hout⟩ := hend.isOk_iff.2 ⟨fun n hn => (nomatch hn), .inl hneeded, .inr hattributes⟩
  have happly : cf.apply (.sealTo (NameSet.ofList [])) crowdedBytes = .ok out := by
    have hsame := hd.apply_sealTo (NameSet.ofList [])
    rwa [encode_crowded, hnames, hout] at hsame
  refine ⟨cf, out, hparse, hpool, happly, ?_, ?_⟩
  · rw [hout] at hend
    rw [hend.slice_count, hneeded, ← hd.pool, hpool]
    rfl
  · intro cf' hparse'
    have hle := size_le_of_parse_sealTo hparse happly hparse'
    rw [hpool] at hle
    exact absurd hle (by decide)

end ClassFile

end LinkSet
