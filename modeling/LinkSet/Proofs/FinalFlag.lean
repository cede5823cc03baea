import LinkSet.Proofs.Changed

/-!
# The flag of final classes

To mark a class final sets one bit of one byte, the low byte of the flags
(`ClassForm.encode_setFinal`). No other byte changes. So all else that is read from the file stays
as it was, and so do the other flags, whether they have a name or not
(`ClassFile.parse_apply_markFinal`).
-/

namespace LinkSet

/-- The bits of two numbers are put together byte by byte. -/
theorem Bytes.ofUInt16_or (m n : UInt16) :
    ofUInt16 (m ||| n) = List.zipWith (· ||| ·) (ofUInt16 m) (ofUInt16 n) := by
  have hhigh : (m.toNat ||| n.toNat) / 0x100 = m.toNat / 0x100 ||| n.toNat / 0x100 :=
    Nat.or_div_two_pow (n := 8)
  simp only [ofUInt16, UInt16.toNat_or, hhigh, UInt8.ofNat_or, List.zipWith_cons_cons,
    List.zipWith_nil_left]

namespace ClassForm

/-- The two bytes of the flags stand between the constant pool and the rest. -/
theorem exists_flagBytes (f : ClassForm) : ∃ high low, Bytes.ofUInt16 f.flags = [high, low]
    ∧ f.encode = (f.head ++ f.pool.encode) ++ high :: low :: f.behindFlags := by
  refine ⟨_, _, rfl, ?_⟩
  rw [encode_eq_flags, List.append_assoc]
  rfl

/-- With the flag of final classes set, one bit of one byte is set. -/
theorem encode_setFinal (f : ClassForm) :
    ∃ old, f.encode[f.bodyStart + 1]? = some old
      ∧ { f with flags := f.flags ||| AccessFlags.finalBit }.encode
        = f.encode.set (f.bodyStart + 1) (old ||| 0x10) := by
  obtain ⟨high, low, hflags, hencode⟩ := f.exists_flagBytes
  obtain ⟨high', low', hflags', hencode'⟩ :=
    { f with flags := f.flags ||| AccessFlags.finalBit }.exists_flagBytes
  have hfinal : Bytes.ofUInt16 AccessFlags.finalBit = [0, 0x10] := by decide
  obtain ⟨rfl, rfl⟩ : high' = high ∧ low' = low ||| 0x10 := by
    have hbytes : [high', low'] = [high ||| 0, low ||| 0x10] := by
      rw [← hflags', Bytes.ofUInt16_or, hflags, hfinal]
      rfl
    simpa using hbytes
  have hbehind : f.bodyStart + 1 - (f.head ++ f.pool.encode).length = 1 := by
    rw [bodyStart]
    omega
  have hle : (f.head ++ f.pool.encode).length ≤ f.bodyStart + 1 := by
    rw [bodyStart]
    omega
  refine ⟨low, ?_, ?_⟩
  · rw [hencode, List.getElem?_append_right hle, hbehind]
    rfl
  · rw [hencode', hencode, List.set_append_right _ _ hle, hbehind]
    rfl

end ClassForm

namespace ClassFile

/-- A class file can always be marked final. All that changes is one bit: of the bytes it is a bit
of the low byte of the flags, and of what is read from them it is the flag of final classes. To mark
the class final once more changes nothing. -/
theorem parse_apply_markFinal {b : Bytes} {cf : ClassFile} (hparse : parse b = .ok cf) :
    ∃ old out, b[cf.layout.poolEnd + 1]? = some old
      ∧ cf.apply .markFinal b = .ok out
      ∧ out.length = b.length ∧ out = b.set (cf.layout.poolEnd + 1) (old ||| 0x10)
      ∧ parse out = .ok { cf with access := cf.access.insert AccessFlags.finalBit }
      ∧ { cf with access := cf.access.insert AccessFlags.finalBit }.apply .markFinal out
        = .ok out := by
  obtain ⟨f, rfl, hres, hd⟩ := parse_eq_ok.1 hparse
  obtain ⟨old, hold, hset⟩ := f.encode_setFinal
  have hplace : cf.layout.poolEnd = f.bodyStart := by rw [hd.layout]
  have hsize : f.encode.length = cf.layout.size := by rw [hd.layout]
  have haccess : cf.access.insert AccessFlags.finalBit = ⟨f.flags ||| AccessFlags.finalBit⟩ := by
    rw [hd.access, AccessFlags.insert]
  have hd' : { f with flags := f.flags ||| AccessFlags.finalBit }.Describes
      { cf with access := cf.access.insert AccessFlags.finalBit } := by
    rw [haccess]
    exact hd.withFlags
  have hmark := ClassForm.markFinal_encode hd
  have hagain := ClassForm.markFinal_encode hd'
  dsimp only at hagain
  rw [UInt16.or_assoc, UInt16.or_self] at hagain
  refine ⟨old, { f with flags := f.flags ||| AccessFlags.finalBit }.encode, ?_, ?_,
    ClassForm.length_withFlags, ?_, parse_eq_ok.2 ⟨_, rfl, hres.withFlags, hd'⟩, ?_⟩
  · rw [hplace, hold]
  · rw [apply, if_pos hsize, hmark]
  · rw [hplace, hset]
  · rw [apply, if_pos (ClassForm.length_withFlags.trans hsize), hagain]

/-- A class with a flag that has no name. -/
def oddBytes : Bytes := plainBytes.set 18 0xA1

/-- The flag without a name stays. -/
theorem parse_apply_markFinal_odd :
    ∃ cf cf', parse oddBytes = .ok cf ∧ cf.access.unnamed = 0x80
      ∧ parse (oddBytes.set 18 0xB1) = .ok cf' ∧ cf'.access.unnamed = 0x80
      ∧ cf'.apply .markFinal (oddBytes.set 18 0xB1) = .ok (oddBytes.set 18 0xB1) := by
  have hparse : parse oddBytes = .ok { plainClass with access := ⟨0xA1⟩ } := by decide +kernel
  obtain ⟨old, out, hold, -, -, hset, hparse', hagain⟩ := parse_apply_markFinal hparse
  obtain rfl : old = 0xA1 := by
    have hbyte : oddBytes[18]? = some 0xA1 := by decide
    exact (Option.some.inj (hbyte.symm.trans hold)).symm
  have hout : out = oddBytes.set 18 0xB1 := hset
  rw [hout] at hparse' hagain
  exact ⟨_, _, hparse, by decide, hparse', by decide, hagain⟩

end ClassFile

end LinkSet
