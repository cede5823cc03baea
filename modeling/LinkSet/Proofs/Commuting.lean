import LinkSet.Proofs.SealedForms

/-!
# Final and sealed in either order

To mark a class final and to seal it are changes at different places of its form. Marking looks at no
constant and at no attribute, and sealing does not look at the flags: of two forms that differ in
their flags alone, either both are sealed in the same way or both fail for the same reason
(`ClassForm.sealTo_withFlags`). So it makes no difference which of the two comes first, although what
comes first moves the places at which the other one writes (`ClassFile.markFinal_sealTo_comm`).
-/

namespace LinkSet

namespace ClassForm

variable {f : ClassForm} {cf : ClassFile} {names : List String}

theorem Describes.apply_markFinal (hd : f.Describes cf) : cf.apply .markFinal f.encode
    = .ok { f with flags := f.flags ||| AccessFlags.finalBit }.encode := by
  have hsize : f.encode.length = cf.layout.size := by rw [hd.layout]
  rw [ClassFile.apply, if_pos hsize, ← markFinal_encode hd]

/-- Sealing takes no notice of the flags, and leaves them alone. -/
theorem sealTo_withFlags (hd : f.Describes cf) (hsize : cf.pool.size ≤ PoolExtension.maxSlots)
    (hnodup : names.Nodup) (flags : UInt16) :
    (∃ f' listing, f.SealedAs f' listing names ∧ cf.sealTo f.encode names = .ok f'.encode
        ∧ { cf with access := ⟨flags⟩ }.sealTo { f with flags }.encode names
          = .ok { f' with flags }.encode)
      ∨ ∃ cause, cf.sealTo f.encode names = .error cause
        ∧ { cf with access := ⟨flags⟩ }.sealTo { f with flags }.encode names = .error cause := by
  have hd' : { f with flags }.Describes { cf with access := ⟨flags⟩ } := hd.withFlags
  rw [hd.pool] at hsize
  cases hadd : (PoolExtension.ofPool f.pool.pool).addListing names with
  | error cause =>
    refine .inr ⟨cause, ?_, ?_⟩
    · rw [sealTo_eq_bind, hd.pool, hadd]
      rfl
    · rw [sealTo_eq_bind, hd'.pool, hadd]
      rfl
  | ok result =>
    obtain ⟨⟨nameIndex, indexes⟩, e⟩ := result
    obtain ⟨indexes, q, rfl, hq, hconstants, hbytes⟩ := f.pool.exists_listed hsize hnodup hadd
    rcases sealTo_encode hd hadd hbytes with
      ⟨t, hput, hplace, hout⟩ | ⟨hmissing, hfull, hout⟩
    all_goals rcases sealTo_encode hd' hadd hbytes with
      ⟨t', hput', hplace', hout'⟩ | ⟨hmissing', hfull', hout'⟩
    · obtain rfl : t' = t := Subtype.ext (hput.unique hput')
      have hs := sealedAs_of_addListing hnodup hadd hq hconstants hput
      exact .inl ⟨_, _, hs, hout, hout'⟩
    · exact absurd hplace (not_or.2 ⟨fun hne => hne hmissing', by rw [hfull']; decide⟩)
    · exact absurd hplace' (not_or.2 ⟨fun hne => hne hmissing, by rw [hfull]; decide⟩)
    · exact .inr ⟨_, hout, hout'⟩

end ClassForm

namespace ClassFile

/-- It makes no difference whether a class is marked final before it is sealed or afterwards, with
what comes of the first change read again for the second. Either the bytes are the same, or sealing
fails for the same reason. -/
theorem markFinal_sealTo_comm {b : Bytes} {cf : ClassFile} (hparse : parse b = .ok cf)
    (hsize : cf.pool.size ≤ PoolExtension.maxSlots) (subtypes : NameSet) :
    ∃ b₁ cf₁, cf.apply .markFinal b = .ok b₁ ∧ parse b₁ = .ok cf₁
      ∧ ((∃ b₂ cf₂ out, cf.apply (.sealTo subtypes) b = .ok b₂ ∧ parse b₂ = .ok cf₂
          ∧ cf₁.apply (.sealTo subtypes) b₁ = .ok out ∧ cf₂.apply .markFinal b₂ = .ok out)
        ∨ ∃ cause, cf.apply (.sealTo subtypes) b = .error cause
          ∧ cf₁.apply (.sealTo subtypes) b₁ = .error cause) := by
  obtain ⟨f, rfl, hres, hd⟩ := parse_eq_ok.1 hparse
  let flags := f.flags ||| AccessFlags.finalBit
  have hd₁ : { f with flags }.Describes { cf with access := ⟨flags⟩ } := hd.withFlags
  refine ⟨_, _, hd.apply_markFinal, parse_eq_ok.2 ⟨_, rfl, hres.withFlags, hd₁⟩, ?_⟩
  rw [hd.apply_sealTo, hd₁.apply_sealTo]
  rcases ClassForm.sealTo_withFlags hd hsize subtypes.nodup_toList flags with
    ⟨f', listing, hs, hout, hout'⟩ | ⟨cause, hout, hout'⟩
  · obtain ⟨_, _, hd₂⟩ := hs.describes hres hd
    have hflags : f'.flags = f.flags := by rw [hs.rest]
    have hfinal := hd₂.apply_markFinal
    rw [hflags] at hfinal
    exact .inl ⟨_, _, _, hout, parse_eq_ok.2 ⟨f', rfl, hs.resolves hres, hd₂⟩, hout', hfinal⟩
  · exact .inr ⟨cause, hout, hout'⟩

/-- The class `A` is made final and sealed to `B` and `C`, in either order. -/
theorem markFinal_sealTo_comm_plain :
    ∃ b₁ cf₁ b₂ cf₂ out, plainClass.apply .markFinal plainBytes = .ok b₁ ∧ parse b₁ = .ok cf₁
      ∧ plainClass.apply (.sealTo (NameSet.ofList ["C", "B"])) plainBytes = .ok b₂
      ∧ parse b₂ = .ok cf₂ ∧ b₁ ≠ b₂
      ∧ cf₁.apply (.sealTo (NameSet.ofList ["C", "B"])) b₁ = .ok out
      ∧ cf₂.apply .markFinal b₂ = .ok out := by
  have hsize : plainClass.pool.size ≤ PoolExtension.maxSlots := by decide
  have hok : (plainClass.apply (.sealTo (NameSet.ofList ["C", "B"])) plainBytes).isOk := by
    decide +kernel
  have hdiffer : plainClass.apply .markFinal plainBytes
      ≠ plainClass.apply (.sealTo (NameSet.ofList ["C", "B"])) plainBytes := by
    decide +kernel
  obtain ⟨b₁, cf₁, hfinal, hparse₁, ⟨b₂, cf₂, out, hseal, hparse₂, hout, hout'⟩ | ⟨cause, hseal, _⟩⟩ :=
    markFinal_sealTo_comm parse_plainBytes hsize (NameSet.ofList ["C", "B"])
  · rw [hfinal, hseal] at hdiffer
    exact ⟨b₁, cf₁, b₂, cf₂, out, hfinal, hparse₁, hseal, hparse₂,
      fun heq => hdiffer (congrArg Except.ok heq), hout, hout'⟩
  · rw [hseal] at hok
    cases hok

end ClassFile

end LinkSet
