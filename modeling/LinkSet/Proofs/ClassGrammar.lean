import LinkSet.Proofs.FormUniqueness

/-!
# What the reader of class files accepts

The reader of class files accepts the bytes of a form whose indexes lead where they have to, and it
gives what the form holds (`ClassFile.parse_eq_ok`). This is put together from one statement for
each part: tables that are passed over, interfaces, the attributes of the class.

The attributes of the class are the part that is more than a sequence, because each one with
permitted subclasses takes the place of those before it. `chain_noted` turns this loop into a
statement on the last of them.
-/

namespace LinkSet

open Reader

variable {c c' : Cursor}

/-! ## Parts that are passed over -/

theorem Bytes.exists_ofUInt16 (bytes : Bytes) (h : bytes.length = 2) :
    ∃ n, bytes = Bytes.ofUInt16 n := by
  match bytes, h with
  | [hi, lo], _ => exact ⟨_, (Bytes.ofUInt16_toUInt16 hi lo).symm⟩

theorem passes_two_iff : (∃ bytes : Bytes, c.Passes bytes c' ∧ bytes.length = 2)
    ↔ ∃ n, c.Passes (Bytes.ofUInt16 n) c' := by
  constructor
  · rintro ⟨bytes, hp, hlen⟩
    obtain ⟨n, rfl⟩ := Bytes.exists_ofUInt16 bytes hlen
    exact ⟨n, hp⟩
  · rintro ⟨n, hp⟩
    exact ⟨_, hp, rfl⟩

/-- A table whose items are passed over. -/
theorem skipTable_eq_ok {α : Type} {item : Reader Unit} {encode : α → Bytes}
    (hitem : ∀ {c c' u}, item c = .ok (u, c') ↔ ∃ x, c.Passes (encode x) c') {u : Unit} :
    (do let count ← u16; iterate (fun _ => item) count.toNat () : Reader Unit) c = .ok (u, c')
      ↔ ∃ t : Table α, c.Passes (t.encode encode) c' := by
  simp only [bind_eq_ok, u16_eq_ok, iterate_skip_eq_ok hitem]
  constructor
  · rintro ⟨count, c₁, hcount, xs, hlen, hp⟩
    obtain ⟨t, _, ht⟩ := Table.passes_iff.1 ⟨count, c₁, hcount, hlen, hp⟩
    exact ⟨t, ht⟩
  · rintro ⟨t, ht⟩
    obtain ⟨count, c₁, hcount, hlen, hp⟩ := Table.passes_iff.2 ⟨t, rfl, ht⟩
    exact ⟨count, c₁, hcount, t.1, hlen, hp⟩

namespace ClassFile

theorem skipAttribute_eq_ok {u : Unit} :
    skipAttribute c = .ok (u, c') ↔ ∃ a : AttributeForm, c.Passes a.encode c' := by
  unfold skipAttribute
  simp only [bind_eq_ok, u32_eq_ok, skip_eq_ok, passes_two_iff]
  constructor
  · rintro ⟨_, c₁, ⟨name, hname⟩, length, c₂, hlength, body, hbody, hlen⟩
    have hn : UInt32.ofNat body.length = length := by rw [hlen, UInt32.ofNat_toNat]
    refine ⟨⟨name, body, by rw [hlen]; exact length.toNat_lt⟩, ?_⟩
    rw [AttributeForm.encode, hn]
    exact (hname.trans hlength).trans hbody
  · rintro ⟨⟨name, body, short⟩, hp⟩
    obtain ⟨c₂, hp, hbody⟩ := Cursor.passes_append.1 hp
    obtain ⟨c₁, hname, hlength⟩ := Cursor.passes_append.1 hp
    refine ⟨(), c₁, ⟨name, hname⟩, _, c₂, hlength, body, hbody, ?_⟩
    exact (UInt32.toNat_ofNat_of_lt short).symm

theorem skipMember_eq_ok {u : Unit} :
    skipMember c = .ok (u, c') ↔ ∃ m : MemberForm, c.Passes m.encode c' := by
  have hskip : ∀ {c₁ : Cursor} {u}, skip 6 c = .ok (u, c₁) ↔ ∃ flags name descriptor,
      c.Passes (Bytes.ofUInt16 flags ++ Bytes.ofUInt16 name ++ Bytes.ofUInt16 descriptor) c₁ := by
    intro c₁ u
    rw [skip_eq_ok]
    constructor
    · rintro ⟨bytes, hp, hlen⟩
      obtain ⟨flags, hflags⟩ := Bytes.exists_ofUInt16 (bytes.take 2) (by simp [hlen])
      obtain ⟨name, hname⟩ := Bytes.exists_ofUInt16 ((bytes.drop 2).take 2) (by simp [hlen])
      obtain ⟨descriptor, hd⟩ := Bytes.exists_ofUInt16 ((bytes.drop 2).drop 2)
        (by simp [hlen])
      refine ⟨flags, name, descriptor, ?_⟩
      rw [← hflags, ← hname, ← hd, List.append_assoc, List.take_append_drop,
        List.take_append_drop]
      exact hp
    · rintro ⟨flags, name, descriptor, hp⟩
      exact ⟨_, hp, rfl⟩
  unfold skipMember
  rw [bind_eq_ok]
  simp only [hskip, skipTable_eq_ok skipAttribute_eq_ok]
  constructor
  · rintro ⟨_, c₁, ⟨flags, name, descriptor, hp⟩, attributes, ha⟩
    exact ⟨⟨flags, name, descriptor, attributes⟩, hp.trans ha⟩
  · rintro ⟨m, hp⟩
    obtain ⟨c₁, hp, ha⟩ := Cursor.passes_append.1 hp
    exact ⟨(), c₁, ⟨_, _, _, hp⟩, m.attributes, ha⟩

theorem skipMembers_eq_ok {u : Unit} :
    skipMembers c = .ok (u, c')
      ↔ ∃ t : Table MemberForm, c.Passes (t.encode MemberForm.encode) c' :=
  skipTable_eq_ok skipMember_eq_ok

/-! ## Names -/

variable {pool : ConstantPool}

theorem readClassName_eq_ok {name : String} :
    readClassName pool c = .ok (name, c')
      ↔ ∃ index, c.Passes (Bytes.ofUInt16 index) c' ∧ pool.Names index name := by
  unfold readClassName
  simp only [bind_eq_ok, u16_eq_ok, liftM_eq_ok, ConstantPool.className_eq_ok]
  constructor
  · rintro ⟨index, c₁, hp, hname, rfl⟩
    exact ⟨index, hp, hname⟩
  · rintro ⟨index, hp, hname⟩
    exact ⟨index, c', hp, hname, rfl⟩

theorem readInterfaces_eq_ok {names : List String} :
    readInterfaces pool c = .ok (names, c') ↔ ∃ t : Table UInt16,
      c.Passes (t.encode Bytes.ofUInt16) c' ∧ List.Forall₂ pool.Names t.1 names := by
  unfold readInterfaces
  simp only [bind_eq_ok, u16_eq_ok, collect_eq_ok readClassName_eq_ok]
  constructor
  · rintro ⟨count, c₁, hcount, indexes, hlen, hp, hnames⟩
    obtain ⟨t, rfl, ht⟩ := Table.passes_iff.1 ⟨count, c₁, hcount, hlen, hp⟩
    exact ⟨t, ht, hnames⟩
  · rintro ⟨t, ht, hnames⟩
    obtain ⟨count, c₁, hcount, hlen, hp⟩ := Table.passes_iff.2 ⟨t, rfl, ht⟩
    exact ⟨count, c₁, hcount, t.1, hlen, hp, hnames⟩

theorem superName?_eq_ok {index : UInt16} {name : Option String} :
    superName? pool index = .ok name ↔ (index = 0 → name = none)
      ∧ (index ≠ 0 → ∃ n, name = some n ∧ pool.Names index n) := by
  unfold superName?
  by_cases h : index = 0
  · rw [if_pos h]
    constructor
    · rintro ⟨⟩
      exact ⟨fun _ => rfl, fun hne => absurd h hne⟩
    · rintro ⟨hnone, _⟩
      rw [hnone h]
  · rw [if_neg h]
    constructor
    · intro hname
      cases hn : pool.className index with
      | error e => rw [hn] at hname; cases hname
      | ok n =>
        rw [hn] at hname
        cases hname
        exact ⟨fun h0 => absurd h0 h, fun _ => ⟨n, rfl, ConstantPool.className_eq_ok.1 hn⟩⟩
    · rintro ⟨_, hsome⟩
      obtain ⟨n, rfl, hn⟩ := hsome h
      rw [ConstantPool.className_eq_ok.2 hn]
      rfl

/-! ## Attributes of the class -/

theorem permittedNames_eq_ok {body : Bytes} {names : List String} :
    permittedNames pool body = .ok names ↔ ∃ t : Table UInt16,
      body = t.encode Bytes.ofUInt16 ∧ List.Forall₂ pool.Names t.1 names := by
  constructor
  · intro h
    unfold permittedNames at h
    split at h
    · rename_i b₁ b₀ indexes
      simp only at h
      split at h
      · rename_i hlen
        obtain ⟨c', h⟩ := run_eq_ok.1 h
        obtain ⟨xs, hxs, hp, hnames⟩ := (collect_eq_ok readClassName_eq_ok).1 h
        have hrest : indexes = xs.flatMap Bytes.ofUInt16 ++ c'.rest := hp.1
        have hnil : c'.rest = [] := by
          rw [hrest] at hlen
          simp only [List.length_cons, List.length_append, length_flatMap_ofUInt16,
            hxs] at hlen
          exact List.eq_nil_of_length_eq_zero (by omega)
        refine ⟨⟨xs, by rw [hxs]; exact UInt16.toNat_lt _⟩, ?_, hnames⟩
        have hcount : Bytes.ofUInt16 (UInt16.ofNat xs.length) = [b₁, b₀] := by
          rw [hxs, UInt16.ofNat_toNat, Bytes.ofUInt16_toUInt16]
        rw [Table.encode, hcount, hrest, hnil, List.append_nil]
        rfl
      · cases h
    · cases h
  · rintro ⟨⟨xs, hlt⟩, rfl, hnames⟩
    have hcount : Bytes.toUInt16 (UInt8.ofNat ((UInt16.ofNat xs.length).toNat / 0x100))
        (UInt8.ofNat (UInt16.ofNat xs.length).toNat) = UInt16.ofNat xs.length :=
      Bytes.toUInt16_ofUInt16 _
    have hrun : (collect (readClassName pool) xs.length).run (xs.flatMap Bytes.ofUInt16)
        = .ok names := by
      refine run_eq_ok.2 ⟨⟨(xs.flatMap Bytes.ofUInt16).length, []⟩, ?_⟩
      refine (collect_eq_ok readClassName_eq_ok).2 ⟨xs, rfl, ⟨?_, ?_⟩, hnames⟩
      · exact (List.append_nil _).symm
      · exact (Nat.zero_add _).symm
    change (if (_ : Bytes).length = 2 + 2 * _ then _ else _) = Except.ok names
    rw [hcount, toNat_ofNat_of_lt hlt, if_pos]
    · exact hrun
    · exact Table.length_encode_ofUInt16 ⟨xs, hlt⟩

/-- What a class attribute written at `offset` makes of the permitted subclasses seen so far. -/
def Noted (pool : ConstantPool) (offset : Nat) (seen : Option PermittedSubclasses)
    (a : AttributeForm) (seen' : Option PermittedSubclasses) : Prop :=
  a.Resolves pool ∧
    ((a.IsListing pool ∧ ∃ names, a.Lists pool names
        ∧ seen' = some ⟨names, offset, offset + a.encode.length⟩)
      ∨ (¬ a.IsListing pool ∧ seen' = seen))

theorem readAttribute_eq_ok {seen seen' : Option PermittedSubclasses} :
    readAttribute pool seen c = .ok (seen', c')
      ↔ ∃ a : AttributeForm, c.Passes a.encode c' ∧ Noted pool c.offset seen a seen' := by
  unfold readAttribute
  simp only [bind_eq_ok, position_eq_ok, u16_eq_ok, u32_eq_ok, take_eq_ok, liftM_eq_ok,
    ConstantPool.utf8_eq_ok]
  constructor
  · rintro ⟨_, c₁, ⟨rfl, rfl⟩, nameIndex, c₂, hname, length, c₃, hlength, body, c₄, ⟨hbody, hlen⟩,
      text, c₅, ⟨htext, rfl⟩, hseen⟩
    have hn : UInt32.ofNat body.length = length := by rw [hlen, UInt32.ofNat_toNat]
    let a : AttributeForm := ⟨nameIndex, body, by rw [hlen]; exact length.toNat_lt⟩
    have hp : c₁.Passes a.encode c₅ := by
      rw [AttributeForm.encode, hn]
      exact (hname.trans hlength).trans hbody
    by_cases hl : text = ModifiedUtf8.encode PermittedSubclasses.attributeName
    · simp only [if_pos hl, bind_eq_ok, liftM_eq_ok, position_eq_ok, pure_eq_ok,
        permittedNames_eq_ok] at hseen
      obtain ⟨names, _, ⟨hnames, rfl⟩, _, _, ⟨rfl, rfl⟩, rfl, rfl⟩ := hseen
      subst hl
      exact ⟨a, hp, ⟨⟨_, htext⟩, fun _ => ⟨names, hnames⟩⟩,
        .inl ⟨htext, names, hnames, by rw [hp.2]⟩⟩
    · simp only [if_neg hl, pure_eq_ok] at hseen
      obtain ⟨rfl, rfl⟩ := hseen
      have hnot : ¬ a.IsListing pool := by
        intro h
        exact hl (Constant.utf8.inj (Option.some.inj (htext.symm.trans h)))
      exact ⟨a, hp, ⟨⟨text, htext⟩, fun h => absurd h hnot⟩, .inr ⟨hnot, rfl⟩⟩
  · rintro ⟨⟨nameIndex, body, short⟩, hp, ⟨⟨text, htext⟩, _⟩, hnoted⟩
    obtain ⟨c₂, hp₂, hbody⟩ := Cursor.passes_append.1 hp
    obtain ⟨c₁, hname, hlength⟩ := Cursor.passes_append.1 hp₂
    refine ⟨_, _, ⟨rfl, rfl⟩, nameIndex, c₁, hname, _, c₂, hlength, body, c',
      ⟨hbody, (UInt32.toNat_ofNat_of_lt short).symm⟩, text, c', ⟨htext, rfl⟩, ?_⟩
    rcases hnoted with ⟨hl, names, hnames, rfl⟩ | ⟨hnot, rfl⟩
    · have hl : text = ModifiedUtf8.encode PermittedSubclasses.attributeName :=
        Constant.utf8.inj (Option.some.inj (htext.symm.trans hl))
      simp only [if_pos hl, bind_eq_ok, liftM_eq_ok, position_eq_ok, pure_eq_ok,
        permittedNames_eq_ok]
      refine ⟨names, c', ⟨hnames, rfl⟩, _, c', ⟨rfl, rfl⟩, ?_, rfl⟩
      rw [hp.2]
    · rw [if_neg (fun h => hnot (by rw [AttributeForm.IsListing, ← h]; exact htext)), pure_eq_ok]
      exact ⟨rfl, rfl⟩

theorem exists_noted {offset : Nat} {seen : Option PermittedSubclasses} {a : AttributeForm}
    (h : a.Resolves pool) : ∃ seen', Noted pool offset seen a seen' := by
  by_cases hl : a.IsListing pool
  · obtain ⟨names, hnames⟩ := h.2 hl
    exact ⟨_, h, .inl ⟨hl, names, hnames, rfl⟩⟩
  · exact ⟨seen, h, .inr ⟨hl, rfl⟩⟩

/-- Over a list of attributes, what counts in the end is the last one with permitted subclasses, or
what was seen before if there is none. -/
theorem chain_noted {offset : Nat} {seen seen' : Option PermittedSubclasses}
    {attributes : List AttributeForm} :
    Chain AttributeForm.encode (Noted pool) offset seen attributes seen'
      ↔ (∀ a ∈ attributes, a.Resolves pool)
        ∧ ((seen' = seen ∧ AttributeForm.LastListing pool offset attributes none)
          ∨ ∃ p, seen' = some p ∧ AttributeForm.LastListing pool offset attributes (some p)) := by
  induction attributes generalizing offset seen with
  | nil =>
    constructor
    · intro h
      exact ⟨fun a ha => (nomatch ha), .inl ⟨h, fun a ha => (nomatch ha)⟩⟩
    · rintro ⟨_, ⟨h, _⟩ | ⟨p, _, before, a, after, hnil, _⟩⟩
      · exact h
      · exact absurd hnil (by simp)
  | cons a attributes ih =>
    simp only [Chain, ih, List.forall_mem_cons]
    constructor
    · rintro ⟨seen₁, ⟨ha, hnoted⟩, hall, ⟨rfl, hnone⟩ | ⟨p, rfl, before, b, after, rfl, hb⟩⟩
      · refine ⟨⟨ha, hall⟩, ?_⟩
        rcases hnoted with ⟨hl, names, hnames, rfl⟩ | ⟨hnot, rfl⟩
        · exact .inr ⟨_, rfl, [], a, attributes, rfl, hl, hnames, hnone, rfl, rfl⟩
        · exact .inl ⟨rfl, List.forall_mem_cons.2 ⟨hnot, hnone⟩⟩
      · obtain ⟨hl, hnames, hafter, hstart, hstop⟩ := hb
        refine ⟨⟨ha, hall⟩,
          .inr ⟨p, rfl, a :: before, b, after, rfl, hl, hnames, hafter, ?_, hstop⟩⟩
        rw [hstart, List.flatMap_cons, List.length_append, Nat.add_assoc]
    · rintro ⟨⟨ha, hall⟩, ⟨rfl, hnone⟩ | ⟨p, rfl, before, b, after, hsplit, hb⟩⟩
      · obtain ⟨hnot, hnone⟩ := List.forall_mem_cons.1 hnone
        exact ⟨_, ⟨ha, .inr ⟨hnot, rfl⟩⟩, hall, .inl ⟨rfl, hnone⟩⟩
      · obtain ⟨hl, hnames, hafter, hstart, hstop⟩ := hb
        cases before with
        | nil =>
          obtain ⟨rfl, rfl⟩ := List.cons.inj hsplit
          have hp : p = ⟨p.names, offset, offset + a.encode.length⟩ := by
            have hs : p.start = offset := hstart
            rw [← hs, ← hstop]
          exact ⟨some p, ⟨ha, .inl ⟨hl, p.names, hnames, congrArg some hp⟩⟩, hall,
            .inl ⟨rfl, hafter⟩⟩
        | cons a' before =>
          obtain ⟨rfl, rfl⟩ := List.cons.inj hsplit
          have hrest : AttributeForm.LastListing pool (offset + a.encode.length)
              (before ++ b :: after) (some p) := by
            refine ⟨before, b, after, rfl, hl, hnames, hafter, ?_, hstop⟩
            rw [hstart, List.flatMap_cons, List.length_append, Nat.add_assoc]
          obtain ⟨seen₁, hnoted⟩ := exists_noted ha
          exact ⟨seen₁, hnoted, hall, .inr ⟨p, rfl, hrest⟩⟩

/-- Attributes that lead where they have to can be gone through, whatever was seen before. -/
theorem exists_chain_noted {offset : Nat} (seen : Option PermittedSubclasses)
    {attributes : List AttributeForm} (h : ∀ a ∈ attributes, a.Resolves pool) :
    ∃ seen', Chain AttributeForm.encode (Noted pool) offset seen attributes seen' := by
  induction attributes generalizing offset seen with
  | nil => exact ⟨seen, rfl⟩
  | cons a attributes ih =>
    obtain ⟨ha, hall⟩ := List.forall_mem_cons.1 h
    obtain ⟨seen₁, hnoted⟩ := exists_noted ha
    obtain ⟨seen', hchain⟩ := ih seen₁ hall
    exact ⟨seen', seen₁, hnoted, hchain⟩

theorem readAttributes_eq_ok {permitted : Option PermittedSubclasses} :
    readAttributes pool c = .ok (permitted, c') ↔ ∃ t : Table AttributeForm,
      c.Passes (AttributeForm.encodeTable t) c' ∧ (∀ a ∈ t.1, a.Resolves pool)
        ∧ AttributeForm.LastListing pool (c.offset + 2) t.1 permitted := by
  have hlast : ∀ {offset attributes},
      ((permitted = none ∧ AttributeForm.LastListing pool offset attributes none)
        ∨ ∃ p, permitted = some p ∧ AttributeForm.LastListing pool offset attributes (some p))
      ↔ AttributeForm.LastListing pool offset attributes permitted := by
    intro offset attributes
    cases permitted <;> simp
  unfold readAttributes
  simp only [bind_eq_ok, u16_eq_ok, iterate_eq_ok readAttribute_eq_ok, chain_noted, hlast]
  constructor
  · rintro ⟨count, c₁, hcount, attributes, hlen, hp, hall, hlisting⟩
    have hoffset : c₁.offset = c.offset + 2 := hcount.2
    obtain ⟨t, rfl, ht⟩ := Table.passes_iff.1 ⟨count, c₁, hcount, hlen, hp⟩
    exact ⟨t, ht, hall, hoffset ▸ hlisting⟩
  · rintro ⟨t, ht, hall, hlisting⟩
    obtain ⟨count, c₁, hcount, hlen, hp⟩ := Table.passes_iff.2 ⟨t, rfl, ht⟩
    have hoffset : c₁.offset = c.offset + 2 := hcount.2
    exact ⟨count, c₁, hcount, t.1, hlen, hp, hall, hoffset ▸ hlisting⟩

/-! ## Class files -/

theorem readMagic_eq_ok {u : Unit} :
    readMagic c = .ok (u, c') ↔ c.Passes (Bytes.ofUInt32 magic) c' := by
  unfold readMagic
  simp only [bind_eq_ok, u32_eq_ok]
  constructor
  · rintro ⟨number, c₁, hnumber, h⟩
    by_cases hm : number = magic
    · rw [if_pos hm, pure_eq_ok] at h
      obtain ⟨_, rfl⟩ := h
      rw [← hm]
      exact hnumber
    · rw [if_neg hm] at h
      exact absurd h throw_ne_ok
  · intro h
    exact ⟨magic, c', h, by rw [if_pos rfl, pure_eq_ok]; exact ⟨rfl, rfl⟩⟩

theorem readEnd_eq_ok {u : Unit} : readEnd c = .ok (u, c') ↔ c.rest = [] ∧ c' = c := by
  unfold readEnd
  cases hrest : c.rest with
  | nil =>
    change Except.ok ((), c) = .ok (u, c') ↔ _
    simp only [Except.ok.injEq, Prod.mk.injEq, true_and]
    exact eq_comm
  | cons b rest => simp

/-- Bytes make a class file exactly if they are written in a form whose indexes lead where they have
to, and then it says what the form holds. -/
theorem parse_eq_ok {b : Bytes} {cf : ClassFile} :
    parse b = .ok cf ↔ ∃ f : ClassForm, f.encode = b ∧ f.Resolves ∧ f.Describes cf := by
  unfold parse read
  simp only [run_eq_ok, bind_eq_ok, readMagic_eq_ok, u16_eq_ok, ConstantPool.read_eq_ok,
    position_eq_ok, readInterfaces_eq_ok, skipMembers_eq_ok, readAttributes_eq_ok, readEnd_eq_ok,
    liftM_eq_ok, ConstantPool.className_eq_ok, superName?_eq_ok, pure_eq_ok]
  constructor
  · rintro ⟨c₇, _, c₁, hmagic, minor, c₂, hminor, major, c₃, hmajor, h⟩
    obtain ⟨_, _, ⟨pool, hpool, rfl⟩, poolEnd, c₄, ⟨rfl, rfl⟩, h⟩ := h
    obtain ⟨flags, _, hflags, this, _, hthis, super, _, hsuper, h⟩ := h
    obtain ⟨names, _, ⟨interfaces, hinterfaces, hnames⟩, h⟩ := h
    obtain ⟨_, c₅, ⟨fields, hfields⟩, _, _, ⟨methods, hmethods⟩, place, c₆, ⟨rfl, rfl⟩, h⟩ := h
    obtain ⟨permitted, _, ⟨attributes, hattributes, hall, hlisting⟩, h⟩ := h
    obtain ⟨_, _, ⟨hend, rfl⟩, size, _, ⟨rfl, rfl⟩, h⟩ := h
    obtain ⟨thisName, _, ⟨hthisName, rfl⟩, superName, _, ⟨⟨hnone, hsome⟩, rfl⟩, rfl, rfl⟩ := h
    let f : ClassForm := ⟨minor, major, pool, flags, this, super, interfaces, fields, methods,
      attributes⟩
    have hhead : (Cursor.start b).Passes (f.head ++ f.pool.encode) c₄ :=
      ((hmagic.trans hminor).trans hmajor).trans hpool
    have hbody : (Cursor.start b).Passes (f.head ++ f.pool.encode ++ f.body) c₆ :=
      hhead.trans (((((hflags.trans hthis).trans hsuper).trans hinterfaces).trans hfields).trans
        hmethods)
    have hwhole : (Cursor.start b).Passes f.encode c₇ := hbody.trans hattributes
    have hbytes : b = f.encode := by
      have hb : b = f.encode ++ c₇.rest := hwhole.1
      rw [hb, hend, List.append_nil]
    have hstart : c₄.offset = f.bodyStart := hhead.2.trans (Nat.zero_add _)
    have hplace : c₆.offset = f.attributesStart := hbody.2.trans (Nat.zero_add _)
    have hsize : c₇.offset = f.encode.length := hwhole.2.trans (Nat.zero_add _)
    refine ⟨f, hbytes.symm, ⟨⟨thisName, hthisName⟩, fun h => ?_, ?_, hall⟩,
      ⟨rfl, rfl, rfl, rfl, hthisName, hnone, hsome, hnames, hplace ▸ hlisting, ?_⟩⟩
    · obtain ⟨n, _, hn⟩ := hsome h
      exact ⟨n, hn⟩
    · exact Result.exists_forall₂_iff.1 ⟨names, hnames⟩
    · rw [hstart, hplace, hsize]
  · rintro ⟨f, rfl, hresolves, hd⟩
    have hwhole : (Cursor.start f.encode).Passes f.encode ⟨f.encode.length, []⟩ :=
      ⟨(List.append_nil _).symm, (Nat.zero_add _).symm⟩
    obtain ⟨c₆, hbody, hattributes⟩ := Cursor.passes_append.1 hwhole
    obtain ⟨c₄, hfront, hparts⟩ := Cursor.passes_append.1 hbody
    obtain ⟨c₃, hhead, hpool⟩ := Cursor.passes_append.1 hfront
    obtain ⟨c₂, hhead, hmajor⟩ := Cursor.passes_append.1 hhead
    obtain ⟨c₁, hmagic, hminor⟩ := Cursor.passes_append.1 hhead
    obtain ⟨d₅, hparts, hmethods⟩ := Cursor.passes_append.1 hparts
    obtain ⟨d₄, hparts, hfields⟩ := Cursor.passes_append.1 hparts
    obtain ⟨d₃, hparts, hinterfaces⟩ := Cursor.passes_append.1 hparts
    obtain ⟨d₂, hparts, hsuper⟩ := Cursor.passes_append.1 hparts
    obtain ⟨d₁, hflags, hthis⟩ := Cursor.passes_append.1 hparts
    have hstart : c₄.offset = f.bodyStart := hfront.2.trans (Nat.zero_add _)
    have hplace : c₆.offset = f.attributesStart := hbody.2.trans (Nat.zero_add _)
    have hlayout : cf.layout = ⟨c₄.offset, c₆.offset, f.encode.length⟩ := by
      rw [hd.layout, hstart, hplace]
    refine ⟨_, (), c₁, hmagic, f.minorVersion, c₂, hminor, f.majorVersion, c₃, hmajor,
      f.pool.pool, c₄, ⟨f.pool, hpool, rfl⟩, _, c₄, ⟨rfl, rfl⟩, f.flags, d₁, hflags,
      f.thisIndex, d₂, hthis, f.superIndex, d₃, hsuper,
      cf.interfaces, d₄, ⟨f.interfaces, hinterfaces, hd.interfaces⟩,
      (), d₅, ⟨f.fields, hfields⟩, (), c₆, ⟨f.methods, hmethods⟩, _, c₆, ⟨rfl, rfl⟩,
      cf.permitted, _, ⟨f.attributes, hattributes, hresolves.attributes, ?_⟩,
      (), _, ⟨rfl, rfl⟩, _, _, ⟨rfl, rfl⟩, cf.thisName, _, ⟨hd.thisName, rfl⟩,
      cf.superName, _, ⟨⟨hd.noSuper, hd.superName⟩, rfl⟩, ?_, rfl⟩
    · rw [hplace]
      exact hd.permitted
    · rw [← hd.minorVersion, ← hd.majorVersion, ← hd.access, ← hd.pool]
      exact congrArg (ClassFile.mk _ _ _ _ _ _ _ _) hlayout

end ClassFile

/-- What a form holds can be told whenever its indexes lead where they have to. -/
theorem ClassForm.Resolves.exists_describes {f : ClassForm} (h : f.Resolves) :
    ∃ cf, f.Describes cf := by
  obtain ⟨thisName, hthis⟩ := h.thisIndex
  obtain ⟨interfaces, hinterfaces⟩ := Result.exists_forall₂_iff.2 h.interfaces
  obtain ⟨superName, hnone, hsome⟩ : ∃ superName : Option String,
      (f.superIndex = 0 → superName = none)
        ∧ (f.superIndex ≠ 0 → ∃ n, superName = some n ∧ f.pool.pool.Names f.superIndex n) := by
    by_cases h0 : f.superIndex = 0
    · exact ⟨none, fun _ => rfl, fun hne => absurd h0 hne⟩
    · obtain ⟨n, hn⟩ := h.superIndex h0
      exact ⟨some n, fun h => absurd h h0, fun _ => ⟨n, rfl, hn⟩⟩
  obtain ⟨permitted, hpermitted⟩ : ∃ permitted,
      AttributeForm.LastListing f.pool.pool (f.attributesStart + 2) f.attributes.1 permitted := by
    obtain ⟨seen, hchain⟩ := ClassFile.exists_chain_noted none h.attributes
    rcases (ClassFile.chain_noted.1 hchain).2 with ⟨_, hnone⟩ | ⟨p, _, hp⟩
    · exact ⟨none, hnone⟩
    · exact ⟨some p, hp⟩
  exact ⟨⟨f.minorVersion, f.majorVersion, ⟨f.flags⟩, thisName, superName, interfaces, permitted,
    f.pool.pool, ⟨f.bodyStart, f.attributesStart, f.encode.length⟩⟩,
    ⟨rfl, rfl, rfl, rfl, hthis, hnone, hsome, hinterfaces, hpermitted, rfl⟩⟩

namespace ClassFile

/-- The reader accepts exactly the forms whose indexes lead where they have to. The form of accepted
bytes is theirs alone, and what is read from them is what it holds. -/
theorem parse_iff_form (b : Bytes) :
    ((∃ cf, parse b = .ok cf) ↔ ∃ f : ClassForm, f.encode = b ∧ f.Resolves)
      ∧ (∀ f g : ClassForm, f.encode = b → g.encode = b → f = g)
      ∧ ∀ f : ClassForm, f.encode = b → ∀ cf, parse b = .ok cf ↔ f.Resolves ∧ f.Describes cf := by
  refine ⟨⟨?_, ?_⟩, ?_, ?_⟩
  · rintro ⟨cf, hcf⟩
    obtain ⟨f, hf, hresolves, _⟩ := parse_eq_ok.1 hcf
    exact ⟨f, hf, hresolves⟩
  · rintro ⟨f, hf, hresolves⟩
    obtain ⟨cf, hd⟩ := hresolves.exists_describes
    exact ⟨cf, parse_eq_ok.2 ⟨f, hf, hresolves, hd⟩⟩
  · intro f g hf hg
    exact ClassForm.encode_injective (hf.trans hg.symm)
  · intro f hf cf
    rw [parse_eq_ok]
    constructor
    · rintro ⟨g, hg, h⟩
      obtain rfl := ClassForm.encode_injective (hg.trans hf.symm)
      exact h
    · intro h
      exact ⟨f, hf, h⟩

end ClassFile

end LinkSet
