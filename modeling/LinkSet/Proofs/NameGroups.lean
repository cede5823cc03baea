import LinkSet.Proofs.CodeUnits
import LinkSet.Proofs.FormUniqueness

/-!
# Groups of modified UTF-8

What is read as a name is a sequence of groups, and the values of the groups are the UTF-16 units of
the name (`decodeUnits?_eq_some_iff`). No two sequences of groups have the same bytes. Writing
chooses the shortest group for each unit, so a name is written with the bytes that it was read from
exactly if no shorter group would do for any of them (`Group.bytes_eq_encodeUnit_iff`).

The main statement puts this together with what is known of surrogates (`decode?_eq_some_iff_groups`).
-/

namespace LinkSet.ModifiedUtf8

/-! ## Kinds of bytes -/

section

variable {x : UInt8}

theorem IsLeadOfTwo.not_isSingle (h : IsLeadOfTwo x) : ¬ IsSingle x := by
  unfold IsLeadOfTwo at h
  unfold IsSingle
  omega

theorem IsLeadOfThree.not_isSingle (h : IsLeadOfThree x) : ¬ IsSingle x := by
  unfold IsLeadOfThree at h
  unfold IsSingle
  omega

theorem IsLeadOfThree.not_isLeadOfTwo (h : IsLeadOfThree x) : ¬ IsLeadOfTwo x := by
  unfold IsLeadOfThree at h
  unfold IsLeadOfTwo
  omega

theorem IsContinuation.not_isLeadOfTwo (h : IsContinuation x) : ¬ IsLeadOfTwo x := by
  unfold IsContinuation at h
  unfold IsLeadOfTwo
  omega

theorem IsContinuation.not_isLeadOfThree (h : IsContinuation x) : ¬ IsLeadOfThree x := by
  unfold IsContinuation at h
  unfold IsLeadOfThree
  omega

end

/-! ## Groups -/

/-- A group of bytes, as it is read. -/
inductive Group
  | one (b : UInt8) (isSingle : IsSingle b)
  | two (b c : UInt8) (isLead : IsLeadOfTwo b) (isSecond : IsContinuation c)
  | three (b c d : UInt8) (isLead : IsLeadOfThree b) (isSecond : IsContinuation c)
    (isThird : IsContinuation d)

namespace Group

def bytes : Group → Bytes
  | one b _ => [b]
  | two b c _ _ => [b, c]
  | three b c d _ _ _ => [b, c, d]

/-- The value of a group: five or four bits of a byte that opens it and six bits of a continuation,
put one behind the other. -/
def value : Group → Nat
  | one b _ => b.toNat
  | two b c _ _ => b.toNat % 0x20 * 0x40 + c.toNat % 0x40
  | three b c d _ _ _ => b.toNat % 0x10 * 0x1000 + c.toNat % 0x40 * 0x40 + d.toNat % 0x40

/-- The unit that a group stands for. -/
def unit (g : Group) : UInt16 := UInt16.ofNat g.value

/-- A shorter group has the same value. For the value 0 there is none of a single byte. -/
def IsOverlong : Group → Prop
  | one _ _ => False
  | two b c hb hc => 0x01 ≤ (two b c hb hc).value ∧ (two b c hb hc).value ≤ 0x7F
  | three b c d hb hc hd => (three b c d hb hc hd).value < 0x800

theorem toNat_unit (g : Group) : g.unit.toNat = g.value := by
  refine toNat_ofNat_of_lt ?_
  cases g with
  | one b hb =>
    rw [value]
    unfold IsSingle at hb
    omega
  | two => rw [value]; omega
  | three => rw [value]; omega

/-! ## Reading -/

theorem unit_two {b c : UInt8} (hb : IsLeadOfTwo b) (hc : IsContinuation c) :
    (two b c hb hc).unit = unitOfTwo b c := by
  have hvalue : (two b c hb hc).value = (b.toNat - 0xC0) * 0x40 + (c.toNat - 0x80) := by
    rw [value]
    unfold IsLeadOfTwo at hb
    unfold IsContinuation at hc
    omega
  rw [unit, hvalue, unitOfTwo]

theorem unit_three {b c d : UInt8} (hb : IsLeadOfThree b) (hc : IsContinuation c)
    (hd : IsContinuation d) : (three b c d hb hc hd).unit = unitOfThree b c d := by
  have hvalue : (three b c d hb hc hd).value
      = (b.toNat - 0xE0) * 0x1000 + (c.toNat - 0x80) * 0x40 + (d.toNat - 0x80) := by
    rw [value]
    unfold IsLeadOfThree at hb
    unfold IsContinuation at hc hd
    omega
  rw [unit, hvalue, unitOfThree]

/-- One group is read as its unit. -/
theorem readFrom?_bytes (g : Group) (done : List UInt16) (rest : Bytes) :
    readFrom? done (g.bytes ++ rest) = readFrom? (g.unit :: done) rest := by
  cases g with
  | one b hb =>
    rw [bytes, List.singleton_append, readFrom?.eq_def]
    simp only [hb, if_true]
    rfl
  | two b c hb hc =>
    rw [bytes, List.cons_append, List.singleton_append, readFrom?.eq_def]
    simp only [hb.not_isSingle, hb, hc, if_true, if_false, unit_two]
  | three b c d hb hc hd =>
    rw [bytes, List.cons_append, List.cons_append, List.singleton_append, readFrom?.eq_def]
    simp only [hb.not_isSingle, hb.not_isLeadOfTwo, hb, hc, hd, and_self, if_true, if_false,
      unit_three]

end Group

theorem readFrom?_eq_some_iff {done us : List UInt16} {b : Bytes} :
    readFrom? done b = some us
      ↔ ∃ groups : List Group, groups.flatMap Group.bytes = b
        ∧ done.reverse ++ groups.map Group.unit = us := by
  constructor
  · intro h
    fun_induction readFrom? done b with
    | case1 done =>
      obtain rfl := Option.some.inj h
      exact ⟨[], rfl, List.append_nil _⟩
    | case2 done b rest hb ih =>
      obtain ⟨groups, rfl, rfl⟩ := ih h
      exact ⟨.one b hb :: groups, rfl, by simp [Group.unit, Group.value]⟩
    | case3 done b _ hb c rest hc ih =>
      obtain ⟨groups, rfl, rfl⟩ := ih h
      exact ⟨.two b c hb hc :: groups, rfl, by simp [Group.unit_two]⟩
    | case6 done b _ _ hb c d rest hcd ih =>
      obtain ⟨groups, rfl, rfl⟩ := ih h
      exact ⟨.three b c d hb hcd.1 hcd.2 :: groups, rfl, by simp [Group.unit_three]⟩
    | _ => cases h
  · rintro ⟨groups, rfl, rfl⟩
    induction groups generalizing done with
    | nil => simp [readFrom?]
    | cons g groups ih =>
      rw [List.flatMap_cons, g.readFrom?_bytes, ih]
      simp

/-- Units are read exactly from groups that have them as their values. -/
theorem decodeUnits?_eq_some_iff {b : Bytes} {us : List UInt16} :
    decodeUnits? b = some us
      ↔ ∃ groups : List Group, groups.flatMap Group.bytes = b ∧ groups.map Group.unit = us :=
  readFrom?_eq_some_iff

theorem decode?_eq_some_iff {b : Bytes} {s : String} :
    decode? b = some s ↔ decodeUnits? b = some (Text.Utf16.units s.toList) := by
  unfold decode?
  cases decodeUnits? b with
  | none => simp
  | some us =>
    simp only [Option.bind_eq_bind, Option.bind_some, Option.some.injEq]
    rw [Option.bind_eq_some_iff]
    constructor
    · rintro ⟨text, htext, hs⟩
      obtain rfl := Option.some.inj hs
      rw [String.toList_ofList, Text.Utf16.ofUnits?_eq_some_iff.1 htext]
    · rintro rfl
      exact ⟨_, Text.Utf16.ofUnits?_units _, by simp⟩

/-! ## Bytes that are no groups -/

namespace Group

variable {g : Group} {groups : List Group}

/-- The first byte of a group tells how long it is. -/
theorem delimited_bytes : Delimited bytes := by
  intro x y r s h
  cases x with
  | one b hb =>
    cases y with
    | one =>
      obtain ⟨rfl, rfl⟩ := List.cons.inj h
      exact ⟨rfl, rfl⟩
    | two _ _ hb' => exact absurd hb ((List.cons.inj h).1 ▸ hb'.not_isSingle)
    | three _ _ _ hb' => exact absurd hb ((List.cons.inj h).1 ▸ hb'.not_isSingle)
  | two b c hb hc =>
    cases y with
    | one _ hb' => exact absurd hb' ((List.cons.inj h).1 ▸ hb.not_isSingle)
    | two =>
      simp only [bytes, List.cons_append, List.nil_append, List.cons.injEq] at h
      obtain ⟨rfl, rfl, rfl⟩ := h
      exact ⟨rfl, rfl⟩
    | three _ _ _ hb' => exact absurd hb ((List.cons.inj h).1 ▸ hb'.not_isLeadOfTwo)
  | three b c d hb hc hd =>
    cases y with
    | one _ hb' => exact absurd hb' ((List.cons.inj h).1 ▸ hb.not_isSingle)
    | two _ _ hb' => exact absurd hb' ((List.cons.inj h).1 ▸ hb.not_isLeadOfTwo)
    | three =>
      simp only [bytes, List.cons_append, List.nil_append, List.cons.injEq] at h
      obtain ⟨rfl, rfl, rfl, rfl⟩ := h
      exact ⟨rfl, rfl⟩

theorem bytes_ne_nil (g : Group) : g.bytes ≠ [] := by
  cases g <;> exact List.cons_ne_nil _ _

/-- No bytes are groups in two ways. -/
theorem flatMap_bytes_injective {gs hs : List Group} (h : gs.flatMap bytes = hs.flatMap bytes) :
    gs = hs := by
  induction gs generalizing hs with
  | nil =>
    cases hs with
    | nil => rfl
    | cons y hs => exact absurd (List.append_eq_nil_iff.1 h.symm).1 y.bytes_ne_nil
  | cons x gs ih =>
    cases hs with
    | nil => exact absurd (List.append_eq_nil_iff.1 h).1 x.bytes_ne_nil
    | cons y hs =>
      obtain ⟨rfl, hrest⟩ := delimited_bytes h
      rw [ih hrest]

theorem range_of_mem_bytes {x : UInt8} (h : x ∈ g.bytes) : x ≠ 0 ∧ x < 0xF0 := by
  have hrange : 0 < x.toNat ∧ x.toNat < 0xF0 := by
    cases g with
    | one b hb =>
      unfold IsSingle at hb
      obtain rfl := List.mem_singleton.1 h
      omega
    | two b c hb hc =>
      unfold IsLeadOfTwo at hb
      unfold IsContinuation at hc
      rcases List.mem_pair.1 h with rfl | rfl <;> omega
    | three b c d hb hc hd =>
      unfold IsLeadOfThree at hb
      unfold IsContinuation at hc hd
      rcases List.mem_cons.1 h with rfl | h
      · omega
      · rcases List.mem_pair.1 h with rfl | rfl <;> omega
  refine ⟨?_, UInt8.lt_iff_toNat_lt.2 hrange.2⟩
  rintro rfl
  exact absurd hrange.1 (Nat.lt_irrefl 0)

theorem range_of_mem_flatMap {x : UInt8} (h : x ∈ groups.flatMap bytes) : x ≠ 0 ∧ x < 0xF0 := by
  obtain ⟨g, _, hx⟩ := List.mem_flatMap.1 h
  exact range_of_mem_bytes hx

end Group

/-- A byte that opens a group is not followed by the continuations of this group. -/
def CutOff (b : Bytes) : Prop :=
  ∃ front x back, b = front ++ x :: back
    ∧ ((IsLeadOfTwo x ∧ ∀ c rest, back = c :: rest → ¬ IsContinuation c)
      ∨ (IsLeadOfThree x
        ∧ ∀ c d rest, back = c :: d :: rest → ¬ (IsContinuation c ∧ IsContinuation d)))

theorem not_cutOff_nil : ¬ CutOff [] := by
  rintro ⟨front, x, back, hb, _⟩
  exact List.append_ne_nil_of_right_ne_nil _ (List.cons_ne_nil _ _) hb.symm

/-- If a byte is followed by what it needs, bytes are cut off only behind it. -/
theorem CutOff.tail {x : UInt8} {back : Bytes} (h : CutOff (x :: back))
    (htwo : IsLeadOfTwo x → ∃ c rest, back = c :: rest ∧ IsContinuation c)
    (hthree : IsLeadOfThree x →
      ∃ c d rest, back = c :: d :: rest ∧ IsContinuation c ∧ IsContinuation d) : CutOff back := by
  obtain ⟨front, y, rest, hb, hcut⟩ := h
  cases front with
  | nil =>
    obtain ⟨rfl, rfl⟩ := List.cons.inj hb
    rcases hcut with ⟨hlead, hno⟩ | ⟨hlead, hno⟩
    · obtain ⟨c, rest, hrest, hc⟩ := htwo hlead
      exact absurd hc (hno c rest hrest)
    · obtain ⟨c, d, rest, hrest, hcd⟩ := hthree hlead
      exact absurd hcd (hno c d rest hrest)
  | cons z front => exact ⟨front, y, rest, (List.cons.inj hb).2, hcut⟩

theorem CutOff.tail_of_single {x : UInt8} {back : Bytes} (h : CutOff (x :: back))
    (hx : IsSingle x) : CutOff back :=
  h.tail (fun hlead => absurd hx hlead.not_isSingle) fun hlead => absurd hx hlead.not_isSingle

theorem CutOff.tail_of_continuation {x : UInt8} {back : Bytes} (h : CutOff (x :: back))
    (hx : IsContinuation x) : CutOff back :=
  h.tail (fun hlead => absurd hlead hx.not_isLeadOfTwo) fun hlead =>
    absurd hlead hx.not_isLeadOfThree

theorem not_cutOff_flatMap (groups : List Group) : ¬ CutOff (groups.flatMap Group.bytes) := by
  induction groups with
  | nil => exact not_cutOff_nil
  | cons g groups ih =>
    intro h
    cases g with
    | one b hb => exact ih (h.tail_of_single hb)
    | two b c hb hc =>
      have htail : CutOff (c :: groups.flatMap Group.bytes) :=
        h.tail (fun _ => ⟨c, _, rfl, hc⟩) fun hlead => absurd hb hlead.not_isLeadOfTwo
      exact ih (htail.tail_of_continuation hc)
    | three b c d hb hc hd =>
      have htail : CutOff (c :: d :: groups.flatMap Group.bytes) :=
        h.tail (fun hlead => absurd hlead hb.not_isLeadOfTwo) fun _ => ⟨c, d, _, rfl, hc, hd⟩
      exact ih ((htail.tail_of_continuation hc).tail_of_continuation hd)

/-! ## Shortest groups -/

namespace Group

variable {g : Group} {groups : List Group}

/-- A byte is known by its value. -/
theorem ofNat_eq_of_toNat {n : Nat} {x : UInt8} (h : n = x.toNat) : UInt8.ofNat n = x := by
  rw [h, UInt8.ofNat_toNat]

theorem encodeUnit_two {b c : UInt8} (hb : IsLeadOfTwo b) (hc : IsContinuation c)
    (hlong : ¬ (two b c hb hc).IsOverlong) : encodeUnit (two b c hb hc).unit = [b, c] := by
  rw [IsOverlong] at hlong
  have hlarge : (two b c hb hc).value ≤ 0x7FF := by
    rw [value]
    omega
  have hfirst : 0xC0 + (two b c hb hc).value / 0x40 = b.toNat := by
    rw [value]
    unfold IsLeadOfTwo at hb
    omega
  have hsecond : 0x80 + (two b c hb hc).value % 0x40 = c.toNat := by
    rw [value]
    unfold IsContinuation at hc
    omega
  rw [encodeUnit, toNat_unit, if_neg hlong, if_pos hlarge, ofNat_eq_of_toNat hfirst,
    ofNat_eq_of_toNat hsecond]

theorem encodeUnit_three {b c d : UInt8} (hb : IsLeadOfThree b) (hc : IsContinuation c)
    (hd : IsContinuation d) (hlong : ¬ (three b c d hb hc hd).IsOverlong) :
    encodeUnit (three b c d hb hc hd).unit = [b, c, d] := by
  rw [IsOverlong] at hlong
  have hone : ¬ (0x01 ≤ (three b c d hb hc hd).value ∧ (three b c d hb hc hd).value ≤ 0x7F) := by
    omega
  have htwo : ¬ (three b c d hb hc hd).value ≤ 0x7FF := by omega
  have hfirst : 0xE0 + (three b c d hb hc hd).value / 0x1000 = b.toNat := by
    rw [value]
    unfold IsLeadOfThree at hb
    omega
  have hsecond : 0x80 + (three b c d hb hc hd).value / 0x40 % 0x40 = c.toNat := by
    rw [value]
    unfold IsContinuation at hc
    omega
  have hthird : 0x80 + (three b c d hb hc hd).value % 0x40 = d.toNat := by
    rw [value]
    unfold IsContinuation at hd
    omega
  rw [encodeUnit, toNat_unit, if_neg hone, if_neg htwo, ofNat_eq_of_toNat hfirst,
    ofNat_eq_of_toNat hsecond, ofNat_eq_of_toNat hthird]

theorem length_encodeUnit_lt (h : g.IsOverlong) : (encodeUnit g.unit).length < g.bytes.length := by
  rw [encodeUnit, toNat_unit]
  cases g with
  | one => exact absurd h not_false
  | two b c hb hc =>
    rw [IsOverlong] at h
    rw [if_pos h]
    exact Nat.lt_succ_self 1
  | three b c d hb hc hd =>
    rw [IsOverlong] at h
    split
    · exact Nat.lt_of_lt_of_le (Nat.lt_succ_self 1) (Nat.le_succ 2)
    · rw [if_pos (Nat.le_of_lt_succ h)]
      exact Nat.lt_succ_self 2

/-- Writing the unit of a group gives the group back unless a shorter one would do. -/
theorem bytes_eq_encodeUnit_iff : g.bytes = encodeUnit g.unit ↔ ¬ g.IsOverlong := by
  constructor
  · intro heq hlong
    have hlt := length_encodeUnit_lt hlong
    rw [← heq] at hlt
    exact Nat.lt_irrefl _ hlt
  · intro hlong
    cases g with
    | one b hb =>
      have hvalue : (one b hb).value = b.toNat := rfl
      unfold IsSingle at hb
      rw [encodeUnit, toNat_unit, hvalue, if_pos hb, UInt8.ofNat_toNat]
      rfl
    | two b c hb hc => exact (encodeUnit_two hb hc hlong).symm
    | three b c d hb hc hd => exact (encodeUnit_three hb hc hd hlong).symm

theorem exists_bytes_eq_encodeUnit (u : UInt16) : ∃ x : Group, x.bytes = encodeUnit u := by
  obtain ⟨groups, hbytes, hunits⟩ := decodeUnits?_eq_some_iff.1 (decodeUnits?_encodeUnits [u])
  obtain ⟨x, rfl, _⟩ := List.map_eq_singleton_iff.1 hunits
  rw [encodeUnits, List.flatMap_singleton, List.flatMap_singleton] at hbytes
  exact ⟨x, hbytes⟩

/-- Groups are written as they were read if none of them is longer than it has to be. -/
theorem encodeUnits_eq_flatMap_iff :
    encodeUnits (groups.map unit) = groups.flatMap bytes ↔ ∀ g ∈ groups, ¬ g.IsOverlong := by
  rw [encodeUnits, List.flatMap_map]
  constructor
  · intro h
    induction groups with
    | nil => exact List.forall_mem_nil _
    | cons g groups ih =>
      -- what is written for the first unit is a group as well, so it ends where the first one does
      obtain ⟨x, hx⟩ := exists_bytes_eq_encodeUnit g.unit
      rw [List.flatMap_cons, List.flatMap_cons, ← hx] at h
      obtain ⟨rfl, hrest⟩ := delimited_bytes h
      exact List.forall_mem_cons.2 ⟨bytes_eq_encodeUnit_iff.1 hx, ih hrest⟩
  · intro h
    exact List.flatMap_congr fun g hg => (bytes_eq_encodeUnit_iff.2 (h g hg)).symm

end Group

/-! ## Names -/

/-- A name is read exactly from groups whose values are its UTF-16 units. Every name reads back from
its written form, in which no byte is `00` and none is `F0` or above. No bytes are groups in two
ways. Nothing is read if such a byte is there, if a group is cut off, or if a surrogate is outside a
pair. A name is written as it was read unless some group is longer than it has to be. -/
theorem decode?_eq_some_iff_groups :
    (∀ s, decode? (encode s) = some s ∧ ∀ x ∈ encode s, x ≠ 0 ∧ x < 0xF0)
      ∧ (∀ b s, decode? b = some s ↔ ∃ groups : List Group,
        groups.flatMap Group.bytes = b ∧ groups.map Group.unit = Text.Utf16.units s.toList)
      ∧ (∀ gs hs : List Group, gs.flatMap Group.bytes = hs.flatMap Group.bytes → gs = hs)
      ∧ (∀ b, 0 ∈ b ∨ (∃ x ∈ b, 0xF0 ≤ x) ∨ CutOff b
        ∨ (∃ groups : List Group, groups.flatMap Group.bytes = b
          ∧ Text.Utf16.Unpaired (groups.map Group.unit)) → decode? b = none)
      ∧ ∀ (groups : List Group) s, decode? (groups.flatMap Group.bytes) = some s →
        (encode s = groups.flatMap Group.bytes ↔ ∀ g ∈ groups, ¬ g.IsOverlong) := by
  have hread : ∀ b s, decode? b = some s ↔ ∃ groups : List Group,
      groups.flatMap Group.bytes = b ∧ groups.map Group.unit = Text.Utf16.units s.toList := by
    intro b s
    rw [decode?_eq_some_iff, decodeUnits?_eq_some_iff]
  refine ⟨fun s => ⟨decode?_encode s, ?_⟩, hread, fun _ _ => Group.flatMap_bytes_injective, ?_, ?_⟩
  · obtain ⟨groups, hbytes, _⟩ := (hread _ s).1 (decode?_encode s)
    rw [← hbytes]
    exact fun x => Group.range_of_mem_flatMap
  · intro b hb
    refine Option.eq_none_iff_forall_ne_some.2 fun s hs => ?_
    obtain ⟨groups, rfl, hunits⟩ := (hread b s).1 hs
    rcases hb with hzero | ⟨x, hx, hlarge⟩ | hcut | ⟨hs, hbytes, hunpaired⟩
    · exact (Group.range_of_mem_flatMap hzero).1 rfl
    · exact absurd (Group.range_of_mem_flatMap hx).2 (UInt8.not_lt.2 hlarge)
    · exact not_cutOff_flatMap groups hcut
    · rw [Group.flatMap_bytes_injective hbytes, hunits] at hunpaired
      have hnone := Text.Utf16.ofUnits?_eq_none_iff.2 hunpaired
      rw [Text.Utf16.ofUnits?_units] at hnone
      cases hnone
  · intro groups s hs
    obtain ⟨_, hbytes, hunits⟩ := (hread _ s).1 hs
    rw [Group.flatMap_bytes_injective hbytes] at hunits
    rw [encode, ← hunits]
    exact Group.encodeUnits_eq_flatMap_iff

end LinkSet.ModifiedUtf8
