import LinkSet.Proofs.Sealing

/-!
# Class files that are cut short

How far a class file goes is told by the file itself. A reader that moves over some bytes does the
same whatever stands behind them, and if it is given only a part of them it runs out of bytes before
it finds any other fault (`Reader.SelfDelimiting`). This holds of the basic readers and is kept by
sequences and loops, so it holds of every part of a class file. With a check behind the last part
that nothing is left, no part of a class file is one, and no class file goes on behind its end
(`ClassFile.parse_cut`).
-/

namespace LinkSet

namespace Reader

variable {α β σ : Type}

/-! ## Running out of bytes -/

/-- A piece was to be read that goes on behind `stop`, where the bytes end. -/
def RunsOut (result : Except ClassFileError β) (stop : Nat) : Prop :=
  ∃ offset needed, result = .error (.truncated offset needed)
    ∧ offset ≤ stop ∧ stop < offset + needed

/-- From `offset` on, the reader takes `v` from these bytes, whatever stands behind them, and runs
out of bytes if some of them are missing. -/
structure Takes (r : Reader α) (offset : Nat) (bytes : Bytes) (v : α) : Prop where
  whole : ∀ rest, r ⟨offset, bytes ++ rest⟩ = .ok (v, ⟨offset + bytes.length, rest⟩)
  cut : ∀ front, front <+: bytes → front ≠ bytes →
    RunsOut (r ⟨offset, front⟩) (offset + front.length)

/-- What the reader takes ends where its own bytes say so. -/
def SelfDelimiting (r : Reader α) : Prop :=
  ∀ c v c', r c = .ok (v, c') → ∃ bytes, c.Passes bytes c' ∧ Takes r c.offset bytes v

theorem length_lt_of_prefix {front bytes : Bytes} (hp : front <+: bytes) (hne : front ≠ bytes) :
    front.length < bytes.length := by
  have hle := hp.length_le
  have hlength : front.length ≠ bytes.length := fun heq => hne (hp.eq_of_length heq)
  omega

/-- A proper front of two pieces is a proper front of the first, or goes on behind it. -/
theorem prefix_append_cases {front first second : Bytes} (hp : front <+: first ++ second)
    (hne : front ≠ first ++ second) :
    (front <+: first ∧ front ≠ first)
      ∨ ∃ back, front = first ++ back ∧ back <+: second ∧ back ≠ second := by
  by_cases hfirst : first <+: front
  · obtain ⟨back, rfl⟩ := hfirst
    refine .inr ⟨back, rfl, (List.prefix_append_right_inj first).1 hp, ?_⟩
    rintro rfl
    exact hne rfl
  · have hshort : front <+: first :=
      (List.prefix_or_prefix_of_prefix hp (List.prefix_append _ _)).resolve_right hfirst
    refine .inl ⟨hshort, ?_⟩
    rintro rfl
    exact hfirst (List.prefix_refl _)

/-! ## Sequences -/

variable {x : Reader α} {f : α → Reader β} {c : Cursor}

theorem bind_of_ok {a : α} {c' : Cursor} (h : x c = .ok (a, c')) : (x >>= f) c = f a c' := by
  change (x c >>= fun p => f p.1 p.2) = _
  rw [h]
  rfl

theorem RunsOut.bind {stop : Nat} (h : RunsOut (x c) stop) : RunsOut ((x >>= f) c) stop := by
  obtain ⟨offset, needed, herror, hoffset, hstop⟩ := h
  refine ⟨offset, needed, ?_, hoffset, hstop⟩
  change (x c >>= fun p => f p.1 p.2) = _
  rw [herror]
  rfl

theorem takes_nothing {v : α} {offset : Nat}
    (h : ∀ rest, x ⟨offset, rest⟩ = .ok (v, ⟨offset, rest⟩)) : Takes x offset [] v :=
  ⟨h, fun _ hp hne => absurd (List.prefix_nil.1 hp) hne⟩

/-- Two pieces are taken one after the other. -/
theorem Takes.bind {offset : Nat} {first second : Bytes} {a : α} {v : β}
    (hx : Takes x offset first a) (hf : Takes (f a) (offset + first.length) second v) :
    Takes (x >>= f) offset (first ++ second) v := by
  constructor
  · intro rest
    rw [List.append_assoc, bind_of_ok (hx.whole _), hf.whole, List.length_append, Nat.add_assoc]
  · intro front hp hne
    rcases prefix_append_cases hp hne with ⟨hp, hne⟩ | ⟨back, rfl, hp, hne⟩
    · exact (hx.cut front hp hne).bind
    · rw [bind_of_ok (hx.whole back), List.length_append, ← Nat.add_assoc]
      exact hf.cut back hp hne

namespace SelfDelimiting

theorem pure (a : α) : SelfDelimiting (pure a : Reader α) := by
  intro c v c' h
  obtain ⟨rfl, rfl⟩ := pure_eq_ok.1 h
  exact ⟨[], Cursor.passes_nil.2 rfl, takes_nothing fun _ => rfl⟩

theorem throw (e : ClassFileError) : SelfDelimiting (throw e : Reader α) :=
  fun _ _ _ h => absurd h throw_ne_ok

theorem liftM (result : Except ClassFileError α) : SelfDelimiting (liftM result : Reader α) := by
  intro c v c' h
  obtain ⟨rfl, rfl⟩ := liftM_eq_ok.1 h
  exact ⟨[], Cursor.passes_nil.2 rfl, takes_nothing fun _ => rfl⟩

theorem bind (hx : SelfDelimiting x) (hf : ∀ a, SelfDelimiting (f a)) :
    SelfDelimiting (x >>= f) := by
  intro c v c' h
  obtain ⟨a, c₁, ha, hv⟩ := bind_eq_ok.1 h
  obtain ⟨first, hpasses, htakes⟩ := hx c a c₁ ha
  obtain ⟨second, hpasses', htakes'⟩ := hf a c₁ v c' hv
  rw [hpasses.2] at htakes'
  exact ⟨first ++ second, hpasses.trans hpasses', htakes.bind htakes'⟩

theorem iterate {step : σ → Reader σ} (hstep : ∀ s, SelfDelimiting (step s)) (n : Nat) (s : σ) :
    SelfDelimiting (iterate step n s) := by
  induction n generalizing s with
  | zero => exact .pure s
  | succ n ih => exact .bind (hstep s) ih

theorem collect {item : Reader α} (hitem : SelfDelimiting item) (n : Nat) :
    SelfDelimiting (collect item n) :=
  .bind (.iterate (fun _ => .bind hitem fun _ => .pure _) n []) fun _ => .pure _

/-! ## Basic readers -/

/-- A reader that takes one piece of a fixed length as a whole or not at all. -/
theorem of_piece {r : Reader α} (n : Nat) (Holds : α → Bytes → Prop)
    (hok : ∀ {c v c'}, r c = .ok (v, c')
      ↔ ∃ bytes, c.Passes bytes c' ∧ bytes.length = n ∧ Holds v bytes)
    (hshort : ∀ {c : Cursor}, c.rest.length < n → r c = .error (.truncated c.offset n)) :
    SelfDelimiting r := by
  intro c v c' h
  obtain ⟨bytes, hpasses, hlength, hholds⟩ := hok.1 h
  refine ⟨bytes, hpasses, fun rest => hok.2 ⟨bytes, ⟨rfl, rfl⟩, hlength, hholds⟩, ?_⟩
  intro front hp hne
  have hlt := length_lt_of_prefix hp hne
  exact ⟨c.offset, n, hshort (hlength ▸ hlt), Nat.le_add_right _ _, by omega⟩

theorem position : SelfDelimiting position := by
  intro c v c' h
  obtain ⟨rfl, rfl⟩ := position_eq_ok.1 h
  exact ⟨[], Cursor.passes_nil.2 rfl, takes_nothing fun _ => rfl⟩

theorem take (n : Nat) : SelfDelimiting (take n) := by
  refine of_piece n (fun v bytes => v = bytes) ?_ ?_
  · intro c v c'
    rw [take_eq_ok]
    constructor
    · rintro ⟨hpasses, hlength⟩
      exact ⟨v, hpasses, hlength, rfl⟩
    · rintro ⟨_, hpasses, hlength, rfl⟩
      exact ⟨hpasses, hlength⟩
  · intro c hlt
    rw [take_eq, if_neg (Nat.not_le.2 hlt)]

theorem skip (n : Nat) : SelfDelimiting (skip n) := by
  refine of_piece n (fun _ _ => True) ?_ ?_
  · intro c v c'
    simp only [skip_eq_ok, and_true]
  · intro c hlt
    rw [skip_eq, if_neg (Nat.not_le.2 hlt)]

/-- Numbers are pieces of the length that they are written with. -/
theorem of_number {r : Reader α} {n : Nat} (encode : α → Bytes)
    (hlength : ∀ v, (encode v).length = n)
    (hok : ∀ {c v c'}, r c = .ok (v, c') ↔ c.Passes (encode v) c')
    (hshort : ∀ {c : Cursor}, c.rest.length < n → r c = .error (.truncated c.offset n)) :
    SelfDelimiting r := by
  refine of_piece n (fun v bytes => bytes = encode v) ?_ hshort
  intro c v c'
  rw [hok]
  constructor
  · intro hpasses
    exact ⟨_, hpasses, hlength v, rfl⟩
  · rintro ⟨_, hpasses, _, rfl⟩
    exact hpasses

theorem u8 : SelfDelimiting u8 := by
  refine of_number (fun v => [v]) (fun _ => rfl) u8_eq_ok ?_
  rintro ⟨offset, rest⟩ hlt
  match rest, hlt with
  | [], _ => rfl

theorem u16 : SelfDelimiting u16 := by
  refine of_number Bytes.ofUInt16 Bytes.length_ofUInt16 u16_eq_ok ?_
  rintro ⟨offset, rest⟩ hlt
  match rest, hlt with
  | [], _ => rfl
  | [_], _ => rfl

theorem u32 : SelfDelimiting u32 := by
  refine of_number Bytes.ofUInt32 Bytes.length_ofUInt32 u32_eq_ok ?_
  rintro ⟨offset, rest⟩ hlt
  match rest, hlt with
  | [], _ => rfl
  | [_], _ => rfl
  | [_, _], _ => rfl
  | [_, _, _], _ => rfl

end SelfDelimiting

/-! ## Reading to the end -/

/-- Bytes that the reader accepts as all that is left are accepted neither in part, for then it runs
out of bytes, nor with more behind them. -/
def ReadsToEnd (r : Reader α) : Prop :=
  ∀ c v c', r c = .ok (v, c') →
    (∀ front, front <+: c.rest → front ≠ c.rest →
      RunsOut (r ⟨c.offset, front⟩) (c.offset + front.length))
    ∧ ∀ tail, tail ≠ [] →
      r ⟨c.offset, c.rest ++ tail⟩ = .error (.trailingBytes tail.length)

theorem SelfDelimiting.readsToEnd (hx : SelfDelimiting x) (hf : ∀ a, ReadsToEnd (f a)) :
    ReadsToEnd (x >>= f) := by
  intro c v c' h
  obtain ⟨a, c₁, ha, hv⟩ := bind_eq_ok.1 h
  obtain ⟨first, ⟨hrest, hoffset⟩, htakes⟩ := hx c a c₁ ha
  obtain ⟨hcut, hlonger⟩ := hf a c₁ v c' hv
  rw [hoffset] at hcut hlonger
  rw [hrest]
  constructor
  · intro front hp hne
    rcases prefix_append_cases hp hne with ⟨hp, hne⟩ | ⟨back, rfl, hp, hne⟩
    · exact (htakes.cut front hp hne).bind
    · rw [bind_of_ok (htakes.whole back), List.length_append, ← Nat.add_assoc]
      exact hcut back hp hne
  · intro tail htail
    rw [List.append_assoc, bind_of_ok (htakes.whole _)]
    exact hlonger tail htail

end Reader

open Reader (SelfDelimiting ReadsToEnd RunsOut)

/-! ## Constant pools -/

theorem Constant.selfDelimiting_readValue (tag : UInt8) (index : Nat) :
    SelfDelimiting (readValue tag index) := by
  by_cases h₁ : tag = 1
  · subst h₁
    rw [readValue_utf8]
    exact .bind .u16 fun _ => .bind (.take _) fun _ => .pure _
  by_cases h₇ : tag = 7
  · subst h₇
    rw [readValue_classRef]
    exact .bind .u16 fun _ => .pure _
  by_cases hw : tag = 5 ∨ tag = 6
  · rw [readValue_wide hw]
    exact .bind (.skip _) fun _ => .pure _
  cases ho : otherWidth? tag with
  | none =>
    rw [readValue_unknown h₁ h₇ hw ho]
    exact .throw _
  | some n =>
    rw [readValue_other ho]
    exact .bind (.skip _) fun _ => .pure _

namespace ConstantPool

theorem selfDelimiting_readSlots (missing : Nat) (pool : ConstantPool) :
    SelfDelimiting (readSlots missing pool) := by
  induction missing using Nat.strongRecOn generalizing pool with
  | _ missing ih =>
    cases missing with
    | zero => exact .pure pool
    | succ missing =>
      rw [readSlots_succ]
      refine .bind (.bind .u8 fun tag => Constant.selfDelimiting_readValue tag _) fun k => ih _ ?_ _
      split <;> omega

theorem selfDelimiting_read : SelfDelimiting read :=
  .bind .u16 fun _ => selfDelimiting_readSlots _ _

end ConstantPool

/-! ## Class files -/

namespace ClassFile

variable (pool : ConstantPool)

theorem selfDelimiting_readMagic : SelfDelimiting readMagic := by
  refine .bind .u32 fun number => ?_
  split
  · exact .pure _
  · exact .throw _

theorem selfDelimiting_readInterfaces : SelfDelimiting (readInterfaces pool) :=
  .bind .u16 fun _ => .collect (.bind .u16 fun _ => .liftM _) _

theorem selfDelimiting_skipAttribute : SelfDelimiting skipAttribute :=
  .bind (.skip _) fun _ => .bind .u32 fun _ => .skip _

theorem selfDelimiting_skipMember : SelfDelimiting skipMember :=
  .bind (.skip _) fun _ => .bind .u16 fun _ => .iterate (fun _ => selfDelimiting_skipAttribute) _ _

theorem selfDelimiting_skipMembers : SelfDelimiting skipMembers :=
  .bind .u16 fun _ => .iterate (fun _ => selfDelimiting_skipMember) _ _

theorem selfDelimiting_readAttribute (seen : Option PermittedSubclasses) :
    SelfDelimiting (readAttribute pool seen) := by
  refine .bind .position fun start => .bind .u16 fun nameIndex => .bind .u32 fun length =>
    .bind (.take _) fun body => .bind (.liftM _) fun name => ?_
  split
  · exact .bind (.liftM _) fun _ => .bind .position fun _ => .pure _
  · exact .pure _

theorem selfDelimiting_readAttributes : SelfDelimiting (readAttributes pool) :=
  .bind .u16 fun _ => .iterate (selfDelimiting_readAttribute pool) _ _

/-- The check that nothing is left holds of no part and of nothing longer. -/
theorem readsToEnd_readEnd {β : Type} (f : Unit → Reader β) : ReadsToEnd (readEnd >>= f) := by
  intro c v c' h
  obtain ⟨_, c₁, hend, _⟩ := Reader.bind_eq_ok.1 h
  obtain ⟨hrest, _⟩ := readEnd_eq_ok.1 hend
  rw [hrest]
  refine ⟨fun front hp hne => absurd (List.prefix_nil.1 hp) hne, fun tail htail => ?_⟩
  cases tail with
  | nil => exact absurd rfl htail
  | cons b tail => rfl

theorem readsToEnd_read : ReadsToEnd read := by
  refine selfDelimiting_readMagic.readsToEnd fun _ => ?_
  refine SelfDelimiting.u16.readsToEnd fun _ => SelfDelimiting.u16.readsToEnd fun _ => ?_
  refine ConstantPool.selfDelimiting_read.readsToEnd fun pool => ?_
  refine SelfDelimiting.position.readsToEnd fun _ => ?_
  refine SelfDelimiting.u16.readsToEnd fun _ => SelfDelimiting.u16.readsToEnd fun _ => ?_
  refine SelfDelimiting.u16.readsToEnd fun _ => ?_
  refine (selfDelimiting_readInterfaces pool).readsToEnd fun _ => ?_
  refine selfDelimiting_skipMembers.readsToEnd fun _ => ?_
  refine selfDelimiting_skipMembers.readsToEnd fun _ => ?_
  refine SelfDelimiting.position.readsToEnd fun _ => ?_
  refine (selfDelimiting_readAttributes pool).readsToEnd fun _ => ?_
  exact readsToEnd_readEnd _

theorem parse_eq_error {b : Bytes} {e : ClassFileError} (h : read (Cursor.start b) = .error e) :
    parse b = .error e := by
  change (Prod.fst <$> read (Cursor.start b)) = _
  rw [h]
  rfl

/-- Of a class file no bytes can be missing at the end: what is left of it is refused for a piece
that starts in it and goes on behind it. And no bytes can follow: they are counted and refused. -/
theorem parse_cut {b : Bytes} {cf : ClassFile} (hparse : parse b = .ok cf) :
    (∀ front, front <+: b → front ≠ b → ∃ offset needed,
      parse front = .error (.truncated offset needed)
        ∧ offset ≤ front.length ∧ front.length < offset + needed)
      ∧ ∀ tail, tail ≠ [] → parse (b ++ tail) = .error (.trailingBytes tail.length) := by
  obtain ⟨c', hread⟩ := Reader.run_eq_ok.1 hparse
  obtain ⟨hcut, hlonger⟩ := readsToEnd_read _ _ _ hread
  constructor
  · intro front hp hne
    obtain ⟨offset, needed, herror, hoffset, hstop⟩ := hcut front hp hne
    have hlength : (Cursor.start b).offset + front.length = front.length := Nat.zero_add _
    rw [hlength] at hoffset hstop
    exact ⟨offset, needed, parse_eq_error herror, hoffset, hstop⟩
  · intro tail htail
    exact parse_eq_error (hlonger tail htail)

/-- The class `A` without its last byte, and with one byte more. -/
theorem parse_cut_plain :
    (∃ offset needed, parse (plainBytes.take 30) = .error (.truncated offset needed)
      ∧ offset ≤ 30 ∧ 30 < offset + needed)
      ∧ parse (plainBytes ++ [0]) = .error (.trailingBytes 1) := by
  obtain ⟨hcut, hlonger⟩ := parse_cut parse_plainBytes
  exact ⟨hcut (plainBytes.take 30) (List.take_prefix _ _) (by decide), hlonger [0] (by decide)⟩

end ClassFile

end LinkSet
