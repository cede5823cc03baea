import LinkSet.ClassFile.Reader
import Mathlib.Data.List.Forall2

/-!
# What readers recognise

A reader succeeds exactly if certain bytes stand ahead of the cursor, and then the cursor ends up
behind them. The lemmas here say for each basic reader which bytes these are, and how they add up in
a sequence (`bind_eq_ok`) and in a loop (`iterate_eq_ok`). With them, what a composed reader
recognises can be read off its definition.
-/

namespace LinkSet

/-! ## Moving over bytes -/

/-- The bytes lie between the two cursors. -/
def Cursor.Passes (c : Cursor) (bytes : Bytes) (c' : Cursor) : Prop :=
  c.rest = bytes ++ c'.rest ∧ c'.offset = c.offset + bytes.length

namespace Cursor

theorem passes_nil {c c' : Cursor} : c.Passes [] c' ↔ c' = c := by
  obtain ⟨offset, rest⟩ := c
  obtain ⟨offset', rest'⟩ := c'
  simp only [Passes, List.nil_append, List.length_nil, Nat.add_zero, mk.injEq]
  exact ⟨fun ⟨h₁, h₂⟩ => ⟨h₂, h₁.symm⟩, fun ⟨h₁, h₂⟩ => ⟨h₂.symm, h₁⟩⟩

theorem Passes.trans {c c₁ c' : Cursor} {front back : Bytes} (h₁ : c.Passes front c₁)
    (h₂ : c₁.Passes back c') : c.Passes (front ++ back) c' := by
  refine ⟨?_, ?_⟩
  · rw [h₁.1, h₂.1, List.append_assoc]
  · rw [h₂.2, h₁.2, List.length_append, Nat.add_assoc]

/-- Two pieces are passed one after the other. -/
theorem passes_append {c c' : Cursor} {front back : Bytes} :
    c.Passes (front ++ back) c' ↔ ∃ c₁, c.Passes front c₁ ∧ c₁.Passes back c' := by
  constructor
  · rintro ⟨hrest, hoffset⟩
    refine ⟨⟨c.offset + front.length, back ++ c'.rest⟩, ⟨?_, rfl⟩, rfl, ?_⟩
    · rw [hrest, List.append_assoc]
    · rw [hoffset, List.length_append, Nat.add_assoc]
  · rintro ⟨c₁, h₁, h₂⟩
    exact h₁.trans h₂

theorem passes_cons {c c' : Cursor} {b : UInt8} {bytes : Bytes} :
    c.Passes (b :: bytes) c' ↔ ∃ c₁, c.Passes [b] c₁ ∧ c₁.Passes bytes c' := by
  rw [← passes_append, List.singleton_append]

/-- The next `n` bytes are passed by moving forward that far. -/
theorem passes_advance_iff {c c' : Cursor} {n : Nat} {bytes : Bytes} (h : n ≤ c.rest.length) :
    c' = c.advance n ∧ bytes = c.rest.take n ↔ c.Passes bytes c' ∧ bytes.length = n := by
  constructor
  · rintro ⟨rfl, rfl⟩
    have hn : (c.rest.take n).length = n := List.length_take_of_le h
    refine ⟨⟨?_, ?_⟩, hn⟩
    · exact (List.take_append_drop n c.rest).symm
    · rw [hn]
      rfl
  · rintro ⟨⟨hrest, hoffset⟩, rfl⟩
    obtain ⟨offset', rest'⟩ := c'
    simp only at hrest hoffset
    refine ⟨?_, ?_⟩
    · rw [advance, hrest, List.drop_left, hoffset]
    · rw [hrest, List.take_left]

end Cursor

namespace Reader

variable {α β σ : Type} {c c' : Cursor}

/-! ## Sequences -/

theorem pure_eq_ok {a v : α} : (pure a : Reader α) c = .ok (v, c') ↔ v = a ∧ c' = c := by
  change Except.ok (a, c) = .ok (v, c') ↔ _
  rw [Except.ok.injEq, Prod.mk.injEq]
  exact ⟨fun ⟨h₁, h₂⟩ => ⟨h₁.symm, h₂.symm⟩, fun ⟨h₁, h₂⟩ => ⟨h₁.symm, h₂.symm⟩⟩

theorem bind_eq_ok {x : Reader α} {f : α → Reader β} {r : β × Cursor} :
    (x >>= f) c = .ok r ↔ ∃ a c₁, x c = .ok (a, c₁) ∧ f a c₁ = .ok r := by
  change (x c >>= fun p => f p.1 p.2) = .ok r ↔ _
  cases h : x c with
  | error e => simp [bind, Except.bind]
  | ok p =>
    change f p.1 p.2 = .ok r ↔ _
    constructor
    · intro hf
      exact ⟨p.1, p.2, rfl, hf⟩
    · rintro ⟨a, c₁, hp, hf⟩
      obtain rfl := Except.ok.inj hp
      exact hf

theorem liftM_eq_ok {x : Except ClassFileError α} {v : α} :
    (liftM x : Reader α) c = .ok (v, c') ↔ x = .ok v ∧ c' = c := by
  change (x >>= fun a => Except.ok (a, c)) = .ok (v, c') ↔ _
  cases x with
  | error e => simp [bind, Except.bind]
  | ok a =>
    simp only [bind, Except.bind, Except.ok.injEq, Prod.mk.injEq]
    exact ⟨fun ⟨h₁, h₂⟩ => ⟨h₁, h₂.symm⟩, fun ⟨h₁, h₂⟩ => ⟨h₁, h₂.symm⟩⟩

theorem throw_ne_ok {e : ClassFileError} {r : α × Cursor} : (throw e : Reader α) c ≠ .ok r := by
  intro h
  cases h

/-! ## Basic readers -/

theorem position_eq_ok {v : Nat} : position c = .ok (v, c') ↔ v = c.offset ∧ c' = c := by
  simp only [position, Except.ok.injEq, Prod.mk.injEq]
  exact ⟨fun ⟨h₁, h₂⟩ => ⟨h₁.symm, h₂.symm⟩, fun ⟨h₁, h₂⟩ => ⟨h₁.symm, h₂.symm⟩⟩

theorem take_eq_ok {n : Nat} {bytes : Bytes} :
    take n c = .ok (bytes, c') ↔ c.Passes bytes c' ∧ bytes.length = n := by
  rw [take_eq]
  by_cases h : n ≤ c.rest.length
  · rw [if_pos h, ← Cursor.passes_advance_iff h, Except.ok.injEq, Prod.mk.injEq]
    exact ⟨fun ⟨h₁, h₂⟩ => ⟨h₂.symm, h₁.symm⟩, fun ⟨h₁, h₂⟩ => ⟨h₂.symm, h₁.symm⟩⟩
  · rw [if_neg h]
    refine ⟨fun h' => (nomatch h'), fun ⟨hp, hn⟩ => absurd ?_ h⟩
    rw [hp.1, List.length_append]
    omega

theorem skip_eq_ok {n : Nat} {u : Unit} :
    skip n c = .ok (u, c') ↔ ∃ bytes : Bytes, c.Passes bytes c' ∧ bytes.length = n := by
  have hskip : skip n c = .ok (u, c') ↔ ∃ bytes, take n c = .ok (bytes, c') := by
    rw [skip_eq, take_eq]
    by_cases h : n ≤ c.rest.length
    · simp only [if_pos h, Except.ok.injEq, Prod.mk.injEq, true_and]
      exact ⟨fun h' => ⟨_, rfl, h'⟩, fun ⟨_, _, h'⟩ => h'⟩
    · simp [if_neg h]
  simp only [hskip, take_eq_ok]

theorem u8_eq_ok {v : UInt8} : u8 c = .ok (v, c') ↔ c.Passes [v] c' := by
  obtain ⟨offset, rest⟩ := c
  obtain ⟨offset', rest'⟩ := c'
  cases rest with
  | nil => simp [u8, Cursor.Passes]
  | cons b rest =>
    simp only [u8, Except.ok.injEq, Prod.mk.injEq, Cursor.mk.injEq, Cursor.Passes,
      List.singleton_append, List.cons.injEq, List.length_singleton]
    exact ⟨fun ⟨h₁, h₂, h₃⟩ => ⟨⟨h₁, h₃⟩, h₂.symm⟩, fun ⟨⟨h₁, h₃⟩, h₂⟩ => ⟨h₁, h₂.symm, h₃⟩⟩

theorem u16_eq_ok {v : UInt16} : u16 c = .ok (v, c') ↔ c.Passes (Bytes.ofUInt16 v) c' := by
  obtain ⟨offset, rest⟩ := c
  obtain ⟨offset', rest'⟩ := c'
  constructor
  · intro h
    match rest with
    | [] => simp [u16] at h
    | [_] => simp [u16] at h
    | b₁ :: b₀ :: rest =>
      simp only [u16, Except.ok.injEq, Prod.mk.injEq, Cursor.mk.injEq] at h
      obtain ⟨rfl, rfl, rfl⟩ := h
      exact ⟨by rw [Bytes.ofUInt16_toUInt16]; rfl, rfl⟩
  · rintro ⟨hrest, hoffset⟩
    simp only [Bytes.length_ofUInt16] at hrest hoffset
    subst hrest hoffset
    change Except.ok (Bytes.toUInt16 _ _, _) = _
    rw [Bytes.toUInt16_ofUInt16]
    rfl

theorem u32_eq_ok {v : UInt32} : u32 c = .ok (v, c') ↔ c.Passes (Bytes.ofUInt32 v) c' := by
  obtain ⟨offset, rest⟩ := c
  obtain ⟨offset', rest'⟩ := c'
  constructor
  · intro h
    match rest with
    | [] => simp [u32] at h
    | [_] => simp [u32] at h
    | [_, _] => simp [u32] at h
    | [_, _, _] => simp [u32] at h
    | b₃ :: b₂ :: b₁ :: b₀ :: rest =>
      simp only [u32, Except.ok.injEq, Prod.mk.injEq, Cursor.mk.injEq] at h
      obtain ⟨rfl, rfl, rfl⟩ := h
      exact ⟨by rw [Bytes.ofUInt32_toUInt32]; rfl, rfl⟩
  · rintro ⟨hrest, hoffset⟩
    simp only [Bytes.length_ofUInt32] at hrest hoffset
    subst hrest hoffset
    change Except.ok (Bytes.toUInt32 _ _ _ _, _) = _
    rw [Bytes.toUInt32_ofUInt32]
    rfl

/-! ## Loops -/

/-- How a loop over items takes one state to another: `R offset s x s'` says what the item `x`,
written at `offset`, makes of the state `s`. -/
def Chain (encode : α → Bytes) (R : Nat → σ → α → σ → Prop) : Nat → σ → List α → σ → Prop
  | _, s, [], s' => s' = s
  | offset, s, x :: xs, s' =>
    ∃ s₁, R offset s x s₁ ∧ Chain encode R (offset + (encode x).length) s₁ xs s'

/-- A loop recognises as many items as it has rounds, if each round recognises one. -/
theorem iterate_eq_ok {step : σ → Reader σ} {encode : α → Bytes} {R : Nat → σ → α → σ → Prop}
    (hstep : ∀ {s c s' c'}, step s c = .ok (s', c')
      ↔ ∃ x, c.Passes (encode x) c' ∧ R c.offset s x s')
    {n : Nat} {s s' : σ} :
    iterate step n s c = .ok (s', c')
      ↔ ∃ xs : List α, xs.length = n ∧ c.Passes (xs.flatMap encode) c'
        ∧ Chain encode R c.offset s xs s' := by
  induction n generalizing s c with
  | zero =>
    rw [iterate_zero, pure_eq_ok]
    constructor
    · rintro ⟨rfl, rfl⟩
      exact ⟨[], rfl, Cursor.passes_nil.2 rfl, rfl⟩
    · rintro ⟨xs, hlen, hp, hchain⟩
      obtain rfl := List.eq_nil_of_length_eq_zero hlen
      exact ⟨hchain, Cursor.passes_nil.1 hp⟩
  | succ n ih =>
    rw [iterate_succ, bind_eq_ok]
    constructor
    · rintro ⟨s₁, c₁, h₁, h₂⟩
      obtain ⟨x, hp, hR⟩ := hstep.1 h₁
      obtain ⟨xs, rfl, hps, hchain⟩ := ih.1 h₂
      rw [hp.2] at hchain
      exact ⟨x :: xs, rfl, hp.trans hps, s₁, hR, hchain⟩
    · rintro ⟨xs, hlen, hp, hchain⟩
      cases xs with
      | nil => cases hlen
      | cons x xs =>
        obtain ⟨s₁, hR, hchain⟩ := hchain
        obtain ⟨c₁, hp₁, hp₂⟩ := Cursor.passes_append.1 hp
        rw [← hp₁.2] at hchain
        exact ⟨s₁, c₁, hstep.2 ⟨x, hp₁, hR⟩, ih.2 ⟨xs, Nat.succ.inj hlen, hp₂, hchain⟩⟩

/-- A loop that only passes over items recognises as many of them as it has rounds. -/
theorem iterate_skip_eq_ok {item : Reader Unit} {encode : α → Bytes}
    (hitem : ∀ {c c' u}, item c = .ok (u, c') ↔ ∃ x, c.Passes (encode x) c') {n : Nat} {u : Unit} :
    iterate (fun _ => item) n () c = .ok (u, c')
      ↔ ∃ xs : List α, xs.length = n ∧ c.Passes (xs.flatMap encode) c' := by
  let R : Nat → Unit → α → Unit → Prop := fun _ _ _ _ => True
  have hstep : ∀ {s c s' c'}, (fun (_ : Unit) => item) s c = .ok (s', c')
      ↔ ∃ x, c.Passes (encode x) c' ∧ R c.offset s x s' := by
    intro _ c _ c'
    simp only [hitem, R, and_true]
  have hchain : ∀ (xs : List α) offset, Chain encode R offset () xs () := by
    intro xs
    induction xs with
    | nil => intro offset; rfl
    | cons x xs ih => intro offset; exact ⟨(), trivial, ih _⟩
  rw [iterate_eq_ok hstep]
  exact ⟨fun ⟨xs, h₁, h₂, _⟩ => ⟨xs, h₁, h₂⟩, fun ⟨xs, h₁, h₂⟩ => ⟨xs, h₁, h₂, hchain xs _⟩⟩

/-- Collected values belong to the items, one by one. -/
theorem collect_eq_ok {item : Reader β} {encode : α → Bytes} {M : α → β → Prop}
    (hitem : ∀ {c v c'}, item c = .ok (v, c') ↔ ∃ x, c.Passes (encode x) c' ∧ M x v)
    {n : Nat} {vs : List β} :
    collect item n c = .ok (vs, c')
      ↔ ∃ xs : List α, xs.length = n ∧ c.Passes (xs.flatMap encode) c' ∧ List.Forall₂ M xs vs := by
  let R : Nat → List β → α → List β → Prop := fun _ done x done' => ∃ v, M x v ∧ done' = v :: done
  have hstep : ∀ {done c done' c'},
      (do return (← item) :: done : Reader (List β)) c = .ok (done', c')
      ↔ ∃ x, c.Passes (encode x) c' ∧ R c.offset done x done' := by
    intro done c done' c'
    simp only [bind_eq_ok, pure_eq_ok, hitem, R]
    constructor
    · rintro ⟨v, c₁, ⟨x, hp, hM⟩, rfl, rfl⟩
      exact ⟨x, hp, v, hM, rfl⟩
    · rintro ⟨x, hp, v, hM, rfl⟩
      exact ⟨v, c', ⟨x, hp, hM⟩, rfl, rfl⟩
  have hchain : ∀ (xs : List α) offset done done', Chain encode R offset done xs done'
      ↔ ∃ vs, List.Forall₂ M xs vs ∧ done' = vs.reverse ++ done := by
    intro xs
    induction xs with
    | nil =>
      intro offset done done'
      simp [Chain]
    | cons x xs ih =>
      intro offset done done'
      simp only [Chain, ih, R, List.forall₂_cons_left_iff]
      constructor
      · rintro ⟨_, ⟨v, hM, rfl⟩, vs, hvs, rfl⟩
        exact ⟨v :: vs, ⟨v, vs, hM, hvs, rfl⟩, by simp⟩
      · rintro ⟨_, ⟨v, vs, hM, hvs, rfl⟩, rfl⟩
        exact ⟨_, ⟨v, hM, rfl⟩, vs, hvs, by simp⟩
  unfold collect
  simp only [bind_eq_ok, pure_eq_ok, iterate_eq_ok hstep, hchain]
  constructor
  · rintro ⟨_, c₁, ⟨xs, hlen, hp, vs, hvs, rfl⟩, rfl, rfl⟩
    exact ⟨xs, hlen, hp, by simpa using hvs⟩
  · rintro ⟨xs, hlen, hp, hvs⟩
    exact ⟨vs.reverse, c', ⟨xs, hlen, hp, vs, hvs, by simp⟩, by simp, rfl⟩

/-- What is read from some bytes is read from a cursor in front of them. -/
theorem run_eq_ok {r : Reader α} {bytes : Bytes} {v : α} :
    r.run bytes = .ok v ↔ ∃ c', r (Cursor.start bytes) = .ok (v, c') := by
  change (Prod.fst <$> r (Cursor.start bytes)) = .ok v ↔ _
  cases r (Cursor.start bytes) with
  | error e => simp [Functor.map, Except.map]
  | ok p =>
    obtain ⟨a, c'⟩ := p
    simp [Functor.map, Except.map]

end Reader

end LinkSet
