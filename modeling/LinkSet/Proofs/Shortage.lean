import LinkSet.Proofs.PoolRoom

/-!
# What an extension is short of

An extension that is asked for constants adds those that it lacks. This comes to one of three ends
(`PoolExtension.Takes`): the constants have been added, and take a number of slots that is known
beforehand, or one of the texts is too long, or there are not as many slots left. Steps that are
taken one after the other add up (`PoolExtension.Takes.bind`), so the end of a whole listing is known
from what is lacking at its start (`PoolExtension.addClasses_takes`).

Names that are asked for together have to differ, as a class that has been added is not looked for
again.
-/

namespace LinkSet.PoolExtension

variable {e e₁ e' : PoolExtension} {α β : Type} {m n : Nat} {text : Bytes}
  {texts texts' : List Bytes}

/-- The text is neither in the pool nor among the constants that have been added. -/
def lacks (e : PoolExtension) (text : Bytes) : Bool :=
  e.pool.lacksText text && (e.findAdded? text).isNone

theorem isNone_findAdded? :
    (e.findAdded? text).isNone = true ↔ ∀ k ∈ e.added, ConstantPool.isUtf8 text k = false := by
  rw [findAdded?, Option.isNone_map, Option.isNone_iff_eq_none, Array.findIdx?_eq_none_iff]

/-- No text in the extension is too long. -/
def Short (e : PoolExtension) : Prop := ∀ text, e.lacks text = false → text.length ≤ maxTextLength

/-! ## Ends -/

/-- What can come of asking for constants that take `n` more slots, with some texts among them. -/
inductive Takes (e : PoolExtension) (n : Nat) (texts : List Bytes) :
    Except ClassFileError (α × PoolExtension) → Prop
  /-- They have been added if they were lacking. -/
  | added {a : α} {e' : PoolExtension} (pool_eq : e'.pool = e.pool) (size_eq : e'.size = e.size + n)
    (room : n = 0 ∨ e'.size ≤ maxSlots) (short : e'.Short)
    (texts_short : ∀ text ∈ texts, text.length ≤ maxTextLength)
    (lacks_eq : ∀ text, text ∉ texts → e'.lacks text = e.lacks text) : Takes e n texts (.ok (a, e'))
  | tooLong {text : Bytes} (mem : text ∈ texts) (long : maxTextLength < text.length) :
    Takes e n texts (.error (.nameTooLong text.length))
  | noRoom {slots : Nat} (lacking : n ≠ 0) (full : maxSlots < e.size + n) :
    Takes e n texts (.error (.constantPoolOverflow slots))

/-- What is asked for in two steps adds up. -/
theorem Takes.bind {x : Except ClassFileError (α × PoolExtension)}
    {f : α × PoolExtension → Except ClassFileError (β × PoolExtension)} (hx : e.Takes n texts x)
    (hf : ∀ a e₁, x = .ok (a, e₁) → e₁.Takes m texts' (f (a, e₁))) :
    e.Takes (n + m) (texts ++ texts') (x >>= f) := by
  cases hx with
  | tooLong hmem hlong => exact .tooLong (List.mem_append_left _ hmem) hlong
  | noRoom hlacking hfull => exact .noRoom (by omega) (by omega)
  | @added a e₁ hpool hsize hroom hshort htexts hlacks =>
    have hrest := hf a e₁ rfl
    change e.Takes (n + m) (texts ++ texts') (f (a, e₁))
    generalize f (a, e₁) = y at hrest
    cases hrest with
    | tooLong hmem hlong => exact .tooLong (List.mem_append_right _ hmem) hlong
    | noRoom hlacking hfull => exact .noRoom (by omega) (by omega)
    | @added b e₂ hpool' hsize' hroom' hshort' htexts' hlacks' =>
      refine .added (hpool'.trans hpool) (by omega) (by omega) hshort' ?_ fun text htext => ?_
      · exact List.forall_mem_append.2 ⟨htexts, htexts'⟩
      · rw [List.mem_append, not_or] at htext
        rw [hlacks' text htext.2, hlacks text htext.1]

/-- What is made of the answer makes no difference. -/
theorem Takes.map {x : Except ClassFileError (α × PoolExtension)} (hx : e.Takes n texts x)
    (g : α → β) : e.Takes n texts (x >>= fun r => pure (g r.1, r.2)) := by
  cases hx with
  | added hpool hsize hroom hshort htexts hlacks =>
    exact .added hpool hsize hroom hshort htexts hlacks
  | tooLong hmem hlong => exact .tooLong hmem hlong
  | noRoom hlacking hfull => exact .noRoom hlacking hfull

/-- Asking succeeds exactly if no text is too long and there is room for what is lacking. -/
theorem Takes.isOk_iff {x : Except ClassFileError (α × PoolExtension)} (h : e.Takes n texts x) :
    (∃ a e', x = .ok (a, e')) ↔ (∀ text ∈ texts, text.length ≤ maxTextLength)
      ∧ (n = 0 ∨ e.size + n ≤ maxSlots) := by
  cases h with
  | added hpool hsize hroom hshort htexts hlacks =>
    rw [hsize] at hroom
    exact ⟨fun _ => ⟨htexts, hroom⟩, fun _ => ⟨_, _, rfl⟩⟩
  | tooLong hmem hlong =>
    constructor
    · rintro ⟨_, _, h⟩
      cases h
    · rintro ⟨hshort, _⟩
      have := hshort _ hmem
      omega
  | noRoom hlacking hfull =>
    constructor
    · rintro ⟨_, _, h⟩
      cases h
    · rintro ⟨_, hroom⟩
      omega

theorem Takes.of_ok {a : α} (h : e.Takes n texts (.ok (a, e'))) :
    e'.pool = e.pool ∧ e'.size = e.size + n := by
  cases h with
  | added hpool hsize => exact ⟨hpool, hsize⟩

/-! ## Steps -/

theorem lacks_of_add {k : Constant} {index : UInt16} (h : e.add k = .ok (index, e'))
    (text : Bytes) : e'.lacks text = (e.lacks text && !ConstantPool.isUtf8 text k) := by
  obtain ⟨_, hpool, hadded, _⟩ := add_eq_ok h
  have hnone : (e'.findAdded? text).isNone
      = ((e.findAdded? text).isNone && !ConstantPool.isUtf8 text k) := by
    rw [Bool.eq_iff_iff, Bool.and_eq_true, isNone_findAdded?, isNone_findAdded?, hadded,
      Bool.not_eq_true']
    simp only [Array.mem_push]
    constructor
    · intro hall
      exact ⟨fun k' hk' => hall k' (.inl hk'), hall k (.inr rfl)⟩
    · rintro ⟨hall, hk⟩ k' (hk' | rfl)
      · exact hall k' hk'
      · exact hk
  rw [lacks, lacks, hpool, hnone, Bool.and_assoc]

/-- A new constant takes one slot. -/
theorem add_takes (he : e.Short) {k : Constant} (htexts : ∀ text, k = .utf8 text → text ∈ texts)
    (hlong : ∀ text ∈ texts, text.length ≤ maxTextLength) : e.Takes 1 texts (e.add k) := by
  by_cases hroom : e.size < maxSlots
  · cases hadd : e.add k with
    | error cause =>
      rw [add, if_pos hroom] at hadd
      cases hadd
    | ok result =>
      obtain ⟨index, e'⟩ := result
      obtain ⟨_, hpool, _, hsize⟩ := add_eq_ok hadd
      have hlacks := lacks_of_add hadd
      have hother : ∀ text, text ∉ texts → ConstantPool.isUtf8 text k = false := by
        intro text htext
        rw [Bool.eq_false_iff, Ne, ConstantPool.isUtf8_iff]
        exact fun hk => htext (htexts text hk)
      refine .added hpool hsize (.inr (by omega)) (fun text hknown => ?_) hlong fun text htext => ?_
      · by_cases hmem : text ∈ texts
        · exact hlong text hmem
        · rw [hlacks, hother text hmem, Bool.not_false, Bool.and_true] at hknown
          exact he text hknown
      · rw [hlacks, hother text htext, Bool.not_false, Bool.and_true]
  · rw [add, if_neg hroom]
    exact .noRoom (by omega) (by omega)

theorem takes_nothing (he : e.Short) (a : α)
    (htexts : ∀ text ∈ texts, text.length ≤ maxTextLength) : e.Takes 0 texts (.ok (a, e)) :=
  .added rfl rfl (.inl rfl) he htexts fun _ _ => rfl

/-- A text takes a slot if it is lacking. -/
theorem addUtf8_takes (he : e.Short) (text : Bytes) :
    e.Takes (if e.lacks text then 1 else 0) [text] (e.addUtf8 text) := by
  have hknown : e.lacks text = false → ∀ t ∈ [text], t.length ≤ maxTextLength := by
    intro h
    rw [List.forall_mem_singleton]
    exact he text h
  unfold addUtf8
  cases hfind : e.pool.findUtf8? text with
  | some index =>
    have hlacks : e.lacks text = false := by simp [lacks, ConstantPool.lacksText, hfind]
    rw [if_neg (by simp [hlacks])]
    exact takes_nothing he index (hknown hlacks)
  | none =>
    dsimp only
    cases hadded : e.findAdded? text with
    | some index =>
      have hlacks : e.lacks text = false := by simp [lacks, hadded]
      rw [if_neg (by simp [hlacks])]
      exact takes_nothing he index (hknown hlacks)
    | none =>
      have hlacks : e.lacks text = true := by simp [lacks, ConstantPool.lacksText, hfind, hadded]
      dsimp only
      rw [if_pos hlacks]
      by_cases hlen : text.length ≤ maxTextLength
      · rw [if_pos hlen]
        refine add_takes he (fun t ht => ?_) (List.forall_mem_singleton.2 hlen)
        obtain rfl := Constant.utf8.inj ht
        exact List.mem_singleton_self _
      · rw [if_neg hlen]
        exact .tooLong (List.mem_singleton_self text) (by omega)

/-- A text that was asked for is there. -/
theorem lacks_of_addUtf8 {index : UInt16} (h : e.addUtf8 text = .ok (index, e')) :
    e'.lacks text = false := by
  rcases addUtf8_cases h with ⟨hfind, rfl⟩ | ⟨_, hadded, rfl⟩ | ⟨_, _, _, hadd⟩
  · simp [lacks, ConstantPool.lacksText, hfind]
  · simp [lacks, hadded]
  · rw [lacks_of_add hadd, ConstantPool.isUtf8_iff.2 rfl, Bool.not_true, Bool.and_false]

/-- How many slots the classes with these names take. -/
def shortage (e : PoolExtension) (names : List Bytes) : Nat :=
  names.countP e.pool.lacksClass
    + names.countP fun name => e.pool.lacksClass name && e.lacks name

/-- A class takes a slot for its reference, and one for its name if this is lacking too. -/
theorem addClass_takes (he : e.Short) (name : Bytes)
    (hclass : e.pool.lacksClass name = false → e.lacks name = false) :
    e.Takes (e.shortage [name]) [name] (e.addClass name) := by
  unfold addClass
  cases hfind : e.pool.findClass? name with
  | some index =>
    have hlacks : e.pool.lacksClass name = false := by rw [ConstantPool.lacksClass, hfind]; rfl
    have hshortage : e.shortage [name] = 0 := by simp [shortage, hlacks]
    rw [hshortage]
    exact takes_nothing he index (List.forall_mem_singleton.2 (he name (hclass hlacks)))
  | none =>
    have hlacks : e.pool.lacksClass name = true := by rw [ConstantPool.lacksClass, hfind]; rfl
    have hshortage : e.shortage [name] = (if e.lacks name then 1 else 0) + 1 := by
      rw [shortage, List.countP_singleton, List.countP_singleton, hlacks, Bool.true_and]
      simp [Nat.add_comm]
    rw [hshortage]
    have htext := addUtf8_takes he name
    change e.Takes _ ([name] ++ []) _
    refine htext.bind fun index e₁ hname => ?_
    rw [hname] at htext
    cases htext with
    | added _ _ _ hshort =>
      exact add_takes hshort (fun text heq => by cases heq) (List.forall_mem_nil _)

/-- The classes take the slots that are lacking at the start. -/
theorem addClasses_takes (he : e.Short) {names : List Bytes} (hnodup : names.Nodup)
    (hclasses : ∀ name, e.pool.lacksClass name = false → e.pool.lacksText name = false) :
    e.Takes (e.shortage names) names (e.addClasses names) := by
  induction names generalizing e with
  | nil => exact takes_nothing he [] (List.forall_mem_nil _)
  | cons name names ih =>
    obtain ⟨hname, hnodup⟩ := List.nodup_cons.1 hnodup
    have hfirst := addClass_takes he name fun h => by rw [lacks, hclasses name h, Bool.false_and]
    have hsplit : e.shortage (name :: names) = e.shortage [name] + e.shortage names := by
      simp only [shortage, List.countP_cons, List.countP_nil]
      omega
    rw [hsplit]
    change e.Takes _ ([name] ++ names) _
    refine hfirst.bind fun index e₁ hadd => ?_
    rw [hadd] at hfirst
    cases hfirst with
    | added hpool _ _ hshort _ hlacks =>
      -- the text that may have been added is none of the other names
      have hother : ∀ other ∈ names, e₁.lacks other = e.lacks other := by
        intro other hmem
        refine hlacks other fun heq => hname ?_
        rwa [← List.mem_singleton.1 heq]
      have hsame : e₁.shortage names = e.shortage names := by
        rw [shortage, shortage, hpool]
        congr 1
        refine List.countP_congr fun other hmem => ?_
        rw [hother other hmem]
      have hrest := ih hshort hnodup (hpool ▸ hclasses)
      rw [hsame] at hrest
      exact hrest.map (index :: ·)

end LinkSet.PoolExtension
