import LinkSet.Proofs.PoolGrowth
import Mathlib.Data.Finset.Card

/-!
# The room that constants take

An extension adds a text only if the pool lacks it, and a class only if the pool lacks that. So a
pool grows by no more than what it lacks (`PoolExtension.grows_addUtf8`,
`PoolExtension.grows_addClasses`), and whatever has been added is there the next time it is asked
for.

`ConstantPool.lacking` counts what a pool lacks of a listing of some names. It is the potential that
pays for growth over many changes: each constant that is added was lacking before and is not lacking
afterwards.
-/

namespace LinkSet

/-! ## What a pool lacks -/

namespace ConstantPool

variable {small large pool : ConstantPool} {text : Bytes}

/-- The pool has no constant with this text. -/
def lacksText (pool : ConstantPool) (text : Bytes) : Bool := (pool.findUtf8? text).isNone

/-- The pool has no reference to a class with this name. -/
def lacksClass (pool : ConstantPool) (name : Bytes) : Bool := (pool.findClass? name).isNone

/-- A constant is found if it is in a slot whose index has at most 16 bits. -/
theorem isSome_find? {test : Constant → Bool} {index : UInt16} {k : Constant}
    (hslot : pool.slot? index.toNat = some k) (htest : test k = true) :
    (pool.find? test).isSome = true := by
  have hindex : index.toNat < 0x10000 := index.toNat_lt
  obtain ⟨hlt, hk⟩ := Array.getElem?_eq_some_iff.1 hslot
  unfold find?
  cases hi : pool.slots.findIdx? test with
  | none =>
    have hnone := Array.findIdx?_eq_none_iff.1 hi k (hk ▸ Array.getElem_mem hlt)
    exact absurd (htest.symm.trans hnone) Bool.noConfusion
  | some i =>
    obtain ⟨_, _, hfirst⟩ := Array.findIdx?_eq_some_iff_getElem.1 hi
    have hle : i ≤ index.toNat := by
      by_contra hgt
      have hno := hfirst index.toNat (by omega)
      rw [hk, htest] at hno
      exact hno rfl
    have hsmall : i < 0x10000 := by omega
    simp only [if_pos hsmall, Option.isSome_some]

theorem lacksText_eq_false_iff :
    pool.lacksText text = false ↔ ∃ index : UInt16, pool.slot? index.toNat = some (.utf8 text) := by
  rw [lacksText, Option.isNone_eq_false_iff]
  constructor
  · intro h
    obtain ⟨index, hindex⟩ := Option.isSome_iff_exists.1 h
    exact ⟨index, findUtf8?_eq_some hindex⟩
  · rintro ⟨index, hslot⟩
    exact isSome_find? hslot (isUtf8_iff.2 rfl)

theorem lacksClass_eq_false_iff :
    pool.lacksClass text = false ↔ ∃ index, pool.Refers index text := by
  rw [lacksClass, Option.isNone_eq_false_iff]
  constructor
  · intro h
    obtain ⟨index, hindex⟩ := Option.isSome_iff_exists.1 h
    exact ⟨index, findClass?_eq_some hindex⟩
  · rintro ⟨index, nameIndex, hslot, htext⟩
    exact isSome_find? hslot (isClassNamed_iff.2 ⟨nameIndex, rfl, htext⟩)

theorem GrowsTo.lacksText (h : small.GrowsTo large) (hs : small.lacksText text = false) :
    large.lacksText text = false := by
  obtain ⟨index, hslot⟩ := lacksText_eq_false_iff.1 hs
  exact lacksText_eq_false_iff.2 ⟨index, h _ _ hslot⟩

theorem GrowsTo.lacksClass (h : small.GrowsTo large) (hs : small.lacksClass text = false) :
    large.lacksClass text = false := by
  obtain ⟨index, hrefers⟩ := lacksClass_eq_false_iff.1 hs
  exact lacksClass_eq_false_iff.2 ⟨index, hrefers.grow h⟩

end ConstantPool

/-! ## What an extension adds -/

namespace PoolExtension

variable {e e₁ e' : PoolExtension} {m n : Nat}

/-- The second extension has come from the first by at most `n` more constants, and if there are any,
all indexes still fit in 16 bits. -/
structure GrowsBy (e e' : PoolExtension) (n : Nat) : Prop where
  pool_eq : e'.pool = e.pool
  le_size : e.size ≤ e'.size
  size_le : e'.size ≤ e.size + n
  room : e' = e ∨ e'.size ≤ maxSlots

theorem GrowsBy.refl (e : PoolExtension) (n : Nat) : e.GrowsBy e n :=
  ⟨rfl, Nat.le_refl _, Nat.le_add_right _ _, .inl rfl⟩

theorem GrowsBy.trans (h₁ : e.GrowsBy e₁ m) (h₂ : e₁.GrowsBy e' n) : e.GrowsBy e' (m + n) := by
  have hsize₁ := h₁.size_le
  have hsize₂ := h₂.size_le
  refine ⟨h₂.pool_eq.trans h₁.pool_eq, h₁.le_size.trans h₂.le_size, by omega, ?_⟩
  rcases h₂.room with rfl | hroom
  · exact h₁.room
  · exact .inr hroom

theorem GrowsBy.mono (h : e.GrowsBy e' m) (hmn : m ≤ n) : e.GrowsBy e' n := by
  have hsize := h.size_le
  exact ⟨h.pool_eq, h.le_size, by omega, h.room⟩

theorem grows_add {k : Constant} {index : UInt16} (h : e.add k = .ok (index, e')) :
    e.GrowsBy e' 1 := by
  obtain ⟨_, hpool, _, hsize⟩ := add_eq_ok h
  have hlt : e.size < maxSlots := by
    unfold add at h
    exact ((Result.ite_eq_ok rfl).1 h).1
  exact ⟨hpool, by omega, by omega, .inr (by omega)⟩

/-- A text takes a slot only if the pool lacks it. -/
theorem grows_addUtf8 {text : Bytes} {index : UInt16} (h : e.addUtf8 text = .ok (index, e')) :
    e.GrowsBy e' (if e.pool.lacksText text then 1 else 0) := by
  rcases addUtf8_cases h with ⟨_, rfl⟩ | ⟨_, _, rfl⟩ | ⟨hfind, _, _, hadd⟩
  · exact .refl _ _
  · exact .refl _ _
  · have hlacks : e.pool.lacksText text = true := by rw [ConstantPool.lacksText, hfind]; rfl
    rw [if_pos hlacks]
    exact grows_add hadd

/-- A class takes a slot for its reference, and maybe one for its name, only if the pool lacks it. -/
theorem grows_addClass {name : Bytes} {index : UInt16} (h : e.addClass name = .ok (index, e')) :
    e.GrowsBy e' (if e.pool.lacksClass name then 2 else 0) := by
  rcases addClass_cases h with ⟨_, rfl⟩ | ⟨hfind, _, _, hname, hadd⟩
  · exact .refl _ _
  · have hlacks : e.pool.lacksClass name = true := by rw [ConstantPool.lacksClass, hfind]; rfl
    rw [if_pos hlacks]
    have hone : (if e.pool.lacksText name then 1 else 0) ≤ 1 := by split <;> omega
    exact ((grows_addUtf8 hname).mono hone).trans (grows_add hadd)

theorem grows_addClasses {names : List Bytes} {indexes : List UInt16}
    (h : e.addClasses names = .ok (indexes, e')) :
    e.GrowsBy e' (2 * names.countP e.pool.lacksClass) := by
  induction names generalizing e indexes with
  | nil =>
    obtain ⟨_, rfl⟩ := addClasses_nil h
    exact .refl _ _
  | cons name names ih =>
    obtain ⟨index, rest, e₁, hname, hnames, _⟩ := addClasses_cons h
    have hfirst := grows_addClass hname
    have hrest := ih hnames
    rw [hfirst.pool_eq] at hrest
    refine (hfirst.trans hrest).mono ?_
    rw [List.countP_cons]
    split <;> omega

end PoolExtension

/-! ## A potential -/

namespace ConstantPool

variable {small large pool : ConstantPool} {names : Finset String}

/-- The names whose classes the pool lacks. -/
def lackingNames (pool : ConstantPool) (names : Finset String) : Finset String :=
  names.filter fun n => pool.lacksClass (ModifiedUtf8.encode n)

/-- At most how many constants the pool lacks of a listing of some of these names: the name of the
attribute, and two for each class. -/
def lacking (pool : ConstantPool) (listing : Bytes) (names : Finset String) : Nat :=
  (if pool.lacksText listing then 1 else 0) + 2 * (pool.lackingNames names).card

theorem lacking_le (pool : ConstantPool) (listing : Bytes) (names : Finset String) :
    pool.lacking listing names ≤ 1 + 2 * names.card := by
  have hnames : (pool.lackingNames names).card ≤ names.card := Finset.card_filter_le _ _
  have hone : (if pool.lacksText listing then 1 else 0) ≤ 1 := by split <;> omega
  unfold lacking
  omega

theorem GrowsTo.lackingNames_subset (h : small.GrowsTo large) :
    large.lackingNames names ⊆ small.lackingNames names := by
  intro n hn
  obtain ⟨hmem, hlarge⟩ := Finset.mem_filter.1 hn
  refine Finset.mem_filter.2 ⟨hmem, ?_⟩
  by_contra hsmall
  rw [h.lacksClass (Bool.eq_false_of_not_eq_true hsmall)] at hlarge
  cases hlarge

/-- A pool that has come to have the attribute's name and some of the classes lacks less than before,
by as many as were lacking of these. -/
theorem GrowsTo.lacking_add_le (h : small.GrowsTo large) {listing : Bytes} {listed : List String}
    (hnodup : listed.Nodup) (hlisted : ∀ n ∈ listed, n ∈ names)
    (htext : large.lacksText listing = false)
    (hclasses : ∀ n ∈ listed, large.lacksClass (ModifiedUtf8.encode n) = false) :
    large.lacking listing names + ((if small.lacksText listing then 1 else 0)
        + 2 * (listed.map ModifiedUtf8.encode).countP small.lacksClass)
      ≤ small.lacking listing names := by
  -- the names that were lacking are lacking no more, so the two sets below are disjoint
  let added : List String := listed.filter fun n => small.lacksClass (ModifiedUtf8.encode n)
  have hcount : (listed.map ModifiedUtf8.encode).countP small.lacksClass = added.toFinset.card := by
    rw [List.countP_map, List.countP_eq_length_filter]
    exact (List.toFinset_card_of_nodup (hnodup.filter _)).symm
  have hsub : added.toFinset ⊆ small.lackingNames names := by
    intro n hn
    obtain ⟨hmem, hlacks⟩ := List.mem_filter.1 (List.mem_toFinset.1 hn)
    exact Finset.mem_filter.2 ⟨hlisted n hmem, hlacks⟩
  have hdisjoint : Disjoint (large.lackingNames names) added.toFinset := by
    refine Finset.disjoint_left.2 fun n hn hadded => ?_
    have hmem := (List.mem_filter.1 (List.mem_toFinset.1 hadded)).1
    have hlacks := (Finset.mem_filter.1 hn).2
    rw [hclasses n hmem] at hlacks
    cases hlacks
  have hcard : (large.lackingNames names).card + added.toFinset.card
      ≤ (small.lackingNames names).card := by
    rw [← Finset.card_union_of_disjoint hdisjoint]
    exact Finset.card_le_card (Finset.union_subset h.lackingNames_subset hsub)
  unfold lacking
  rw [hcount, htext]
  simp only [Bool.false_eq_true, if_false]
  omega

end ConstantPool

end LinkSet
