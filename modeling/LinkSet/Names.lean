import Std.Data.ExtTreeMap
import Std.Data.ExtTreeSet

/-!
# Sets of names

Names are ordered by code point, which is also the order of their UTF-8 bytes. A set of names knows
nothing of the order in which it came about: two sets with the same members are equal. The same holds
for a multimap, which keeps a set of names under each of its keys.

Main statement: a multimap built from pairs holds exactly these pairs (`contains_ofPairs`).
-/

namespace LinkSet

/-- A set of names, listed in increasing order. -/
abbrev NameSet := Std.ExtTreeSet String

/-- The set of the given names. -/
def NameSet.ofList (names : List String) : NameSet := Std.ExtTreeSet.ofList names

theorem NameSet.mem_ofList {names : List String} {name : String} :
    name ∈ NameSet.ofList names ↔ name ∈ names := by
  rw [NameSet.ofList, Std.ExtTreeSet.mem_ofList, List.contains_iff_mem]

/-- A mapping from a name to the set of names registered under it. -/
structure NameMultimap where
  /-- The set of each key under which something is registered. -/
  sets : Std.ExtTreeMap String NameSet

namespace NameMultimap

/-- The multimap in which nothing is registered. -/
def empty : NameMultimap := ⟨∅⟩

/-- The names registered under `key`, if there are any. -/
def get? (m : NameMultimap) (key : String) : Option NameSet := m.sets[key]?

/-- Whether `value` is registered under `key`. -/
def contains (m : NameMultimap) (key value : String) : Bool :=
  match m.get? key with
  | some values => values.contains value
  | none => false

/-- Whether each of `values` is registered under `key`. -/
def containsAll (m : NameMultimap) (key : String) (values : List String) : Bool :=
  values.all (m.contains key)

/-- The multimap in which `value` is registered under `key` too. -/
def add (m : NameMultimap) (key value : String) : NameMultimap :=
  match m.get? key with
  | some values => ⟨m.sets.insert key (values.insert value)⟩
  | none => ⟨m.sets.insert key ((∅ : NameSet).insert value)⟩

/-- Registers `value` under `key`, and says whether it was not registered there before. -/
def insert (m : NameMultimap) (key value : String) : Bool × NameMultimap :=
  (!m.contains key value, m.add key value)

/-- The multimap of the given pairs of key and value. -/
def ofPairs (pairs : List (String × String)) : NameMultimap :=
  pairs.foldl (fun m pair => m.add pair.1 pair.2) empty

/-! ## What is registered -/

theorem compare_beq_eq (a b : String) : (compare a b == .eq) = (a == b) := by
  rw [Bool.eq_iff_iff]
  simp

/-- What is registered after one more registration. -/
theorem contains_add (m : NameMultimap) (key value k v : String) :
    (m.add key value).contains k v = ((key == k && value == v) || m.contains k v) := by
  unfold add contains get?
  cases h : m.sets[key]? with
  | some values =>
    by_cases hk : key = k
    · subst hk
      simp [h, Std.ExtTreeSet.contains_insert, compare_beq_eq]
    · simp [Std.ExtTreeMap.getElem?_insert, hk]
  | none =>
    by_cases hk : key = k
    · subst hk
      simp [h, Std.ExtTreeSet.contains_insert, compare_beq_eq]
    · simp [Std.ExtTreeMap.getElem?_insert, hk]

@[simp] theorem contains_empty (k v : String) : empty.contains k v = false := by
  simp [contains, get?, empty]

/-- A multimap of pairs holds exactly these pairs. -/
theorem contains_ofPairs (pairs : List (String × String)) (k v : String) :
    (ofPairs pairs).contains k v = true ↔ (k, v) ∈ pairs := by
  suffices h : ∀ m : NameMultimap,
      (pairs.foldl (fun m pair => m.add pair.1 pair.2) m).contains k v = true
        ↔ m.contains k v = true ∨ (k, v) ∈ pairs by
    simpa [ofPairs] using h empty
  induction pairs with
  | nil => simp
  | cons pair pairs ih =>
    intro m
    rw [List.foldl_cons, ih, contains_add]
    simp only [Bool.or_eq_true, Bool.and_eq_true, beq_iff_eq, List.mem_cons, Prod.ext_iff]
    grind

end NameMultimap

end LinkSet
