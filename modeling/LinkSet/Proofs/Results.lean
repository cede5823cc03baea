import Mathlib.Data.List.Forall2

/-!
# Steps that may fail

What is known of the steps when a computation has succeeded: every step has succeeded
(`bind_eq_ok`), and one that is taken for each item of a list has succeeded for each (`mapM_iff`).
-/

namespace LinkSet.Result

variable {ε ε' α β : Type}

theorem bind_eq_ok {x : Except ε α} {f : α → Except ε β} {b : β} :
    (x >>= f) = .ok b ↔ ∃ a, x = .ok a ∧ f a = .ok b := by
  cases x with
  | error e => simp [bind, Except.bind]
  | ok a => simp [bind, Except.bind]

theorem bind_eq_error {x : Except ε α} {f : α → Except ε β} {e : ε} :
    (x >>= f) = .error e ↔ x = .error e ∨ ∃ a, x = .ok a ∧ f a = .error e := by
  cases x with
  | error e => simp [bind, Except.bind]
  | ok a => simp [bind, Except.bind]

theorem pure_eq_ok {a b : α} : (pure a : Except ε α) = .ok b ↔ a = b := by
  simp [pure, Except.pure]

theorem toOption_eq_some {x : Except ε α} {a : α} : x.toOption = some a ↔ x = .ok a := by
  cases x with
  | error e => simp [Except.toOption]
  | ok b => simp [Except.toOption]

theorem mapError_eq_ok {f : ε → ε'} {x : Except ε α} {a : α} :
    x.mapError f = .ok a ↔ x = .ok a := by
  cases x with
  | error e => simp [Except.mapError]
  | ok b => simp [Except.mapError]

theorem ite_eq_ok {c : Prop} [Decidable c] {x y : Except ε α} {a : α} {e : ε} (hy : y = .error e) :
    (if c then x else y) = .ok a ↔ c ∧ x = .ok a := by
  by_cases h : c
  · simp [h]
  · simp [h, hy]

/-- If values of sequences are sequences of values, so are those of a step for each item of a list.
This is stated for any notion of value, because steps are taken in more than one monad. -/
theorem mapM_iff {m : Type → Type} [Monad m] [LawfulMonad m] {Y : {α : Type} → m α → α → Prop}
    (hpure : ∀ {α} {a b : α}, Y (pure a) b ↔ a = b)
    (hbind : ∀ {α β} {x : m α} {f : α → m β} {b}, Y (x >>= f) b ↔ ∃ a, Y x a ∧ Y (f a) b)
    {f : α → m β} {xs : List α} {ys : List β} :
    Y (xs.mapM f) ys ↔ List.Forall₂ (fun x y => Y (f x) y) xs ys := by
  induction xs generalizing ys with
  | nil =>
    rw [List.mapM_nil, hpure, List.forall₂_nil_left_iff]
    exact eq_comm
  | cons x xs ih =>
    simp only [List.mapM_cons, hbind, hpure, ih]
    constructor
    · rintro ⟨y, hy, ys, hys, rfl⟩
      exact .cons hy hys
    · intro h
      obtain ⟨y, ys, hy, hys, rfl⟩ := List.forall₂_cons_left_iff.1 h
      exact ⟨y, hy, ys, hys, rfl⟩

theorem mapM_eq_ok {f : α → Except ε β} {xs : List α} {ys : List β} :
    xs.mapM f = .ok ys ↔ List.Forall₂ (fun x y => f x = .ok y) xs ys :=
  mapM_iff (Y := fun x a => x = Except.ok a) pure_eq_ok bind_eq_ok

/-- What is known of all items is known of those at one place. -/
theorem forall₂_getElem? {R : α → β → Prop} {xs : List α} {ys : List β} (h : List.Forall₂ R xs ys)
    {i : Nat} {x : α} (hx : xs[i]? = some x) : ∃ y, ys[i]? = some y ∧ R x y := by
  induction h generalizing i with
  | nil => cases hx
  | @cons _ b _ _ hr _ ih =>
    cases i with
    | zero =>
      obtain rfl := Option.some.inj hx
      exact ⟨b, rfl, hr⟩
    | succ i => exact ih hx

theorem forall₂_mem {R : α → β → Prop} {xs : List α} {ys : List β} (h : List.Forall₂ R xs ys)
    {x : α} (hx : x ∈ xs) : ∃ y ∈ ys, R x y := by
  obtain ⟨i, hi⟩ := List.mem_iff_getElem?.1 hx
  obtain ⟨y, hy, hr⟩ := forall₂_getElem? h hi
  exact ⟨y, List.mem_of_getElem? hy, hr⟩

/-- Every item has a partner exactly if there is a list of partners. -/
theorem exists_forall₂_iff {R : α → β → Prop} {xs : List α} :
    (∃ ys, List.Forall₂ R xs ys) ↔ ∀ x ∈ xs, ∃ y, R x y := by
  induction xs with
  | nil => exact ⟨fun _ x hx => (nomatch hx), fun _ => ⟨[], .nil⟩⟩
  | cons x xs ih =>
    rw [List.forall_mem_cons, ← ih]
    constructor
    · rintro ⟨_, hxs⟩
      obtain ⟨y, ys, hy, hys, _⟩ := List.forall₂_cons_left_iff.1 hxs
      exact ⟨⟨y, hy⟩, ys, hys⟩
    · rintro ⟨⟨y, hy⟩, ys, hys⟩
      exact ⟨y :: ys, .cons hy hys⟩

end LinkSet.Result
