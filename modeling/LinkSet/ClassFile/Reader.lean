import LinkSet.Bytes
import LinkSet.ClassFile.Error

/-!
# Readers

A reader takes bytes from a cursor and moves it forward. A piece of several bytes is taken as a
whole or not at all, so a reader that runs out of bytes reports where the piece starts and how long
it is.

Main statements: taking a piece succeeds exactly if it is there (`take_eq`), and a loop of readers
unfolds from the front (`iterate_succ`).
-/

namespace LinkSet

/-- A place in a sequence of bytes. -/
structure Cursor where
  /-- How many bytes lie behind. -/
  offset : Nat
  /-- The bytes ahead. -/
  rest : Bytes
deriving DecidableEq, Repr

/-- A cursor in front of the bytes. -/
def Cursor.start (bytes : Bytes) : Cursor := ⟨0, bytes⟩

/-- The cursor `n` bytes further on. -/
def Cursor.advance (c : Cursor) (n : Nat) : Cursor := ⟨c.offset + n, c.rest.drop n⟩

/-- A step that reads a value, or finds a fault. -/
abbrev Reader := StateT Cursor (Except ClassFileError)

namespace Reader

/-- The number of bytes behind the cursor. -/
def position : Reader Nat := fun c => .ok (c.offset, c)

/-- Takes the next `n` bytes. -/
def take (n : Nat) : Reader Bytes := fun c =>
  if c.rest.hasAtLeast n then .ok (c.rest.take n, c.advance n)
  else .error (.truncated c.offset n)

/-- Moves over the next `n` bytes. -/
def skip (n : Nat) : Reader Unit := fun c =>
  if c.rest.hasAtLeast n then .ok ((), c.advance n)
  else .error (.truncated c.offset n)

/-- Reads one byte. -/
def u8 : Reader UInt8 := fun c =>
  match c.rest with
  | b :: rest => .ok (b, ⟨c.offset + 1, rest⟩)
  | _ => .error (.truncated c.offset 1)

/-- Reads a 16-bit number. -/
def u16 : Reader UInt16 := fun c =>
  match c.rest with
  | b₁ :: b₀ :: rest => .ok (Bytes.toUInt16 b₁ b₀, ⟨c.offset + 2, rest⟩)
  | _ => .error (.truncated c.offset 2)

/-- Reads a 32-bit number. -/
def u32 : Reader UInt32 := fun c =>
  match c.rest with
  | b₃ :: b₂ :: b₁ :: b₀ :: rest => .ok (Bytes.toUInt32 b₃ b₂ b₁ b₀, ⟨c.offset + 4, rest⟩)
  | _ => .error (.truncated c.offset 4)

/-- Runs `step` the given number of times, each time on the result of the time before. -/
@[specialize] def iterate {σ : Type} (step : σ → Reader σ) : Nat → σ → Reader σ
  | 0, s => pure s
  | n + 1, s => do iterate step n (← step s)

/-- Reads the given number of values. -/
@[specialize] def collect {α : Type} (item : Reader α) (n : Nat) : Reader (List α) := do
  let reversed ← iterate (fun done => do return (← item) :: done) n []
  return reversed.reverse

/-- The value read from `bytes` alone. -/
def run {α : Type} (reader : Reader α) (bytes : Bytes) : Except ClassFileError α :=
  StateT.run' reader (Cursor.start bytes)

theorem take_eq (n : Nat) (c : Cursor) :
    take n c = if n ≤ c.rest.length then .ok (c.rest.take n, c.advance n)
      else .error (.truncated c.offset n) := by
  simp [take]

theorem skip_eq (n : Nat) (c : Cursor) :
    skip n c = if n ≤ c.rest.length then .ok ((), c.advance n)
      else .error (.truncated c.offset n) := by
  simp [skip]

@[simp] theorem iterate_zero {σ : Type} (step : σ → Reader σ) (s : σ) :
    iterate step 0 s = pure s := rfl

theorem iterate_succ {σ : Type} (step : σ → Reader σ) (n : Nat) (s : σ) :
    iterate step (n + 1) s = step s >>= iterate step n := rfl

end Reader

end LinkSet
