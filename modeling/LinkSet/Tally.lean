import LinkSet.Diagnostics

/-!
# Tallies

How many types were looked at, and what became of them. Tallies of parts add up to the tally of the
whole, in whatever order they are added (`add_comm`, `add_assoc`).
-/

namespace LinkSet

/-- Counts of types. -/
structure Tally where
  /-- All types. -/
  total : Nat := 0
  /-- Types without subtypes. -/
  withoutSubtypes : Nat := 0
  /-- Types that became final. -/
  madeFinal : Nat := 0
  /-- Types with subtypes. -/
  withSubtypes : Nat := 0
  /-- Types with subtypes that were not sealed before. -/
  notYetSealed : Nat := 0
  /-- Types that became sealed. -/
  madeSealed : Nat := 0
deriving DecidableEq, Repr

namespace Tally

/-- The sum, count by count. -/
def add (s t : Tally) : Tally where
  total := s.total + t.total
  withoutSubtypes := s.withoutSubtypes + t.withoutSubtypes
  madeFinal := s.madeFinal + t.madeFinal
  withSubtypes := s.withSubtypes + t.withSubtypes
  notYetSealed := s.notYetSealed + t.notYetSealed
  madeSealed := s.madeSealed + t.madeSealed

/-- A part without types adds nothing. -/
theorem add_empty (t : Tally) : t.add {} = t := rfl

theorem empty_add (t : Tally) : add {} t = t := by
  simp [add]

theorem add_comm (s t : Tally) : s.add t = t.add s := by
  simp [add, Nat.add_comm]

theorem add_assoc (r s t : Tally) : (r.add s).add t = r.add (s.add t) := by
  simp [add, Nat.add_assoc]

/-- The counts with their labels, in the order of reports. -/
def lines (t : Tally) : List (String × Nat) :=
  [("#Classes/interfaces found", t.total),
    ("#Classes without subclasses", t.withoutSubtypes),
    ("#Classes not already final", t.madeFinal),
    ("#Classes/interfaces with subclasses", t.withSubtypes),
    ("#Classes/interfaces not already sealed", t.notYetSealed),
    ("#Classes/interfaces with only local subclasses", t.madeSealed)]

/-- A label with its count. -/
def lineText (line : String × Nat) : String := line.1 ++ ": " ++ line.2.repr

/-- The counts, one to a line. -/
def summary (t : Tally) : String :=
  String.join (t.lines.map fun line => lineText line ++ "\n")

/-- Remarks on the counts, one by one. -/
def report (t : Tally) (level : Level) : Remarked Unit where
  value := ()
  events := t.lines.flatMap fun line => (level.remark .info (lineText line)).events

end Tally

end LinkSet
