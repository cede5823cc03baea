import LinkSet.Names

/-!
# Decisions

What is to become of one type of a link set.
-/

namespace LinkSet

/-- What is to become of a type. -/
inductive Decision
  /-- It stays as it is. -/
  | keep
  /-- It may not be extended any more. -/
  | markFinal
  /-- It may be extended by the given types only. -/
  | sealTo (subtypes : NameSet)

namespace Decision

/-- Whether the decision leaves the type as it is. -/
def isKeep : Decision → Bool
  | .keep => true
  | _ => false

theorem isKeep_iff {decision : Decision} : decision.isKeep = true ↔ decision = .keep := by
  cases decision <;> simp [isKeep]

/-- The types that a decision seals to. -/
def subtypes? : Decision → Option NameSet
  | .sealTo subtypes => some subtypes
  | _ => none

theorem subtypes?_eq_some {decision : Decision} {subtypes : NameSet} :
    decision.subtypes? = some subtypes ↔ decision = .sealTo subtypes := by
  cases decision <;> simp [subtypes?]

/-- The decision as it is written in reports. -/
def text : Decision → String
  | .keep => "unchanged"
  | .markFinal => "final"
  | .sealTo subtypes => "sealed to [" ++ String.intercalate ", " subtypes.toList ++ "]"

end Decision

end LinkSet
