import LinkSet.Decision
import LinkSet.Index
import LinkSet.Settings
import LinkSet.Tally

/-!
# Classification

What is to become of each type of a link set. A type without subtypes may become final. A type with
subtypes may become sealed, if it is not sealed yet, if its unit declares all of its subtypes and if
it may list all of them.
-/

namespace LinkSet

/-- What is to become of a type, and how it counts. -/
structure Verdict where
  /-- What is to become of the type. -/
  decision : Decision
  /-- The counts of this one type. -/
  tally : Tally

namespace Verdict

/-- The verdict on a type of a unit that may not be changed. -/
def excluded : Verdict := ⟨.keep, {}⟩

/-- The verdict on a type without subtypes. -/
def ofLeaf (settings : Settings) (d : TypeDecl) : Remarked Verdict :=
  let tally : Tally := { total := 1, withoutSubtypes := 1 }
  if d.classFile.isInterface || d.classFile.isFinal || !settings.finalizing then
    pure ⟨.keep, tally⟩
  else do
    settings.level.remark .debug ("Marking " ++ d.name ++ " as final")
    return ⟨.markFinal, { tally with madeFinal := 1 }⟩

/-- Whether all subtypes are declared in the unit of the type, and may be listed by it. -/
def isClosed (ix : Index) (settings : Settings) (d : TypeDecl) (subtypes : List String) :
    Remarked Bool :=
  if ix.declaresAll d.unit subtypes then ix.permitsAll settings.level d.name d.unit subtypes
  else pure false

/-- The verdict on a type with subtypes. -/
def ofParent (ix : Index) (settings : Settings) (d : TypeDecl) (subtypes : NameSet) :
    Remarked Verdict :=
  let tally : Tally := { total := 1, withSubtypes := 1 }
  if d.classFile.isSealed then
    pure ⟨.keep, tally⟩
  else do
    let tally := { tally with notYetSealed := 1 }
    let closed ← isClosed ix settings d subtypes.toList
    if closed && settings.sealing then do
      let decision := Decision.sealTo subtypes
      settings.level.remark .debug ("Sealing " ++ d.name ++ ": " ++ decision.text)
      return ⟨decision, { tally with madeSealed := 1 }⟩
    else
      return ⟨.keep, tally⟩

/-- The verdict on a type of the link set. -/
def ofDecl (ix : Index) (settings : Settings) (d : TypeDecl) : Remarked Verdict :=
  if settings.filter.accepts d.unit then
    match ix.subtypes.get? d.name with
    | some subtypes => ofParent ix settings d subtypes
    | none => ofLeaf settings d
  else
    pure excluded

end Verdict

end LinkSet
