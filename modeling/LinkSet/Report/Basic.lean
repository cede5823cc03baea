import LinkSet.Report.Json
import LinkSet.Tightening

/-!
# Reports

What a run tells about itself, as text or as a JSON document, and what is told about one class file.
-/

namespace LinkSet

/-- The form of a report. -/
inductive ReportFormat
  /-- Lines of text. -/
  | text
  /-- A JSON document. -/
  | json
deriving DecidableEq, Repr

/-- The report on a run. -/
structure Report where
  /-- The inputs. -/
  inputs : List String
  /-- The folder for the results. -/
  out : String
  /-- The number of entries. -/
  entries : Nat
  /-- What was written. -/
  outputs : List String
  /-- The counts of types. -/
  tally : Tally
  /-- The changed entries, in order. -/
  changes : List Change

namespace Report

/-- A decision as a JSON value. -/
def decisionJson : Decision → Json.Lines
  | .keep => Json.object [("kind", Json.text "no_op")]
  | .markFinal => Json.object [("kind", Json.text "mark_final")]
  | .sealTo subtypes =>
    Json.object [("kind", Json.text "seal"),
      ("subtypes", Json.array (subtypes.toList.map Json.text))]

/-- A change as a JSON value. -/
def changeJson (change : Change) : Json.Lines :=
  Json.object [("path", Json.text change.path), ("decision", decisionJson change.decision),
    ("sha256", Json.text change.sha256)]

/-- Counts as a JSON value. -/
def tallyJson (t : Tally) : Json.Lines :=
  Json.object [("total", Json.number t.total), ("no_subtypes", Json.number t.withoutSubtypes),
    ("became_final", Json.number t.madeFinal), ("with_subtypes", Json.number t.withSubtypes),
    ("not_yet_sealed", Json.number t.notYetSealed), ("sealed", Json.number t.madeSealed)]

/-- The report as a JSON value, for a run of the given duration. -/
def json (r : Report) (milliseconds : Nat) : Json.Lines :=
  Json.object [("inputs", Json.array (r.inputs.map Json.text)), ("out", Json.text r.out),
    ("entries", Json.number r.entries), ("outputs", Json.array (r.outputs.map Json.text)),
    ("duration_ms", Json.number milliseconds), ("stats", tallyJson r.tally),
    ("changes", Json.array (r.changes.map changeJson))]

/-- The report as text, for a run of the given duration. -/
def plain (r : Report) (milliseconds : Nat) : String :=
  r.tally.summary ++ "entries: " ++ r.entries.repr ++ "\n"
    ++ "duration_ms: " ++ milliseconds.repr ++ "\n"
    ++ String.join (r.changes.map fun change =>
      "- " ++ change.path ++ ": " ++ change.decision.text ++ "\n")

/-- The report in the given form, for a run of the given duration. -/
def render (r : Report) (format : ReportFormat) (milliseconds : Nat) : String :=
  match format with
  | .text => r.plain milliseconds
  | .json => Json.document (r.json milliseconds) ++ "\n"

end Report

/-- A class file as a JSON value. -/
def ClassFile.json (c : ClassFile) : Json.Lines :=
  Json.object [("minor_version", Json.number c.minorVersion.toNat),
    ("major_version", Json.number c.majorVersion.toNat), ("access", Json.text c.access.text),
    ("this_name", Json.text c.thisName), ("super_name", Json.optional Json.text c.superName),
    ("interfaces", Json.array (c.interfaces.map Json.text)),
    ("permitted_subclasses",
      Json.optional (fun names => Json.array (names.map Json.text)) c.permittedSubclasses)]

end LinkSet
