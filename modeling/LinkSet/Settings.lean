import LinkSet.Diagnostics
import LinkSet.Names
import LinkSet.Text.Pieces

/-!
# Settings

What a run may change, and how much it reports. Settings are made from *options*, texts under four
keys: the units that may be changed, whether types may become final, whether they may become sealed,
and the level of diagnostics. The first is required. The next two are on if they are missing or
exactly `y`.
-/

namespace LinkSet

/-! ## Options -/

/-- The options of a run, as texts. -/
structure Options where
  /-- The units that may be changed, under the key `seal`. -/
  units : Option String := none
  /-- Whether types may become final, under the key `final`. -/
  finalizing : Option String := none
  /-- Whether types may become sealed, under the key `sealed`. -/
  sealing : Option String := none
  /-- The level of diagnostics, under the key `log`. -/
  level : Option String := none
deriving DecidableEq, Repr

/-- Why options make no settings. -/
inductive OptionError
  /-- A required option is missing. -/
  | missingOption (key : String)
  /-- There is no unit that may be changed. -/
  | emptyUnitFilter
  /-- The text names no level. -/
  | unknownLevel (text : String)
deriving DecidableEq, Repr

/-- The fault in words. -/
def OptionError.message : OptionError → String
  | .missingOption key => "missing required option `" ++ key ++ "`"
  | .emptyUnitFilter => "unit filter must be `*` or a comma-separated list of unit names"
  | .unknownLevel text =>
    "unknown diagnostic level " ++ Text.quoted text
      ++ " (expected all, trace, debug, info, warning, error or off)"

namespace Options

/-- The key of the units. -/
def unitsKey : String := "seal"

/-- The key of the switch for final types. -/
def finalizingKey : String := "final"

/-- The key of the switch for sealed types. -/
def sealingKey : String := "sealed"

/-- The key of the level. -/
def levelKey : String := "log"

/-- The options among pairs of key and text. -/
def ofPairs (pairs : List (String × String)) : Options where
  units := pairs.lookup unitsKey
  finalizing := pairs.lookup finalizingKey
  sealing := pairs.lookup sealingKey
  level := pairs.lookup levelKey

/-- The options that are there, as pairs of key and text. -/
def toPairs (o : Options) : List (String × String) :=
  [(unitsKey, o.units), (finalizingKey, o.finalizing), (sealingKey, o.sealing),
    (levelKey, o.level)].filterMap fun (key, text) => text.map (key, ·)

/-- The options of a command line: the units, whether either kind of change is turned off, and the
level. -/
def ofFlags (units : String) (noFinal noSeal : Bool) (level : String) : Options where
  units := some units
  finalizing := some (if noFinal then "n" else "y")
  sealing := some (if noSeal then "n" else "y")
  level := some level

/-- Whether a switch is on. -/
def isOn (switch : Option String) : Bool :=
  match switch with
  | some text => text == "y"
  | none => true

end Options

/-! ## Units -/

/-- The units that may be changed. -/
inductive UnitFilter
  /-- Every unit. -/
  | all
  /-- The given units. -/
  | only (units : NameSet)

namespace UnitFilter

/-- Whether a unit may be changed. -/
def accepts (filter : UnitFilter) (unit : String) : Bool :=
  match filter with
  | .all => true
  | .only units => units.contains unit

/-- The names of units in a text, between commas and without the blanks around them. -/
def namesIn (text : String) : List String :=
  (((Text.pieces ',' (Text.trim text.toList)).map Text.trim).filter (· ≠ [])).map String.ofList

/-- The filter that a text describes: a star for every unit, or names between commas. -/
def ofText (text : String) : Except OptionError UnitFilter :=
  if Text.trim text.toList = ['*'] then .ok .all
  else if namesIn text = [] then .error .emptyUnitFilter
  else .ok (.only (NameSet.ofList (namesIn text)))

end UnitFilter

/-! ## Settings -/

/-- What a run may change, and how much it reports. -/
structure Settings where
  /-- The units that may be changed. -/
  filter : UnitFilter := .all
  /-- Whether types may become final. -/
  finalizing : Bool := true
  /-- Whether types may become sealed. -/
  sealing : Bool := true
  /-- The level of diagnostics. -/
  level : Level := .warning

namespace Settings

/-- The level that an option names. -/
def levelOf : Option String → Except OptionError Level
  | none => .ok .warning
  | some text =>
    match Level.ofName? text with
    | some level => .ok level
    | none => .error (.unknownLevel text)

/-- The settings that options make. -/
def ofOptions (options : Options) : Except OptionError Settings :=
  match options.units with
  | none => .error (.missingOption Options.unitsKey)
  | some units => do
    let filter ← UnitFilter.ofText units
    let level ← levelOf options.level
    return {
      filter, level, finalizing := Options.isOn options.finalizing,
      sealing := Options.isOn options.sealing }

end Settings

end LinkSet
