import LinkSet.Text.Blank
import LinkSet.Text.Controls
import LinkSet.Text.Quoted

/-!
# Diagnostics

While it works on a link set, the program remarks on what it does. Each remark has a level, and only
remarks of the chosen level or above become events. The chosen level is an argument of whatever
remarks, so different runs do not disturb each other. A remark at the level `off` is never made.

Main statements: a remark becomes an event exactly if its level is enabled (`remark_events`), and no
level is enabled when all are off (`not_enabled_off`).
-/

namespace LinkSet

/-- How much is reported, from everything to nothing. -/
inductive Level
  /-- Everything. -/
  | all
  /-- Each step. -/
  | trace
  /-- Each decision. -/
  | debug
  /-- The results. -/
  | info
  /-- What looks wrong. -/
  | warning
  /-- What is wrong. -/
  | error
  /-- Nothing. -/
  | off
deriving DecidableEq, Repr

/-- How an event is labelled. -/
inductive Severity
  /-- A step. -/
  | trace
  /-- A decision. -/
  | debug
  /-- A result. -/
  | info
  /-- Something looks wrong. -/
  | warn
  /-- Something is wrong. -/
  | error
deriving DecidableEq, Repr

/-- A remark that was made. -/
structure Event where
  /-- Its label. -/
  severity : Severity
  /-- Its text. -/
  message : String
deriving DecidableEq, Repr

namespace Severity

/-- The label in lower case. -/
def name : Severity → String
  | .trace => "trace"
  | .debug => "debug"
  | .info => "info"
  | .warn => "warn"
  | .error => "error"

/-- The label in upper case. -/
def label : Severity → String
  | .trace => "TRACE"
  | .debug => "DEBUG"
  | .info => "INFO"
  | .warn => "WARN"
  | .error => "ERROR"

end Severity

/-- The event as a line of a log. -/
def Event.line (e : Event) : String := e.severity.label ++ " " ++ Text.disarmed e.message

namespace Level

/-- The place of a level in the order from everything to nothing. -/
def rank : Level → Nat
  | .all => 0
  | .trace => 1
  | .debug => 2
  | .info => 3
  | .warning => 4
  | .error => 5
  | .off => 6

/-- All levels in order. -/
def list : List Level := [.all, .trace, .debug, .info, .warning, .error, .off]

/-- Whether the first level reports more than the second. -/
def below (a b : Level) : Bool := a.rank < b.rank

/-- The name of a level. -/
def name : Level → String
  | .all => "all"
  | .trace => "trace"
  | .debug => "debug"
  | .info => "info"
  | .warning => "warning"
  | .error => "error"
  | .off => "off"

/-- The level with the given name, in whatever case and between whatever blanks. `warn` is a second
name of the level `warning`. -/
def ofName? (text : String) : Option Level :=
  match String.ofList ((Text.trim text.toList).map Char.toLower) with
  | "all" => some .all
  | "trace" => some .trace
  | "debug" => some .debug
  | "info" => some .info
  | "warning" => some .warning
  | "warn" => some .warning
  | "error" => some .error
  | "off" => some .off
  | _ => none

/-- The label of events at a level. -/
def severity? : Level → Option Severity
  | .all => some .trace
  | .trace => some .trace
  | .debug => some .debug
  | .info => some .info
  | .warning => some .warn
  | .error => some .error
  | .off => none

/-- Whether remarks at `level` are made when `chosen` is the chosen level. -/
def enabled (chosen level : Level) : Bool := level ≠ .off && chosen.rank ≤ level.rank

@[simp] theorem not_enabled_off (level : Level) : enabled .off level = false := by
  cases level <;> rfl

end Level

/-! ## Values with remarks -/

/-- A value, and the events on the way to it. -/
structure Remarked (α : Type) where
  /-- The value. -/
  value : α
  /-- The events, in order. -/
  events : List Event
deriving DecidableEq, Repr

namespace Remarked

instance : Monad Remarked where
  pure a := ⟨a, []⟩
  bind x f := ⟨(f x.value).value, x.events ++ (f x.value).events⟩

@[simp] theorem value_pure {α : Type} (a : α) : (pure a : Remarked α).value = a := rfl

@[simp] theorem events_pure {α : Type} (a : α) : (pure a : Remarked α).events = [] := rfl

@[simp] theorem value_bind {α β : Type} (x : Remarked α) (f : α → Remarked β) :
    (x >>= f).value = (f x.value).value := rfl

@[simp] theorem events_bind {α β : Type} (x : Remarked α) (f : α → Remarked β) :
    (x >>= f).events = x.events ++ (f x.value).events := rfl

@[simp] theorem value_map {α β : Type} (f : α → β) (x : Remarked α) :
    (f <$> x).value = f x.value := rfl

/-- Value and events are all there is. -/
theorem ext_parts {α : Type} {x y : Remarked α} (hv : x.value = y.value)
    (he : x.events = y.events) : x = y := by
  cases x
  cases y
  simp_all

/-- Remarks add up in the order in which the steps are taken, however the steps are grouped. -/
instance : LawfulMonad Remarked :=
  LawfulMonad.mk' Remarked
    (fun _ => ext_parts rfl (by simp [Functor.map]))
    (fun _ _ => ext_parts rfl (by simp))
    (fun _ _ _ => ext_parts rfl (by simp [List.append_assoc]))

end Remarked

namespace Level

/-- Remarks on something at `level`, when `chosen` is the chosen level. -/
def remark (chosen level : Level) (message : String) : Remarked Unit where
  value := ()
  events :=
    match level.severity? with
    | some severity => if chosen.enabled level then [⟨severity, message⟩] else []
    | none => []

theorem remark_events (chosen level : Level) (message : String) :
    (chosen.remark level message).events = [] ↔ chosen.enabled level = false := by
  cases level <;> simp [remark, severity?, enabled]

end Level

end LinkSet
