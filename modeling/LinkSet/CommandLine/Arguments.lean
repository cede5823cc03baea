import LinkSet.Report.Basic
import LinkSet.Text.Pieces

/-!
# Arguments

What the arguments of the program ask for. There are two commands:

* `seal INPUT... --out DIR` tightens a link set and writes the result;
* `inspect CLASS_FILE` prints what is read from one class file.

Options are written `--name value` or `--name=value`; some have a letter, and then also `-l value`,
`-lvalue` and `-l=value`. A value that stands apart from its option cannot look like an option itself.
Options and inputs may come in any order. Behind `--` everything is an input. No option may be given
twice, but the level of diagnostics can be given before the command and again behind it, and then the
latter counts. Where help is asked for it is given, unless a fault stands before it.
-/

namespace LinkSet.CommandLine

/-- What the command `seal` is to do. -/
structure SealRequest where
  /-- The jars or folders of the link set. -/
  inputs : List String
  /-- The folder for the results. -/
  out : String
  /-- The units that may be changed. -/
  units : String := "*"
  /-- Whether types stay as they are instead of becoming final. -/
  noFinal : Bool := false
  /-- Whether types stay as they are instead of becoming sealed. -/
  noSeal : Bool := false
  /-- The form of the report. -/
  format : ReportFormat := .text
deriving DecidableEq, Repr

/-- A command. -/
inductive Command
  /-- Tighten a link set. -/
  | tighten (request : SealRequest)
  /-- Print what is read from a class file. -/
  | inspect (file : String)
deriving DecidableEq, Repr

/-- The paths of all files and folders that a command reads or writes. -/
def Command.paths : Command → List String
  | .tighten request => request.inputs ++ [request.out]
  | .inspect file => [file]

/-- A command with the level of diagnostics. -/
structure Invocation where
  /-- The command. -/
  command : Command
  /-- The level of diagnostics. -/
  level : String
deriving DecidableEq, Repr

/-- Why the arguments ask for nothing that can be done. -/
inductive UsageError
  /-- There is no such option here. -/
  | unknownOption (argument : String)
  /-- The option needs a value. -/
  | missingValue (option : String)
  /-- The option takes no value. -/
  | unexpectedValue (option : String)
  /-- The option is given twice. -/
  | repeatedOption (option : String)
  /-- The option does not take this value. -/
  | badValue (option value : String)
  /-- There is one input too many. -/
  | unexpectedArgument (argument : String)
  /-- Something that is required is missing. -/
  | missingArgument (name : String)
  /-- There is no such command. -/
  | unknownCommand (name : String)
  /-- There is no command. -/
  | missingCommand
deriving DecidableEq, Repr

/-- The fault in words. -/
def UsageError.message : UsageError → String
  | .unknownOption argument => "unexpected argument '" ++ argument ++ "' found"
  | .missingValue option => "a value is required for '" ++ option ++ "' but none was supplied"
  | .unexpectedValue option => "unexpected value for '" ++ option ++ "' found"
  | .repeatedOption option => "the argument '" ++ option ++ "' cannot be used multiple times"
  | .badValue option value => "invalid value '" ++ value ++ "' for '" ++ option ++ "'"
  | .unexpectedArgument argument => "unexpected argument '" ++ argument ++ "' found"
  | .missingArgument name => "the required argument '" ++ name ++ "' was not provided"
  | .unknownCommand name => "unrecognized subcommand '" ++ name ++ "'"
  | .missingCommand => "a subcommand is required but one was not provided"

/-- Why there is no command to carry out. -/
inductive Refusal
  /-- Help was asked for. -/
  | help
  /-- The arguments are at fault. -/
  | usage (fault : UsageError)
deriving DecidableEq, Repr

/-! ## Single arguments -/

/-- How an argument reads. -/
inductive Token
  /-- The mark behind which everything is an input. -/
  | rest
  /-- An option by its name, with the value attached to it. -/
  | long (name : String) (value : Option String)
  /-- An option by its letter, with the value attached to it. -/
  | short (letter : Char) (value : Option String)
  /-- An input, a command or a value. -/
  | word (text : String)
deriving DecidableEq, Repr

/-- A value that stands right behind the letter of an option. -/
def attachedValue : List Char → Option String
  | [] => none
  | '=' :: value => some (String.ofList value)
  | value => some (String.ofList value)

/-- Reads one argument. -/
def Token.ofArgument (argument : String) : Token :=
  match argument.toList with
  | ['-', '-'] => .rest
  | '-' :: '-' :: text =>
    match Text.cut? '=' text with
    | some (name, value) => .long (String.ofList name) (some (String.ofList value))
    | none => .long (String.ofList text) none
  | '-' :: letter :: text => .short letter (attachedValue text)
  | _ => .word argument

/-- A value that has to be the path of a file or folder. -/
def pathValue (option value : String) : Except Refusal String :=
  if value = "" then .error (.usage (.badValue option value)) else .ok value

/-! ## Options -/

/-- The options. -/
inductive Flag
  /-- The folder for the results. -/
  | out
  /-- The units that may be changed. -/
  | units
  /-- No type is to become final. -/
  | noFinal
  /-- No type is to become sealed. -/
  | noSeal
  /-- The form of the report. -/
  | format
  /-- The level of diagnostics. -/
  | level
  /-- Help. -/
  | help
deriving DecidableEq, Repr

/-- The places of arguments: before the command, or behind one of the two. -/
inductive Scope
  /-- Before the command. -/
  | top
  /-- Behind `seal`. -/
  | tighten
  /-- Behind `inspect`. -/
  | inspect
deriving DecidableEq, Repr

/-- What the arguments have said so far. -/
structure Draft where
  /-- The place of the next argument. -/
  scope : Scope := .top
  /-- The inputs in reverse. -/
  inputs : List String := []
  /-- The folder for the results. -/
  out : Option String := none
  /-- The units that may be changed. -/
  units : Option String := none
  /-- Whether no type is to become final. -/
  noFinal : Bool := false
  /-- Whether no type is to become sealed. -/
  noSeal : Bool := false
  /-- The form of the report. -/
  format : Option ReportFormat := none
  /-- The level of diagnostics, where it is given at the place of the next argument. -/
  level : Option String := none
  /-- The level of diagnostics, where it is given before the command. -/
  topLevel : Option String := none
deriving DecidableEq, Repr

namespace Flag

/-- An option as it is written. -/
def text : Flag → String
  | .out => "--out"
  | .units => "--units"
  | .noFinal => "--no-final"
  | .noSeal => "--no-seal"
  | .format => "--format"
  | .level => "--log"
  | .help => "--help"

/-- Whether the option takes a value. -/
def takesValue : Flag → Bool
  | .out => true
  | .units => true
  | .format => true
  | .level => true
  | _ => false

/-- The options that can be used at a place. -/
def inScope : Scope → List Flag
  | .tighten => [.out, .units, .noFinal, .noSeal, .format, .level, .help]
  | _ => [.level, .help]

/-- The option with the given name. -/
def ofName? (scope : Scope) (name : String) : Option Flag :=
  (inScope scope).find? fun flag => flag.text == "--" ++ name

/-- The option with the given letter. -/
def ofLetter? (scope : Scope) (letter : Char) : Option Flag :=
  let flag := match letter with
    | 'o' => some Flag.out
    | 'f' => some Flag.format
    | 'h' => some Flag.help
    | _ => none
  flag.filter (inScope scope).contains

end Flag

namespace Draft

/-- Sets something that can only be set once. -/
def setOnce {α : Type} (flag : Flag) (old : Option α) (new : α) : Except Refusal (Option α) :=
  match old with
  | none => .ok (some new)
  | some _ => .error (.usage (.repeatedOption flag.text))

/-- Turns something on that can only be turned on once. -/
def turnOn (flag : Flag) (old : Bool) : Except Refusal Bool :=
  if old then .error (.usage (.repeatedOption flag.text)) else .ok true

/-- Takes in an option without a value. -/
def raise (d : Draft) : Flag → Except Refusal Draft
  | .help => .error .help
  | .noFinal => do return { d with noFinal := ← turnOn .noFinal d.noFinal }
  | .noSeal => do return { d with noSeal := ← turnOn .noSeal d.noSeal }
  | flag => .error (.usage (.missingValue flag.text))

/-- The form of a report by its name. -/
def formatOf (name : String) : Except Refusal ReportFormat :=
  match name with
  | "json" => .ok .json
  | "text" => .ok .text
  | _ => .error (.usage (.badValue Flag.format.text name))

/-- Takes in an option with its value. -/
def assign (d : Draft) (flag : Flag) (value : String) : Except Refusal Draft :=
  match flag with
  | .out => do
    let path ← pathValue flag.text value
    return { d with out := ← setOnce flag d.out path }
  | .units => do return { d with units := ← setOnce flag d.units value }
  | .format => do
    let format ← formatOf value
    return { d with format := ← setOnce flag d.format format }
  | .level => do return { d with level := ← setOnce flag d.level value }
  | _ => .error (.usage (.unexpectedValue flag.text))

/-- Takes in an input. The command `inspect` has only one. -/
def addInput (d : Draft) (input : String) : Except Refusal Draft :=
  if d.scope ≠ .tighten ∧ d.inputs ≠ [] then
    .error (.usage (.unexpectedArgument input))
  else do
    let path ← pathValue "INPUT" input
    return { d with inputs := path :: d.inputs }

/-- Takes in the name of a command. -/
def enter (d : Draft) (name : String) : Except Refusal Draft :=
  match name with
  | "seal" => .ok { d with scope := .tighten, level := none, topLevel := d.level }
  | "inspect" => .ok { d with scope := .inspect, level := none, topLevel := d.level }
  | _ => .error (.usage (.unknownCommand name))

/-- The command that the whole of the arguments asks for. -/
def finish (d : Draft) : Except Refusal Invocation :=
  let level := (d.level.or d.topLevel).getD "warning"
  match d.scope with
  | .top => .error (.usage .missingCommand)
  | .tighten =>
    match d.inputs, d.out with
    | [], _ => .error (.usage (.missingArgument "INPUT"))
    | _, none => .error (.usage (.missingArgument "--out"))
    | inputs, some out =>
      .ok {
        level
        command := .tighten {
          inputs := inputs.reverse, out, units := d.units.getD "*", noFinal := d.noFinal
          noSeal := d.noSeal, format := d.format.getD .text } }
  | .inspect =>
    match d.inputs with
    | [file] => .ok { level, command := .inspect file }
    | _ => .error (.usage (.missingArgument "CLASS_FILE"))

end Draft

/-! ## All arguments -/

/-- The option that an argument stands for, with the value attached to it. Behind the letter of an option
that takes no value nothing counts. -/
def Token.option? (scope : Scope) : Token → Option (Flag × Option String)
  | .long name value => (Flag.ofName? scope name).map (·, value)
  | .short letter value =>
    (Flag.ofLetter? scope letter).map fun flag => (flag, if flag.takesValue then value else none)
  | _ => none

/-- What comes of the command `help` with the given arguments, which may name a command. -/
def helpOn (arguments : List String) : Refusal :=
  match arguments with
  | [] => .help
  | [name] =>
    if ["seal", "inspect", "help"].contains name then .help else .usage (.unknownCommand name)
  | name :: _ => .usage (.unknownCommand name)

/-- Takes in arguments one after the other. -/
def readArguments (d : Draft) : List String → Except Refusal Draft
  | [] => .ok d
  | argument :: others =>
    match Token.ofArgument argument with
    | .rest =>
      if d.scope = .top then .error (.usage (.unexpectedArgument argument))
      else others.foldlM Draft.addInput d
    | .word word =>
      if d.scope ≠ .top then do readArguments (← d.addInput word) others
      else if word = "help" then .error (helpOn others)
      else do readArguments (← d.enter word) others
    | token =>
      match token.option? d.scope with
      | none => .error (.usage (.unknownOption argument))
      | some (flag, some value) =>
        if flag.takesValue then do readArguments (← d.assign flag value) others
        else .error (.usage (.unexpectedValue flag.text))
      | some (flag, none) =>
        if flag.takesValue then
          match others with
          | [] => .error (.usage (.missingValue flag.text))
          | next :: others =>
            match Token.ofArgument next with
            | .word value => do readArguments (← d.assign flag value) others
            | _ => .error (.usage (.missingValue flag.text))
        else do readArguments (← d.raise flag) others

/-- The command that the arguments ask for. -/
def Invocation.ofArguments (arguments : List String) : Except Refusal Invocation := do
  let d ← readArguments {} arguments
  d.finish

end LinkSet.CommandLine
