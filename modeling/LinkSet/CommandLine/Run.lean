import LinkSet.CommandLine.Arguments
import LinkSet.Storage

/-!
# Runs of the program

What the program does with its arguments: it reads a file tree, and gives what it prints, the remarks on
the way, and the tree that it leaves behind. A run ends in one of four ways: with a result, with a
failure, with help, or with a fault in the arguments. The exit code is 0 for the first and the third, 1
for the second and 2 for the last.
-/

namespace LinkSet.CommandLine

/-! ## Failures -/

/-- Why a command fails. -/
inductive Failure
  /-- The options make no settings. -/
  | options (cause : OptionError)
  /-- The link set cannot be loaded or saved. -/
  | storage (cause : StorageError)
  /-- The link set cannot be tightened. -/
  | tightening (cause : TighteningError)
  /-- The class file to inspect cannot be read. -/
  | readFile (path : String)
  /-- The file to inspect is no class file. -/
  | inspect (path : String) (cause : ClassFileError)
deriving DecidableEq, Repr

namespace Failure

/-- What went wrong, and then its cause if there is another one. -/
def messages : Failure → List String
  | .options cause => ["Invalid seal options", cause.message]
  | .storage cause => [cause.message]
  | .tightening cause => cause.messages
  | .readFile path => ["Failed to read " ++ path]
  | .inspect path cause => ["Failed to parse class file: " ++ path, cause.message]

/-- Whether there is a further reason that is not the program's to tell. -/
def isExternal : Failure → Bool
  | .storage cause => cause.isExternal
  | .readFile _ => true
  | _ => false

/-- The failure as it is printed. A reason that is not the program's to tell would follow at the end. -/
def text (f : Failure) : String :=
  match f.messages with
  | [] => "Error: "
  | [message] => "Error: " ++ message ++ if f.isExternal then "" else "\n"
  | message :: causes =>
    "Error: " ++ message ++ "\n\nCaused by:\n    " ++ String.intercalate "\n    " causes ++ "\n"

end Failure

/-! ## Runs -/

/-- What a successful command prints. -/
inductive Printout
  /-- The report on a run, in the given form. -/
  | report (report : Report) (format : ReportFormat)
  /-- What is read from a class file. -/
  | classFile (c : ClassFile)

/-- The text of a printout, for a run of the given duration. -/
def Printout.text (p : Printout) (milliseconds : Nat) : String :=
  match p with
  | .report r format => r.render format milliseconds
  | .classFile c => Json.document c.json ++ "\n"

/-- A step of a command: it changes a file tree and makes remarks, or it fails. -/
abbrev Action := ExceptT Failure (StateT FileTree Remarked)

namespace Action

/-- An action that only looks at the file tree. -/
def look {α : Type} (f : FileTree → Except StorageError α) : Action α := fun t =>
  ⟨((f t).mapError Failure.storage, t), []⟩

/-- An action that saves to the file tree. -/
def save {α : Type} (f : Storage.Saving α) : Action α := fun t =>
  let (result, t) := f.run t
  ⟨(result.mapError Failure.storage, t), []⟩

/-- An action that only makes remarks. -/
def tighten (settings : Settings) (entries : List Entry) : Action Tightened := fun t =>
  let r := (Tightening.run settings entries).run
  ⟨(r.value.mapError Failure.tightening, t), r.events⟩

end Action

/-- Saves the entries in the layout of the inputs, and gives what was written. -/
def saveAs (layout : StorageLayout) (out : String) (entries : List Entry) :
    Storage.Saving (List String) :=
  match layout with
  | .jars => Storage.saveJars out entries
  | .folders => do
    Storage.saveFolders out entries
    return [out]

/-- The settings for a request. -/
def settingsOf (request : SealRequest) (level : String) : Except OptionError Settings :=
  Settings.ofOptions (Options.ofFlags request.units request.noFinal request.noSeal level)

/-- Carries out the command `seal`. -/
def tighten (request : SealRequest) (level : String) : Action Printout := do
  let settings ← ((settingsOf request level).mapError Failure.options : Except Failure Settings)
  let layout ← Action.look fun t => Storage.detectLayout t request.inputs
  let entries ← Action.look fun t => Storage.load t request.inputs
  let result ← Action.tighten settings entries
  let outputs ← Action.save (saveAs layout request.out result.entries)
  return .report {
    inputs := request.inputs, out := request.out, entries := result.entries.length, outputs
    tally := result.tally, changes := result.changes } request.format

/-- Carries out the command `inspect`. -/
def inspect (path : String) : Action Printout := do
  match (← get).readFile? path with
  | none => throw (.readFile path)
  | some content =>
    match ClassFile.parse content.toBytes with
    | .ok c => return .classFile c
    | .error cause => throw (.inspect path cause)

/-- Carries out a command. -/
def perform (i : Invocation) : Action Printout :=
  match i.command with
  | .tighten request => tighten request i.level
  | .inspect path => inspect path

/-- How a run of the program ends. -/
inductive Ending
  /-- The command succeeds. -/
  | success (printout : Printout)
  /-- The command fails. -/
  | failure (cause : Failure)
  /-- Help was asked for. -/
  | help
  /-- The arguments are at fault. -/
  | usage (fault : UsageError)

/-- The exit code. -/
def Ending.exitCode : Ending → UInt8
  | .success _ => 0
  | .failure _ => 1
  | .help => 0
  | .usage _ => 2

/-- What a run of the program leaves behind. -/
structure Outcome where
  /-- How it ends. -/
  ending : Ending
  /-- The remarks on the way. -/
  events : List Event
  /-- The file tree. -/
  tree : FileTree

/-- Runs the program. -/
def run (arguments : List String) (t : FileTree) : Outcome :=
  match Invocation.ofArguments arguments with
  | .error .help => ⟨.help, [], t⟩
  | .error (.usage fault) => ⟨.usage fault, [], t⟩
  | .ok invocation =>
    let r := (perform invocation).run t
    match r.value with
    | (.ok printout, t) => ⟨.success printout, r.events, t⟩
    | (.error cause, t) => ⟨.failure cause, r.events, t⟩

/-- A short guide to the program. -/
def helpText : String :=
  "Mark leaf JVM classes final and seal closed hierarchies across a whole link set\n\n"
    ++ "Usage:\n"
    ++ "  seal [OPTIONS] --out <DIR> <INPUT>...  Analyze a link set and write the changed copy\n"
    ++ "  inspect <CLASS_FILE>                   Print what the reader sees in one class file\n\n"
    ++ "Options:\n"
    ++ "  -o, --out <DIR>        Folder for the changed copy\n"
    ++ "      --units <UNITS>    `*` or a comma-separated list of units to change [default: *]\n"
    ++ "      --no-final         Make no type final\n"
    ++ "      --no-seal          Make no type sealed\n"
    ++ "  -f, --format <FORMAT>  Form of the report: text or json [default: text]\n"
    ++ "      --log <LEVEL>      all, trace, debug, info, warning, error or off [default: warning]\n"
    ++ "  -h, --help             Print help\n"

end LinkSet.CommandLine
