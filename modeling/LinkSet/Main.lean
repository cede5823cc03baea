import LinkSet.CommandLine.Run
import LinkSet.FileTree.Changes

/-!
# The program

The command line. What the paths of a command lead to is read from disk into a file tree, the run itself
is a function on that tree, and the changes of the tree are written to disk at the end. Results go to
the standard output, remarks and failures to the standard error output.
-/

namespace LinkSet.Program

/-! ## Reading -/

/-- The location of an absolute path. -/
def locationOf (path : String) : Location :=
  (PathText.steps path).filter fun step => !PathText.isStay step

/-- The path of a location. -/
def pathOf (l : Location) : String := "/" ++ String.intercalate "/" l

/-- Where a path leads on disk, when all links are replaced by what they lead to. -/
def realPath? (path : String) : IO (Option String) := do
  try
    return some (← IO.FS.realPath path).toString
  catch _ => return none

/-- Reads what is at a location on disk, and with `fully` all that is below it. What cannot be read is
left out. -/
partial def readAt (t : FileTree) (fully : Bool) (l : Location) : IO FileTree := do
  try
    let real ← IO.FS.realPath (pathOf l)
    if locationOf real.toString ≠ l then
      return t.put l (.link real.toString)
    else if ← real.isDir then
      let children ← if fully then real.readDir else pure #[]
      children.toList.foldlM (fun t child => readAt t fully (l ++ [child.fileName]))
        (t.put l .folder)
    else
      return t.put l (.file (.plain (← IO.FS.readBinFile real).toList))
  catch _ => return t

/-- Reads the folders that lead to a location. -/
def readAbove (t : FileTree) (l : Location) : IO FileTree :=
  (List.range l.length).foldlM (fun t n => readAt t false (l.take n)) t

/-- Reads what a path leads to, step by step from a location on, and all that is below it. -/
def readAlong (t : FileTree) (here : Location) : List String → IO FileTree
  | [] => readAt t true here
  | step :: rest => do
    if PathText.isStay step then readAlong t here rest
    else if step == ".." then readAlong t here.dropLast rest
    else
      let next := here ++ [step]
      match ← realPath? (pathOf next) with
      | none => return t
      | some real => do
        let t ← readAt t false next
        let t ← readAbove t (locationOf real)
        readAlong t (locationOf real) rest

/-- Reads what some paths lead to. -/
def readTree (paths : List String) : IO FileTree := do
  let current := locationOf (← IO.currentDir).toString
  let t ← readAbove (FileTree.empty current) current
  paths.foldlM
    (fun t path => readAlong t (FileTree.startOf current path) (PathText.steps path)) t

/-! ## Writing -/

/-- Writes to disk what is new in a file tree. -/
def writeChanges (earlier later : FileTree) : IO Unit := do
  for l in earlier.newFolders later do
    IO.FS.createDirAll (pathOf l)
  for (l, content) in { earlier with current := [] }.changedSince { later with current := [] } do
    IO.FS.writeBinFile (pathOf l) ⟨content.toBytes.toArray⟩

/-- Writes a text and the end of its line, where it is missing. -/
def complain (text : String) : IO Unit := do
  IO.eprint text
  if text.toList.getLast? != some '\n' then IO.eprintln ""

/-- Says how a run ended. -/
def tell (ending : CommandLine.Ending) (milliseconds : Nat) : IO Unit :=
  match ending with
  | .success printout => IO.print (printout.text milliseconds)
  | .failure cause => complain cause.text
  | .help => IO.print CommandLine.helpText
  | .usage fault => complain ("error: " ++ fault.message ++ "\n\n" ++ CommandLine.helpText)

end LinkSet.Program

open LinkSet in
/-- Runs the program with the given arguments. -/
def main (arguments : List String) : IO UInt32 := do
  let start ← IO.monoMsNow
  let paths := match CommandLine.Invocation.ofArguments arguments with
    | .ok invocation => invocation.command.paths
    | .error _ => []
  let tree ← Program.readTree paths
  let outcome := CommandLine.run arguments tree
  for event in outcome.events do
    IO.eprintln event.line
  Program.writeChanges tree outcome.tree
  Program.tell outcome.ending ((← IO.monoMsNow) - start)
  return outcome.ending.exitCode.toUInt32
