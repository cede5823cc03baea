import LinkSet.Entry
import LinkSet.FileTree.Basic
import LinkSet.Names
import LinkSet.Zip.Container

/-!
# Link sets on disk

A link set is kept in one of two layouts.

* *Jars*: each jar is a unit, named by the stem of the jar. The member `a/B.class` of `app.jar` is the
  entry `/app/a/B.class`.
* *Folders*: each folder directly in an input folder is a unit. The file `app/a/B.class` of the input
  is the entry `/app/a/B.class`. A file directly in the input belongs to no unit.

Loading reads a file tree. Saving changes one, entry by entry, and stops at the first failure with what
it has done so far.
-/

namespace LinkSet

/-- Why a link set cannot be loaded or saved. -/
inductive StorageError
  /-- The input is neither a jar nor a folder. -/
  | notAnInput (path : String)
  /-- Some inputs are jars, others folders. -/
  | mixedLayouts
  /-- There is nothing to load. -/
  | noInputs
  /-- Two entries have the same path. -/
  | duplicateEntry (path : String)
  /-- The jar has no stem that could name a unit. -/
  | jarName (path : String)
  /-- There is no such file. -/
  | openJar (path : String)
  /-- What should be a jar is a folder. -/
  | mapJar (path : String)
  /-- What should be a jar is another file. -/
  | readJar (path : String)
  /-- There is no such folder, or the path of a folder in it is too long. -/
  | walkFolder (path : String)
  /-- The path of a file in a folder is too long. -/
  | readFile (path : String)
  /-- The folder for the results cannot be made. -/
  | createOutput (path : String)
  /-- The jar cannot be made. -/
  | createJar (path : String)
  /-- A folder for results cannot be made. -/
  | createFolder (path : String)
  /-- A file cannot be written. -/
  | writeFile (path : String)
  /-- The entry would lie outside the folder for the results. -/
  | outsideOutput (entry : String)
  /-- The path of an entry names no unit. -/
  | entryPath (cause : PathError)
deriving DecidableEq, Repr

namespace StorageError

/-- What went wrong, in words. -/
def message : StorageError → String
  | .notAnInput path => "Input is neither a jar nor a directory: " ++ path
  | .mixedLayouts => "Cannot mix jar and directory inputs in one run"
  | .noInputs => "No inputs given"
  | .duplicateEntry path => "Duplicate entry in corpus: " ++ path
  | .jarName path => "Jar name is not a valid unit name: " ++ path
  | .openJar path => "Failed to open jar: " ++ path
  | .mapJar path => "Failed to mmap jar: " ++ path
  | .readJar path => "Failed to read zip structure: " ++ path
  | .walkFolder path => "Failed to walk " ++ path
  | .readFile path => "Failed to read " ++ path
  | .createOutput path => "Failed to create output directory: " ++ path
  | .createJar path => "Failed to create jar: " ++ path
  | .createFolder path => "Failed to create directory: " ++ path
  | .writeFile path => "Failed to write " ++ path
  | .outsideOutput entry => "Refusing to write outside the output directory: " ++ entry
  | .entryPath cause => cause.message

/-- Whether the reason behind the failure is the file system's or the jar's. -/
def isExternal : StorageError → Bool
  | .openJar _ => true
  | .mapJar _ => true
  | .readJar _ => true
  | .walkFolder _ => true
  | .readFile _ => true
  | .createOutput _ => true
  | .createJar _ => true
  | .createFolder _ => true
  | .writeFile _ => true
  | _ => false

end StorageError

/-- How a link set is kept on disk. -/
inductive StorageLayout
  /-- Each unit is a jar. -/
  | jars
  /-- Each unit is a folder. -/
  | folders
deriving DecidableEq, Repr

namespace Storage

/-! ## Loading -/

/-- The layout of one input. -/
def layoutOf (t : FileTree) (input : String) : Except StorageError StorageLayout :=
  if t.isFolder input then .ok .folders
  else if PathText.extension? input == some "jar" then .ok .jars
  else .error (.notAnInput input)

/-- The layout that all further inputs have to share with the ones before. -/
def sharedLayout (t : FileTree) (seen : StorageLayout) :
    List String → Except StorageError StorageLayout
  | [] => .ok seen
  | input :: inputs => do
    let layout ← layoutOf t input
    if layout = seen then sharedLayout t seen inputs else throw .mixedLayouts

/-- The layout of the inputs. -/
def detectLayout (t : FileTree) : List String → Except StorageError StorageLayout
  | [] => .error .noInputs
  | input :: inputs => do
    let layout ← layoutOf t input
    sharedLayout t layout inputs

/-- Whether a member of a jar stands for a folder. -/
def isFolderMember (m : Member) : Bool :=
  m.name.toList.getLast? == some '/' || m.name.toList.getLast? == some '\\'

/-- The entry of a member of the jar of a unit. -/
def entryOfMember (unit : String) (m : Member) : Entry where
  path := "/" ++ unit ++ "/" ++ String.ofList (m.name.toList.dropWhile (· = '/'))
  kind := .ofUnit
  content := m.content

/-- The members of the jar that a path leads to. -/
def membersAt (t : FileTree) (path : String) : Except StorageError (List Member) :=
  match t.locate? path with
  | none => .error (.openJar path)
  | some l =>
    match t.fileAt? l with
    | none => .error (.mapJar path)
    | some content =>
      match content.members? with
      | none => .error (.readJar path)
      | some members => .ok members

/-- The entries of a jar. -/
def loadJar (t : FileTree) (path : String) : Except StorageError (List Entry) :=
  match PathText.stem? path with
  | none => .error (.jarName path)
  | some unit => do
    let members ← membersAt t path
    return (members.filter (!isFolderMember ·)).map (entryOfMember unit)

/-- The entry of a file, by the names that lead to it from an input folder. -/
def entryOfFile (names : List String) (content : Bytes) : Entry where
  path := "/" ++ String.intercalate "/" names
  kind := if names.length > 1 then .ofUnit else .loose
  content := content

/-- Whether a path stands for the standard input, which has no files. -/
def isStandardInput (path : String) : Bool :=
  match PathText.steps path with
  | "-" :: rest => rest.all PathText.isStay
  | _ => false

/-- The entry of what lies in a folder at the end of the given names, if it is a file. Links are passed
over. -/
def entryOfNode (root : String) (names : List String) (node : Node) :
    Except StorageError (Option Entry) :=
  let path := names.foldl PathText.join root
  match node with
  | .link _ => .ok none
  | .folder => if PathText.isTooLong path then .error (.walkFolder root) else .ok none
  | .file content =>
    if PathText.isTooLong path then .error (.readFile path)
    else .ok (some (entryOfFile names content.toBytes))

/-- The entries of a folder. -/
def loadFolder (t : FileTree) (path : String) : Except StorageError (List Entry) :=
  if isStandardInput path then .ok []
  else
    match t.locate? path with
    | none => .error (.walkFolder path)
    | some l => do
      let entries ← (t.nodesBelow l).mapM fun (names, node) => entryOfNode path names node
      return entries.filterMap id

/-- The entries of one input. -/
def loadInput (t : FileTree) (path : String) : Except StorageError (List Entry) :=
  if t.isFolder path then loadFolder t path else loadJar t path

/-- The first name that stands a second time in the list, or stands among the names seen before. -/
def firstRepeated? (seen : NameSet) : List String → Option String
  | [] => none
  | name :: names =>
    if seen.contains name then some name else firstRepeated? (seen.insert name) names

/-- The entries of all inputs. -/
def load (t : FileTree) (inputs : List String) : Except StorageError (List Entry) := do
  let entries := (← inputs.mapM (loadInput t)).flatten
  match firstRepeated? ∅ (entries.map (·.path)) with
  | some path => throw (.duplicateEntry path)
  | none => return entries

/-! ## Saving -/

/-- A step that changes a file tree, or fails with the tree changed in part. -/
abbrev Saving := ExceptT StorageError (StateM FileTree)

/-- Makes a folder. -/
def makeFolder (path : String) (failure : StorageError) : Saving Unit := do
  let (t, made) := (← get).makeFolders path
  set t
  if made then pure () else throw failure

/-- Writes a file. -/
def writeFile (path : String) (content : Content) (failure : StorageError) : Saving Unit := do
  match (← get).writeFile? path content with
  | some t => set t
  | none => throw failure

/-- Writes the file of an entry. The path of the entry may have any number of slashes at its start, but
no step that goes up. -/
def saveFile (out : String) (e : Entry) : Saving Unit := do
  let relative := String.ofList (e.path.toList.dropWhile (· = '/'))
  if (PathText.steps relative).contains ".." then
    throw (.outsideOutput e.path)
  else do
    let target := PathText.join out relative
    match PathText.parent? target with
    | some folder => makeFolder folder (.createFolder folder)
    | none => pure ()
    writeFile target (.plain e.content) (.writeFile target)

/-- Saves entries as folders. -/
def saveFolders (out : String) (entries : List Entry) : Saving Unit :=
  entries.forM (saveFile out)

/-- Finds the unit of an entry. An entry outside all units has none, and is written right away. -/
def sortOut (out : String) (e : Entry) : Saving (Option (String × Entry)) :=
  match e.kind with
  | .ofUnit =>
    match EntryPath.unit e.path with
    | .ok unit => return some (unit, e)
    | .error cause => throw (.entryPath cause)
  | .loose => do
    saveFile out e
    return none

/-- The member of the jar of a unit that an entry becomes. -/
def memberOfEntry (unit : String) (e : Entry) : Member where
  name :=
    match Text.dropStart? ("/" ++ unit ++ "/").toList e.path.toList with
    | some name => String.ofList name
    | none => e.path
  content := e.content

/-- Writes the jar of a unit, and gives its path. -/
def saveJar (out : String) (sorted : List (String × Entry)) (unit : String) : Saving String := do
  let path := PathText.join out (unit ++ ".jar")
  let members := (sorted.filter (·.1 = unit)).map fun (_, e) => memberOfEntry unit e
  writeFile path (.packed { members }) (.createJar path)
  return path

/-- Saves entries as jars, and gives the paths of the jars in the order of their units. -/
def saveJars (out : String) (entries : List Entry) : Saving (List String) := do
  makeFolder out (.createOutput out)
  let sorted := (← entries.mapM (sortOut out)).filterMap id
  (NameSet.ofList (sorted.map (·.1))).toList.mapM (saveJar out sorted)

end Storage

end LinkSet
