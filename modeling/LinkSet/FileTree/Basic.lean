import Std.Data.ExtTreeMap
import LinkSet.FileTree.Content
import LinkSet.FileTree.PathText

/-!
# File trees

A file tree is what a program finds and leaves behind on disk: files, folders and links, each at a
*location*, the list of names that lead to it from the root. The order of locations is by name from
the root on, which is the order of a walk through the tree that lists the children of each folder by
name.

A path is followed step by step. A link is replaced by its target wherever it stands, so locations have
no links in them; after forty links the path is given up. Every step of a path but the last has to
lead to a folder. Names have at most 255 bytes, and paths at most 4095.

Operations that fail may have done a part of their work, as they do on disk: `makeFolders` keeps the
folders that it could make. The folder at the end of a path is made in the place that the rest of the
path leads to, so it is not made by a path that goes on with `.` behind it.
-/

namespace LinkSet

/-- The names that lead from the root to a place in a file tree. -/
abbrev Location := List String

/-- What is at a location. -/
inductive Node
  /-- A file. -/
  | file (content : Content)
  /-- A folder. -/
  | folder
  /-- A link to the given path. -/
  | link (target : String)
deriving DecidableEq, Repr

/-- The files, folders and links below a root, and the folder at which relative paths start. -/
structure FileTree where
  /-- What is at each location but the root, which is a folder. -/
  nodes : Std.ExtTreeMap Location Node
  /-- The current folder. -/
  current : Location

/-- Where a path leads. -/
inductive Place
  /-- To the file or folder at this location. -/
  | present (location : Location)
  /-- To nothing, but to a folder in which the name is free. -/
  | vacant (folder : Location) (name : String)
deriving DecidableEq, Repr

/-- Why a path leads nowhere. -/
inductive PathFault
  /-- Something on the way is missing. -/
  | missing
  /-- Something on the way is no folder. -/
  | blocked
  /-- The path or a name in it is too long, the path has a character that no name can have, or it leads
  through too many links. -/
  | unusable
deriving DecidableEq, Repr

namespace FileTree

/-- A tree that holds nothing but the current folder. -/
def empty (current : Location := []) : FileTree where
  nodes := (List.range current.length).foldl
    (fun nodes n => nodes.insert (current.take (n + 1)) Node.folder) ∅
  current

/-! ## Looking up -/

/-- What is at a location. -/
def node? (t : FileTree) (l : Location) : Option Node :=
  if l = [] then some .folder else t.nodes[l]?

/-- Whether there is a folder at a location. -/
def isFolderAt (t : FileTree) (l : Location) : Bool := t.node? l == some .folder

/-- The content of the file at a location. -/
def fileAt? (t : FileTree) (l : Location) : Option Content :=
  match t.node? l with
  | some (.file content) => some content
  | _ => none

/-- The tree with something else at a location. -/
def put (t : FileTree) (l : Location) (node : Node) : FileTree :=
  { t with nodes := t.nodes.insert l node }

/-- Only the one location changes. -/
theorem node?_put (t : FileTree) (l k : Location) (node : Node) :
    (t.put l node).node? k = if k = [] then some .folder else if l = k then some node
      else t.node? k := by
  unfold node? put
  split
  · rfl
  · simp [Std.ExtTreeMap.getElem?_insert]

theorem node?_put_self (t : FileTree) {l : Location} (hl : l ≠ []) (node : Node) :
    (t.put l node).node? l = some node := by
  rw [node?_put, if_neg hl, if_pos rfl]

theorem node?_put_of_ne (t : FileTree) {l k : Location} (h : l ≠ k) (node : Node) :
    (t.put l node).node? k = t.node? k := by
  rw [node?_put, if_neg h]
  split
  · rename_i hroot
    rw [hroot]
    rfl
  · rfl

theorem current_put (t : FileTree) (l : Location) (node : Node) :
    (t.put l node).current = t.current := rfl

/-! ## Following paths -/

/-- The greatest number of links that a path may lead through. -/
def maxLinks : Nat := 40

/-- Whether a file may have this name. -/
def isName (name : String) : Bool := name.utf8ByteSize ≤ 255

/-- The location at which a path starts that is written in a folder. -/
def startOf (folder : Location) (path : String) : Location :=
  if PathText.isAbsolute path then [] else folder

/-- Follows steps from a location on. At a link, `onLink` goes on with the steps of the link and those
behind it. -/
def followWith (t : FileTree) (onLink : Location → List String → Except PathFault Place)
    (here : Location) : List String → Except PathFault Place
  | [] => .ok (.present here)
  | step :: rest =>
    if !t.isFolderAt here then .error .blocked
    else if PathText.isStay step then t.followWith onLink here rest
    else if step == ".." then t.followWith onLink here.dropLast rest
    else if !isName step then .error .unusable
    else
      match t.node? (here ++ [step]) with
      | none => if rest.isEmpty then .ok (.vacant here step) else .error .missing
      | some (.link target) => onLink (startOf here target) (PathText.steps target ++ rest)
      | some _ => t.followWith onLink (here ++ [step]) rest

/-- Follows steps through no more than the given number of links. -/
def follow (t : FileTree) : Nat → Location → List String → Except PathFault Place
  | 0 => t.followWith fun _ _ => .error .unusable
  | links + 1 => t.followWith (t.follow links)

/-- Whether a path is one that can be followed at all. -/
def isUsable (path : String) : Bool :=
  !PathText.isTooLong path && !path.toList.contains '\x00'

/-- Where a path leads. -/
def resolve (t : FileTree) (path : String) : Except PathFault Place :=
  if !isUsable path then .error .unusable
  else if path == "" then .error .missing
  else t.follow maxLinks (startOf t.current path) (PathText.steps path)

/-- The location of the file or folder that a path leads to. -/
def locate? (t : FileTree) (path : String) : Option Location :=
  match t.resolve path with
  | .ok (.present l) => some l
  | _ => none

/-- Whether a path leads to a folder. -/
def isFolder (t : FileTree) (path : String) : Bool :=
  match t.locate? path with
  | some l => t.isFolderAt l
  | none => false

/-- The content of the file that a path leads to. -/
def readFile? (t : FileTree) (path : String) : Option Content :=
  (t.locate? path).bind t.fileAt?

/-! ## Changing -/

/-- A step on the way to a folder. -/
structure FolderStep where
  /-- The step. -/
  name : String
  /-- Whether the folder that it leads to is made if it is missing. -/
  made : Bool
deriving DecidableEq, Repr

/-- Whether the steps stay where they are, and say so by a dot. -/
def endsInDot (steps : List FolderStep) : Bool :=
  (steps.all fun step => PathText.isStay step.name) && steps.any fun step => step.name == "."

/-- Follows steps from a location on and makes folders on the way. Says whether there is a folder at the
end. At a link, `onLink` goes on with the steps of the link, which make nothing, and those behind it. -/
def makeFoldersWith (onLink : FileTree → Location → List FolderStep → FileTree × Bool)
    (t : FileTree) (here : Location) : List FolderStep → FileTree × Bool
  | [] => (t, t.isFolderAt here)
  | step :: rest =>
    if !t.isFolderAt here then (t, false)
    else if PathText.isStay step.name then makeFoldersWith onLink t here rest
    else if step.name == ".." then makeFoldersWith onLink t here.dropLast rest
    else if !isName step.name then (t, false)
    else
      match t.node? (here ++ [step.name]) with
      | none =>
        if step.made && !endsInDot rest then
          makeFoldersWith onLink (t.put (here ++ [step.name]) .folder) (here ++ [step.name]) rest
        else (t, false)
      | some (.link target) =>
        onLink t (startOf here target) ((PathText.steps target).map (⟨·, false⟩) ++ rest)
      | some _ => makeFoldersWith onLink t (here ++ [step.name]) rest

/-- Follows steps through no more than the given number of links and makes folders on the way. -/
def makeFoldersFrom : Nat → FileTree → Location → List FolderStep → FileTree × Bool
  | 0 => makeFoldersWith fun t _ _ => (t, false)
  | links + 1 => makeFoldersWith (makeFoldersFrom links)

/-- Makes the folder that a path leads to, and all that are missing on the way. There is nothing to do
for the empty path. -/
def makeFolders (t : FileTree) (path : String) : FileTree × Bool :=
  if !isUsable path then (t, false)
  else if path == "" then (t, true)
  else makeFoldersFrom maxLinks t (startOf t.current path) ((PathText.steps path).map (⟨·, true⟩))

/-- Writes a file, a new one or over an old one. -/
def writeFile? (t : FileTree) (path : String) (content : Content) : Option FileTree :=
  match t.resolve path with
  | .ok (.present l) =>
    if t.isFolderAt l then none else some (t.put l (.file content))
  | .ok (.vacant folder name) => some (t.put (folder ++ [name]) (.file content))
  | .error _ => none

/-- Makes a link with the given target, if the place is free. -/
def makeLink? (t : FileTree) (path target : String) : Option FileTree :=
  match t.resolve path with
  | .ok (.vacant folder name) => some (t.put (folder ++ [name]) (.link target))
  | _ => none

/-! ## Listing -/

/-- What is at a location and below it, each with the names that lead to it from there, in the order of a
walk. -/
def nodesBelow (t : FileTree) (l : Location) : List (Location × Node) :=
  t.nodes.toList.filterMap fun (location, node) => (Text.dropStart? l location).map (·, node)

/-- The file at a location, or the files below it, each with the names that lead to it from there, in
the order of a walk. -/
def filesBelow (t : FileTree) (l : Location) : List (Location × Content) :=
  (t.nodesBelow l).filterMap fun (names, node) =>
    match node with
    | .file content => some (names, content)
    | _ => none

end FileTree

end LinkSet
