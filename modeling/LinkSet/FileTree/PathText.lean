import LinkSet.Text.Pieces

/-!
# Paths of files, as texts

A path is a sequence of steps between slashes. An empty step and the step `.` stay where they are, the
step `..` goes up, any other step goes down to what has that name. A path that starts with a slash
starts at the root, any other at the current folder.

Here paths are only looked at as texts: what their last name is, what stem and extension it has, how
paths are put together and taken apart, and whether they are short enough to be followed.
-/

namespace LinkSet.PathText

/-- The steps of a path. -/
def steps (path : String) : List String := (Text.pieces '/' path.toList).map String.ofList

/-- Whether the path starts at the root. -/
def isAbsolute (path : String) : Bool := path.toList.head? == some '/'

/-- Whether the step stays where it is. -/
def isStay (step : String) : Bool := step == "" || step == "."

/-- The most bytes that a path may have to be followed. -/
def maxBytes : Nat := 4095

/-- Whether the path has too many bytes to be followed. -/
def isTooLong (path : String) : Bool := maxBytes < path.utf8ByteSize

/-- The name at the end of a path, unless the path ends by going up or has no name. -/
def fileName? (path : String) : Option String :=
  match ((steps path).filter fun step => !isStay step).getLast? with
  | some ".." => none
  | name => name

/-- The stem and the extension of a name, which are what stands before and behind its last dot. A dot
at the start of the name does not count. -/
def splitName (name : String) : String × Option String :=
  match Text.cutLast? '.' name.toList with
  | some (stem, extension) =>
    if stem = [] then (name, none) else (String.ofList stem, some (String.ofList extension))
  | none => (name, none)

/-- The stem of the name at the end of a path. -/
def stem? (path : String) : Option String :=
  (fileName? path).map fun name => (splitName name).1

/-- The extension of the name at the end of a path. -/
def extension? (path : String) : Option String :=
  (fileName? path).bind fun name => (splitName name).2

/-- The path `rest`, taken from `base` on. There is a slash between them unless `base` is empty or
ends in one. An absolute path is not changed. -/
def join (base rest : String) : String :=
  if isAbsolute rest then rest
  else if base == "" || base.toList.getLast? == some '/' then base ++ rest
  else base ++ "/" ++ rest

/-- The steps of a path in reverse, without those at the end that stay where they are. The first step
of a path is kept in any case. -/
def trimSteps : List String → List String
  | [] => []
  | [first] => [first]
  | step :: rest => if isStay step then trimSteps rest else step :: rest

/-- The path without its last step, if it has one. -/
def parent? (path : String) : Option String :=
  match trimSteps (steps path).reverse with
  | [] => none
  | [""] => none
  | _ :: rest =>
    match trimSteps rest with
    | [""] => some "/"
    | kept => some (String.intercalate "/" kept.reverse)

end LinkSet.PathText
