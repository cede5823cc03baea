import LinkSet.Bytes

/-!
# Contents of files

A file holds bytes. A jar, a file that packs other files, may also be held as the list of its members,
and then its bytes are found by packing them.
-/

namespace LinkSet

/-- A member of a jar. If its name ends in a slash it stands for a folder. -/
structure Member where
  /-- The name of the member. -/
  name : String
  /-- The content of the member. -/
  content : Bytes
deriving DecidableEq, Repr

/-- A file that packs other files. -/
structure Jar where
  /-- The members, in order. -/
  members : List Member
  /-- Whether the members are compressed. -/
  compressed : Bool := true
deriving DecidableEq, Repr

/-- The content of a file. -/
inductive Content
  /-- The file holds these bytes. -/
  | plain (bytes : Bytes)
  /-- The file is a jar, whose bytes are found by packing its members. -/
  | packed (jar : Jar)
deriving DecidableEq, Repr

end LinkSet
