import LinkSet.ClassFile.Basic
import LinkSet.Entry

/-!
# Declared types

A type of a link set is declared by the class file of an entry. Its unit and its name come from the
path of the entry, all else from the class file.
-/

namespace LinkSet

/-- A type, where it is declared and what its class file says. -/
structure TypeDecl where
  /-- The path of the entry. -/
  path : String
  /-- The unit that the type belongs to. -/
  unit : String
  /-- The name of the type. -/
  name : String
  /-- The class file of the type. -/
  classFile : ClassFile
deriving DecidableEq, Repr

/-- Why an entry declares no type. -/
inductive DeclError
  /-- Its path is not the path of a type. -/
  | path (cause : PathError)
  /-- The content of the entry with this path is no class file. -/
  | classFile (entry : String) (cause : ClassFileError)
deriving DecidableEq, Repr

/-- What went wrong, and then its cause if there is another one. -/
def DeclError.messages : DeclError → List String
  | .path cause => [cause.message]
  | .classFile entry cause => ["Failed to parse class file: " ++ entry, cause.message]

/-- The names under which a type can be found from below: its superclass and its interfaces. -/
def TypeDecl.supertypes (d : TypeDecl) : List String :=
  d.classFile.superName.toList ++ d.classFile.interfaces

/-- The type that an entry declares. -/
def TypeDecl.ofEntry (e : Entry) : Except DeclError TypeDecl := do
  let unit ← (EntryPath.unit e.path).mapError DeclError.path
  let name ← (EntryPath.typeName e.path).mapError DeclError.path
  let classFile ← (ClassFile.parse e.content).mapError (DeclError.classFile e.path)
  return { path := e.path, unit, name, classFile }

end LinkSet
