import LinkSet.Diagnostics
import LinkSet.Names
import LinkSet.TypeDecl

/-!
# The index of a link set

Whether a type can be closed off depends on the types below it, which are spread over the link set.
The index answers the three questions that this raises: which types name a given one as their
superclass or interface, which types a unit declares, and which type a class file path belongs to.

Main statements: which subtypes a name has (`contains_subtypes`), and which types a unit has
(`contains_members`).
-/

namespace LinkSet

/-- What is known of a link set as a whole. -/
structure Index where
  /-- The names of the direct subtypes of each name. -/
  subtypes : NameMultimap
  /-- The names of the types of each unit. -/
  members : NameMultimap
  /-- The type with a given path. -/
  byPath : Std.ExtTreeMap String TypeDecl

namespace Index

/-- Every type with every name under which it can be found from below. -/
def subtypePairs (decls : List TypeDecl) : List (String × String) :=
  decls.flatMap fun d => d.supertypes.map (·, d.name)

/-- Every type with its unit. -/
def memberPairs (decls : List TypeDecl) : List (String × String) :=
  decls.map fun d => (d.unit, d.name)

/-- The index of the given types. If two have the same path, the last one counts. -/
def ofDecls (decls : List TypeDecl) : Index where
  subtypes := NameMultimap.ofPairs (subtypePairs decls)
  members := NameMultimap.ofPairs (memberPairs decls)
  byPath := decls.foldl (fun types d => types.insert d.path d) ∅

/-- Whether a unit declares each of the names. -/
def declaresAll (ix : Index) (unit : String) (names : List String) : Bool :=
  ix.members.containsAll unit names

/-- Whether `owner`, a type of `unit`, may list `candidate` as a permitted subclass. A nested type
never may be listed, a type of the same package always. Any other has to be a public type of the same
unit; if there is none, this is remarked on. -/
def permits (ix : Index) (level : Level) (owner unit candidate : String) : Remarked Bool :=
  if TypeName.isNested candidate then
    pure false
  else if TypeName.package owner = TypeName.package candidate then
    pure true
  else
    match ix.byPath[EntryPath.ofType unit candidate]? with
    | some d => pure d.classFile.isPublic
    | none => do
      level.remark .warning ("Entry " ++ candidate ++ " not found in unit " ++ unit)
      return false

/-- Whether `owner`, a type of `unit`, may list all candidates. They are tried in order, up to the
first that may not be listed. -/
def permitsAll (ix : Index) (level : Level) (owner unit : String) :
    List String → Remarked Bool
  | [] => pure true
  | candidate :: candidates => do
    if ← ix.permits level owner unit candidate then
      ix.permitsAll level owner unit candidates
    else
      return false

theorem contains_subtypes {decls : List TypeDecl} {name sub : String} :
    (ofDecls decls).subtypes.contains name sub = true
      ↔ ∃ d ∈ decls, d.name = sub ∧ name ∈ d.supertypes := by
  simp only [ofDecls, NameMultimap.contains_ofPairs, subtypePairs, List.mem_flatMap, List.mem_map,
    Prod.mk.injEq]
  constructor
  · rintro ⟨d, hd, s, hs, rfl, rfl⟩
    exact ⟨d, hd, rfl, hs⟩
  · rintro ⟨d, hd, rfl, hs⟩
    exact ⟨d, hd, name, hs, rfl, rfl⟩

theorem contains_members {decls : List TypeDecl} {unit name : String} :
    (ofDecls decls).members.contains unit name = true
      ↔ ∃ d ∈ decls, d.unit = unit ∧ d.name = name := by
  simp only [ofDecls, NameMultimap.contains_ofPairs, memberPairs, List.mem_map, Prod.mk.injEq]

end Index

end LinkSet
