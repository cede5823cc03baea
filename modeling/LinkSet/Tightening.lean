import LinkSet.ClassFile.Change
import LinkSet.Classification
import LinkSet.Digest.Sha256

/-!
# Tightening a link set

All types of a link set are read and put into one index, then each is decided on and its class file
changed accordingly. The entries keep their order and their paths, and only those whose type is made
final or sealed get a new content.
-/

namespace LinkSet

/-- A changed entry. -/
structure Change where
  /-- The path of the entry. -/
  path : String
  /-- What became of its type. -/
  decision : Decision
  /-- The digest of the new content. -/
  sha256 : String

/-- What comes out of a run. -/
structure Tightened where
  /-- All entries, changed or not. -/
  entries : List Entry
  /-- The changed entries, in order. -/
  changes : List Change
  /-- The counts of all types. -/
  tally : Tally

/-- Why a run fails. -/
inductive TighteningError
  /-- An entry that should declare a type does not. -/
  | decl (cause : DeclError)
  /-- The class file of the entry with this path cannot take the change. -/
  | change (path : String) (cause : ClassFileError)
deriving DecidableEq, Repr

/-- What went wrong, and then its cause if there is another one. -/
def TighteningError.messages : TighteningError → List String
  | .decl cause => cause.messages
  | .change path cause => ["Failed to rewrite class file: " ++ path, cause.message]

namespace Tightening

/-- What comes of one entry. -/
structure Step where
  /-- The entry, changed or not. -/
  entry : Entry
  /-- The change, if there is one. -/
  change : Option Change
  /-- The counts of this entry. -/
  tally : Tally

/-- The type that an entry declares, if it is the class file of one. -/
def declOf? (e : Entry) : Except TighteningError (Option TypeDecl) :=
  if e.isClass then
    match TypeDecl.ofEntry e with
    | .ok d => .ok (some d)
    | .error cause => .error (.decl cause)
  else
    .ok none

/-- The entry with the decision carried out on it. -/
def carryOut (e : Entry) (d : TypeDecl) (decision : Decision) :
    Except TighteningError (Entry × Change) :=
  match d.classFile.apply decision e.content with
  | .ok content => .ok ({ e with content }, ⟨e.path, decision, Sha256.hexDigest content⟩)
  | .error cause => .error (.change e.path cause)

/-- Decides on the type of one entry, and carries the decision out. -/
def step (ix : Index) (settings : Settings) (e : Entry) (decl : Option TypeDecl) :
    ExceptT TighteningError Remarked Step := do
  settings.level.remark .trace ("Analyzing resource " ++ e.path)
  match decl with
  | none => return ⟨e, none, {}⟩
  | some d => do
    let verdict ← Verdict.ofDecl ix settings d
    if verdict.decision.isKeep then
      return ⟨e, none, verdict.tally⟩
    else do
      let (changed, change) ← (carryOut e d verdict.decision : Except _ _)
      return ⟨changed, some change, verdict.tally⟩

/-- Puts the steps of all entries together. -/
def gather (steps : List Step) : Tightened where
  entries := steps.map (·.entry)
  changes := steps.filterMap (·.change)
  tally := (steps.map (·.tally)).foldl Tally.add {}

/-- Tightens a link set. -/
def run (settings : Settings) (entries : List Entry) :
    ExceptT TighteningError Remarked Tightened := do
  let decls ← (entries.mapM declOf? : Except _ _)
  let ix := Index.ofDecls (decls.filterMap id)
  let steps ← (entries.zip decls).mapM fun (e, decl) => step ix settings e decl
  let result := gather steps
  result.tally.report settings.level
  return result

end Tightening

end LinkSet
