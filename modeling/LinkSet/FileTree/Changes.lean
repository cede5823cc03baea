import LinkSet.FileTree.Basic
import LinkSet.Zip.Container

/-!
# Changes of file trees

What a program leaves behind is told by the folders that are new, and by the files that are new or have
other bytes than before. A file that is written again with the bytes that it had does not count.
-/

namespace LinkSet

/-- Whether two contents are the same bytes. -/
def Content.isSame (a b : Content) : Bool := a == b || a.toBytes == b.toBytes

namespace FileTree

/-- The files below the current folder that are not in an earlier tree with the same bytes, each with
the names that lead to it from the current folder. -/
def changedSince (earlier later : FileTree) : List (Location × Content) :=
  (later.filesBelow later.current).filter fun (names, content) =>
    !((earlier.fileAt? (later.current ++ names)).any content.isSame)

/-- The folders that are not in an earlier tree, outer ones first. -/
def newFolders (earlier later : FileTree) : List Location :=
  later.nodes.toList.filterMap fun (location, node) =>
    if node == .folder && !earlier.isFolderAt location then some location else none

end FileTree

end LinkSet
