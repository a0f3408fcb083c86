import DocIdent.FileTree
import DocIdent.Text.Order

/-!
# Walks

A walk lists the files below a directory with their paths (`Node.files`): what a directory holds is
visited in the order of the names' bytes, and a directory is visited where its name stands among
them. A directory whose path is too long to be followed is passed over.
-/

namespace DocIdent.Node

/-- Named parts in the order of their names. -/
def sortByName {α : Type} (parts : List (String × α)) : List (String × α) :=
  parts.mergeSort fun a b => Text.notAfter a.1 b.1

mutual

/-- The files of a node that a path leads to, each with its path. -/
def files (path : String) : Node → List (String × ByteArray)
  | .file content => [(path, content)]
  | .directory entries =>
    if Path.isUsable path then (sortByName (filesOfEntries path entries)).flatMap (·.2) else []

/-- The files of each entry of a directory that a path leads to, by the entry's name. -/
def filesOfEntries (path : String) :
    List (String × Node) → List (String × List (String × ByteArray))
  | [] => []
  | (name, node) :: entries =>
    (name, files (Path.join path name) node) :: filesOfEntries path entries

end

/-- Each entry brings its files under its own name. -/
theorem filesOfEntries_eq_map (path : String) (es : List (String × Node)) :
    filesOfEntries path es = es.map fun e => (e.1, files (Path.join path e.1) e.2) := by
  induction es with
  | nil => rfl
  | cons e es ih => simp [filesOfEntries, ih]

end DocIdent.Node
