import DocIdent.Ledger
import DocIdent.Path

/-!
# File trees

A directory holds files and directories under names (`Node`). The tree that a command works on is
the directory it runs in (`FileTree`); paths are taken from there. Going down a path needs a
directory at each name but the last; what keeps a path from being used is a fault (`FileFault`).

What lies outside of the directory is not part of the tree: a path that is absolute or leads up out
of the directory leads to nothing, whatever is there. A tree has no links and no permissions, every
name in it is a text, and nobody else changes it while a command runs.
-/

namespace DocIdent

/-- A file or directory. -/
inductive Node where
  /-- A file with its bytes. -/
  | file (content : ByteArray)
  /-- A directory with what it holds. -/
  | directory (entries : List (String × Node))
  deriving Inhabited

/-- What keeps a path from being used. -/
inductive FileFault where
  /-- There is nothing of a name. -/
  | missing
  /-- There is a file where a directory is needed. -/
  | notDirectory
  /-- There is a directory where a file is needed. -/
  | isDirectory
  /-- A name or path that no file can have. -/
  | invalidName
  deriving DecidableEq

namespace Node

/-- What is found by going down names. -/
def at? : List String → Node → Option Node
  | [], node => some node
  | name :: names, .directory entries => (entries.lookup name).bind (at? names)
  | _ :: _, .file _ => none

/-- The node with something put where names go down to. Directories on the way are made. -/
def put (new : Node) : List String → Node → Node
  | [], _ => new
  | name :: names, .directory entries =>
    let old := (entries.lookup name).getD (.directory [])
    .directory (Ledger.storeIn name (put new names old) entries)
  | _ :: _, .file content => .file content

/-- The node without what names go down to. -/
def remove : List String → Node → Node
  | [], node => node
  | [name], .directory entries => .directory (entries.filter fun e => e.1 ≠ name)
  | name :: names, .directory entries =>
    .directory (entries.map fun e => if e.1 = name then (e.1, remove names e.2) else e)
  | _ :: _, .file content => .file content

end Node

/-- The directory that paths start from, with what it holds. -/
structure FileTree where
  /-- What the directory holds. -/
  entries : List (String × Node) := []
  deriving Inhabited

/-- A place in a tree: the names from the top of the tree down to it. -/
abbrev Place := List String

namespace FileTree

/-- The directory itself. -/
def top (t : FileTree) : Node :=
  .directory t.entries

/-- The tree of a directory. -/
def ofNode : Node → FileTree
  | .directory entries => ⟨entries⟩
  | .file _ => {}

/-- What stands at a place. -/
def at? (t : FileTree) (place : Place) : Option Node :=
  t.top.at? place

/-- How many bytes a name may have. -/
def nameLimit : Nat := 255

/-- A name that a file can have. -/
def isName (name : String) : Bool :=
  name.utf8ByteSize ≤ nameLimit

/-- The place of a directory reached from another by a name. -/
def enter (t : FileTree) (place : Place) (name : String) : Except FileFault Place :=
  if name = "." then .ok place
  else if name = ".." then
    if place.isEmpty then .error .missing else .ok place.dropLast
  else if !isName name then .error .invalidName
  else
    match t.at? (place ++ [name]) with
    | some (.directory _) => .ok (place ++ [name])
    | some (.file _) => .error .notDirectory
    | none => .error .missing

/-- The place to which a path leads, and whether it can only be that of a directory. All but the
last name are those of directories. -/
def locate (t : FileTree) (p : String) : Except FileFault (Place × Bool) :=
  if !Path.isUsable p then .error .invalidName
  else if p = "" ∨ Path.isAbsolute p then .error .missing
  else
    match (Path.names p).reverse with
    | [] => .error .missing
    | last :: before =>
      if last = "." ∨ last = ".." ∨ p.toList.getLast? = some '/' then
        ((Path.names p).foldlM t.enter []).map fun place => (place, true)
      else do
        let place ← before.reverse.foldlM t.enter []
        if isName last then return (place ++ [last], false) else throw .invalidName

/-- What a path leads to. -/
def find (t : FileTree) (p : String) : Except FileFault Node := do
  let (place, _) ← t.locate p
  match t.at? place with
  | some node => return node
  | none => throw .missing

/-- A path leads to something. -/
def hasPath (t : FileTree) (p : String) : Bool :=
  (t.find p).toOption.isSome

/-- The bytes of the file to which a path leads. -/
def readBytes (t : FileTree) (p : String) : Except FileFault ByteArray := do
  match ← t.find p with
  | .file content => return content
  | .directory _ => throw .isDirectory

/-- The tree with a file put where a path leads; a file that is there gives way. The content is put
there as a whole: a write that fails midway, with the old file emptied already, is not modelled. -/
def write (t : FileTree) (p : String) (content : ByteArray) : Except FileFault FileTree := do
  let (place, directoryOnly) ← t.locate p
  match t.at? place with
  | some (.directory _) => throw .isDirectory
  | _ =>
    if directoryOnly then throw .isDirectory
    else return ofNode (Node.put (.file content) place t.top)

/-- The tree with a directory reached by a name from another made if it is missing, and its
place. -/
def makeStep (t : FileTree) (place : Place) (name : String) :
    Except FileFault (FileTree × Place) :=
  match t.enter place name with
  | .ok place => .ok (t, place)
  | .error .missing =>
    if name = ".." then .error .missing
    else
      let place := place ++ [name]
      .ok (ofNode (Node.put (.directory []) place t.top), place)
  | .error fault => .error fault

/-- The tree with each directory made that is missing on the way along names from a place. What was
made before a fault stays. -/
def makeFrom (t : FileTree) (place : Place) : List String → FileTree × Option FileFault
  | [] => (t, none)
  | name :: names =>
    match t.makeStep place name with
    | .ok (t, place) => makeFrom t place names
    | .error fault => (t, some fault)

/-- The tree with each directory made that is missing on a path. The last name of the path is that
of a directory, a point there is not: what it stands for cannot be made. -/
def makeDirectories (t : FileTree) (p : String) : FileTree × Option FileFault :=
  if !Path.isUsable p then (t, some .invalidName)
  else if Path.isAbsolute p then (t, some .missing)
  else
    match (Path.names p).foldlM t.enter [] with
    | .ok _ => (t, none)
    | .error fault =>
      if (Path.names p).getLast? = some "." then
        ((t.makeFrom [] (Path.parentNames p)).1, some fault)
      else t.makeFrom [] (Path.names p)

/-- The tree without the file to which a path leads. -/
def removeFile (t : FileTree) (p : String) : Except FileFault FileTree := do
  let (place, directoryOnly) ← t.locate p
  match t.at? place with
  | some (.file _) =>
    if directoryOnly then throw .notDirectory else return ofNode (Node.remove place t.top)
  | some (.directory _) => throw .isDirectory
  | none => throw .missing

end FileTree

end DocIdent
