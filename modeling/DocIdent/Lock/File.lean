import DocIdent.Schema.Identifier
import DocIdent.Settings

/-!
# Lock files

A lock is kept as a TOML text (`Lock.serialize`) and read back from one (`Lock.parse`), in a file of
the tree that a command works on (`Lock.load`, `Lock.save`).
-/

namespace DocIdent.Lock

/-- The text of a lock. -/
def serialize (lock : Lock) : String :=
  Toml.write lock.toDocument

/-- The lock of a text. -/
def parse (text : String) : Except Failure Lock :=
  match (Toml.read? text).bind (entriesOfDocument? .toml) with
  | none => .error (.tomlRead "")
  | some entries => (ofEntries entries).mapError .lockCorrupt

/-- The lock in the file to which a path leads. -/
def load (t : FileTree) (path : String) : Except Failure Lock :=
  match t.readBytes path with
  | .error .missing => .error (.lockNotFound path)
  | _ => do parse (← t.readText path)

/-- The tree with a lock put into the file to which a path leads. -/
def save (t : FileTree) (path : String) (lock : Lock) : Except Failure FileTree :=
  (t.write path lock.serialize.toUTF8).mapError fun _ => .io ""

end DocIdent.Lock
