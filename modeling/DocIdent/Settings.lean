import DocIdent.Document.Fields
import DocIdent.Failure
import DocIdent.FileTree
import DocIdent.Toml.Section

/-!
# Settings

The settings of a project stand in a file at its top (`Settings.file`): which files a walk takes,
by the beginnings of their paths, and where the lock is kept (`Settings`). Without the file every
input is taken and the lock is kept under its usual name (`Settings.usual`).
-/

namespace DocIdent

/-- The settings of a project. -/
structure Settings where
  /-- Beginnings of the paths to take; none means all. -/
  included : List String
  /-- Beginnings of the paths not to take. -/
  excluded : List String
  /-- The path of the lock. -/
  lockPath : String

namespace Settings

/-- The name of the file that holds the settings. -/
def file : String := ".dri.toml"

/-- The usual path of the lock. -/
def usualLockPath : String := ".dri.lock"

/-- The settings of a project that says nothing. -/
def usual : Settings := ⟨[], [], usualLockPath⟩

/-- A text begins with another. -/
def begins (beginning s : String) : Bool :=
  beginning.toList.isPrefixOf s.toList

/-- A path is one to take: it begins as one of the included ones, if there are any, and as none of
the excluded ones. -/
def takes (settings : Settings) (path : String) : Bool :=
  (settings.included.isEmpty || settings.included.any (begins · path)) &&
    !settings.excluded.any (begins · path)

/-- The settings of a document. -/
def ofDocument? (d : Document) : Option Settings :=
  let texts := Document.orDefault? [] (·.listOf? Document.text?)
  match d.fields? .toml ["include", "exclude", "lockfile"] with
  | some [included, excluded, lockPath] => do
    return ⟨← texts included, ← texts excluded,
      (← Document.optional? Document.text? lockPath).getD usualLockPath⟩
  | _ => none

end Settings

/-- The text of bytes that are one. -/
def textOfBytes (bytes : ByteArray) : Except Failure String :=
  match String.fromUTF8? bytes with
  | some s => .ok s
  | none => .error (.io "")

/-- The text of the file to which a path leads. -/
def FileTree.readText (t : FileTree) (p : String) : Except Failure String :=
  match t.readBytes p with
  | .ok bytes => textOfBytes bytes
  | .error _ => .error (.io "")

/-- The settings of the project at the top of a tree. -/
def Settings.load (t : FileTree) : Except Failure Settings :=
  match t.readBytes Settings.file with
  | .error .missing => .ok usual
  | _ => do
    let text ← t.readText Settings.file
    match (Toml.read? text).bind ofDocument? with
    | some settings => return settings
    | none => throw (.tomlRead "")

end DocIdent
