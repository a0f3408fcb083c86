import DocIdent.FileTree.Walk
import DocIdent.Json.Reader
import DocIdent.Schema.Identifier
import DocIdent.Settings

/-!
# Inputs

Identifiers come from files: a TOML file lists them as tables, a JSON file as a list
(`Inputs.ofBytes`). An input is such a file or a directory, and a directory stands for the files
below it that may hold identifiers (`Inputs.isCandidate`), in the order of a walk (`Inputs.load`).
-/

namespace DocIdent.Inputs

/-- The identifiers of a document that a TOML file holds. -/
def identifiersOfTable? (d : Document) : Option (List Identifier) :=
  match d.fields? .toml ["dri"] with
  | some [identifiers] =>
    Document.orDefault? [] (Identifier.listOfDocument? .toml) identifiers
  | _ => none

/-- The identifiers in the bytes of the file at a path. The extension tells the notation. -/
def ofBytes (path : String) (bytes : ByteArray) : Except Failure (List Identifier) := do
  let text ← textOfBytes bytes
  match Path.extension? path with
  | some "toml" =>
    match (Toml.read? text).bind identifiersOfTable? with
    | some ds => return ds
    | none => throw (.tomlRead "")
  | some "json" =>
    match (Json.read? text).bind (Identifier.listOfDocument? .json) with
    | some ds => return ds
    | none => throw (.json "")
  | _ => throw (.unsupportedInput path)

/-- The identifiers in a file that a walk found at a path. -/
def ofFile (file : String × ByteArray) : Except Failure (List Identifier) :=
  if Path.isUsable file.1 then ofBytes file.1 file.2 else .error (.io "")

/-- The path has an extension of files that hold identifiers. -/
def hasInputExtension (path : String) : Bool :=
  Path.extension? path = some "toml" || Path.extension? path = some "json"

/-- A file that a walk takes: it has the right extension, it is neither the settings nor the lock,
and the settings take its path. -/
def isCandidate (settings : Settings) (path : String) : Bool :=
  hasInputExtension path && Path.fileName? path ≠ some Settings.file &&
    Path.steps path ≠ Path.steps (Path.join "." settings.lockPath) &&
    settings.takes (Path.relative path)

/-- The files that an input directory stands for, with their paths. -/
def candidates (settings : Settings) (path : String) (directory : Node) :
    List (String × ByteArray) :=
  (directory.files path).filter fun f => isCandidate settings f.1

/-- The identifiers of an input. -/
def load (t : FileTree) (settings : Settings) (path : String) :
    Except Failure (List Identifier) :=
  match t.find path with
  | .error _ => .error (.fileNotFound path)
  | .ok (.file bytes) => ofBytes path bytes
  | .ok directory =>
    ((candidates settings path directory).mapM ofFile).map List.flatten

end DocIdent.Inputs
