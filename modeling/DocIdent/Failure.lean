import DocIdent.Identifier.Description
import DocIdent.Lock

/-!
# Failures

What can go wrong (`Failure`), and what is said about it in one line (`Failure.message`). Where the
cause lies in a text that was to be read or in the file system, the failure carries the account of
whoever met it.
-/

namespace DocIdent

/-- Why an identifier cannot serve. -/
inductive Malformation where
  /-- Its metadata cannot be read or changed. -/
  | metadata (fault : Metadata.Fault)
  /-- It has no class path where one is needed. -/
  | classPathRequired (d : Identifier)
  /-- Something else, in the words of whoever found it. -/
  | stated (reason : String)

/-- What can go wrong. -/
inductive Failure where
  /-- Two different identifiers have one key. -/
  | collision (c : Collision)
  /-- An input does not exist. -/
  | fileNotFound (path : String)
  /-- A file cannot be read or written. -/
  | io (account : String)
  /-- A text is not the JSON that was expected. -/
  | json (account : String)
  /-- A lock has its entries in the wrong order. -/
  | lockCorrupt (corruption : Lock.Corruption)
  /-- The lock does not exist. -/
  | lockNotFound (path : String)
  /-- An identifier cannot serve. -/
  | malformed (malformation : Malformation)
  /-- A text is not the TOML that was expected. -/
  | tomlRead (account : String)
  /-- A value cannot be written as TOML. -/
  | tomlWrite (account : String)
  /-- An input is of a kind that holds no identifiers. -/
  | unsupportedInput (path : String)
  deriving Inhabited

/-- Why the identifier cannot serve, in words. -/
def Malformation.message : Malformation → String
  | .metadata fault => fault.message
  | .classPathRequired d => "`" ++ d.key ++ "` requires class names in this context"
  | .stated reason => reason

/-- What a collision says: the key, and both identifiers in full. -/
def Collision.message (c : Collision) : String :=
  "canonical collision on `" ++ c.key ++ "`: " ++ c.first.description ++ " and " ++
    c.second.description

/-- What went wrong, in one line. -/
def Failure.message : Failure → String
  | .collision c => c.message
  | .fileNotFound path => "file not found: " ++ path
  | .io account => "io: " ++ account
  | .json account => "json: " ++ account
  | .lockCorrupt corruption => "lockfile corrupt: " ++ corruption.message
  | .lockNotFound path => "lockfile not found: " ++ path
  | .malformed malformation => "malformed DRI: " ++ malformation.message
  | .tomlRead account => "toml deserialize: " ++ account
  | .tomlWrite account => "toml serialize: " ++ account
  | .unsupportedInput path => "unsupported input: " ++ path

/-- The class path of an identifier, where one is needed. -/
def Identifier.requiredClassPath (d : Identifier) : Except Failure String :=
  match d.classPath with
  | some path => .ok path
  | none => .error (.malformed (.classPathRequired d))

end DocIdent
