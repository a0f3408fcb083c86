import DocIdent.Text.Lines

/-!
# Paths

A path is a text; slashes divide it into names. Two paths that differ only in doubled or trailing
slashes, or in points that mean the directory they stand in, take the same steps (`Path.steps`) and
count as the same. A point at the very beginning is a step of its own, so a path with it and the
path without it differ.
-/

namespace DocIdent.Path

/-- A step of a path. -/
inductive Step where
  /-- To the root of all files. -/
  | root
  /-- To where the path begins. -/
  | here
  /-- To the enclosing directory. -/
  | up
  /-- To what has a name. -/
  | down (name : String)
  deriving DecidableEq

/-- The names between the slashes of a path, empty ones left out. -/
def names (p : String) : List String :=
  ((p.toList.splitOn '/').filter (!·.isEmpty)).map String.ofList

/-- The path begins at the root of all files. -/
def isAbsolute (p : String) : Bool :=
  p.toList.head? = some '/'

/-- How many bytes a path may have. -/
def limit : Nat := 4095

/-- A path that can be followed: it is not too long and has no null character. -/
def isUsable (p : String) : Bool :=
  p.utf8ByteSize ≤ limit && !p.toList.contains '\x00'

/-- The steps of names after the beginning of a path. A point is none. -/
def stepsOfNames (names : List String) : List Step :=
  names.filterMap fun name =>
    if name = "." then none else if name = ".." then some .up else some (.down name)

/-- The steps of a path. -/
def steps (p : String) : List Step :=
  if isAbsolute p then .root :: stepsOfNames (names p)
  else
    match names p with
    | "." :: rest => .here :: stepsOfNames rest
    | rest => stepsOfNames rest

/-- A path inside another. -/
def join (p q : String) : String :=
  if isAbsolute q then q
  else if p = "" ∨ p.toList.getLast? = some '/' then p ++ q
  else p ++ "/" ++ q

/-- Names without the points at their end. -/
def withoutPoints (names : List String) : List String :=
  (names.reverse.dropWhile (· = ".")).reverse

/-- The names of a path before the last that is not a point. -/
def parentNames (p : String) : List String :=
  withoutPoints (withoutPoints (names p)).dropLast

/-- The path of the directory in which the end of a path stands. -/
def parent (p : String) : String :=
  "/".intercalate (parentNames p)

/-- The name at the end of a path, if it ends in one. -/
def fileName? (p : String) : Option String :=
  match (steps p).getLast? with
  | some (.down name) => some name
  | _ => none

/-- What stands after the last point of a name, unless the name has no other beginning. -/
def extensionOfName? (name : String) : Option String :=
  match Text.beforeLast '.' name.toList with
  | none | some [] => none
  | some head => some (String.ofList (name.toList.drop (head.length + 1)))

/-- The extension of the name at the end of a path. -/
def extension? (p : String) : Option String :=
  (fileName? p).bind extensionOfName?

/-- What follows slashes and points at the beginning of the rest of a path. -/
def trimStart : List Char → List Char
  | '/' :: cs => trimStart cs
  | '.' :: '/' :: cs => trimStart cs
  | ['.'] => []
  | cs => cs

/-- The path without the point at its very beginning. -/
def relative (p : String) : String :=
  match p.toList with
  | ['.'] => ""
  | '.' :: '/' :: cs => String.ofList (trimStart cs)
  | _ => p

end DocIdent.Path
