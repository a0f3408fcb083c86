import DocIdent.Callable
import DocIdent.Metadata
import DocIdent.Target
import DocIdent.Text.Blank
import DocIdent.Text.Lines

/-!
# Identifiers

An identifier addresses one documentable element, whatever platform it was found on (`Identifier`):
a package, a dotted path of nested classes, a callable, a part of the declaration, and metadata. Its
canonical text is its key (`Identifier.key`). An optional text that is given empty counts as absent
(`Identifier.present`), since a key cannot tell the two apart; an identifier that keeps to this is
well formed (`Identifier.WellFormed`).
-/

namespace DocIdent

/-- The address of a documentable element. -/
structure Identifier where
  /-- The dotted path of the package. -/
  package : Option String := none
  /-- The dotted path of nested classes within the package. -/
  classPath : Option String := none
  /-- The metadata blob. -/
  metadata : Option String := none
  /-- The function or property within the class or the package. -/
  callable : Option Callable := none
  /-- The part of the declaration. -/
  target : Target := .declaration
  deriving DecidableEq, Inhabited

namespace Identifier

/-- A text that is there unless it is empty. -/
def present (s : String) : Option String :=
  if s = "" then none else some s

/-- What is present is not empty. -/
theorem present_ne_some_empty (s : String) : present s ≠ some "" := by
  unfold present
  split
  · simp
  · simpa using ‹_›

/-- No optional text of the identifier is there but empty. -/
structure WellFormed (d : Identifier) : Prop where
  package : d.package ≠ some ""
  classPath : d.classPath ≠ some ""
  metadata : d.metadata ≠ some ""

/-- The identifier that has nothing: the root of every chain of enclosing elements. -/
def root : Identifier := {}

/-- The identifier is the root. -/
def isRoot (d : Identifier) : Bool :=
  d = root

/-- The identifier in another package; the empty name is none. -/
def withPackage (d : Identifier) (name : String) : Identifier :=
  { d with package := present name }

/-- The identifier with another class path; the empty path is none. -/
def withClassPath (d : Identifier) (path : Option String) : Identifier :=
  { d with classPath := path.bind present }

/-- The class path with one more class inside. A blank path is replaced, not extended. -/
def nestedPath (path : Option String) (name : String) : String :=
  match path with
  | some outer => if Text.isBlankText outer.toList then name else outer ++ "." ++ name
  | none => name

/-- The identifier of a class nested in the innermost class. -/
def withClass (d : Identifier) (name : String) : Identifier :=
  d.withClassPath (some (nestedPath d.classPath name))

/-- The identifier with another callable. -/
def withCallable (d : Identifier) (callable : Option Callable) : Identifier :=
  { d with callable }

/-- The identifier of another part of the declaration. -/
def withTarget (d : Identifier) (target : Target) : Identifier :=
  { d with target }

/-- The identifier of the declaration itself. -/
def ofDeclaration (d : Identifier) : Identifier :=
  d.withTarget .declaration

/-- The identifier with another metadata blob, whether well formed or not; the empty blob is
none. -/
def withMetadata (d : Identifier) (blob : Option String) : Identifier :=
  { d with metadata := blob.bind present }

/-- The identifier of a package, or of a class in it. -/
def declared (package : String) (classPath : Option String) : Identifier :=
  (root.withPackage package).withClassPath classPath

/-- The identifier of the unit type. -/
def unit : Identifier := declared "kotlin" (some "Unit")

/-- The identifier of the top type. -/
def any : Identifier := declared "kotlin" (some "Any")

/-- The facts of the identifier's metadata. -/
def facts (d : Identifier) : Except Metadata.Fault Metadata :=
  Metadata.read d.metadata

/-- The value of one fact, if the metadata has it. -/
def fact? {α : Type} (d : Identifier) (p : Property α) : Except Metadata.Fault (Option α) :=
  d.facts.map (·.value? p)

/-- The identifier with one fact set. -/
def withFact {α : Type} (d : Identifier) (p : Property α) (a : α) :
    Except Metadata.Fault Identifier := do
  let facts ← d.facts
  let facts ← facts.set p a
  return { d with metadata := facts.blob }

/-- The characters of an optional text; an absent one has none. -/
def optionalChars (s : Option String) : List Char :=
  (s.getD "").toList

/-- The characters of the identifier's key. -/
def keyChars (d : Identifier) : List Char :=
  let name := match d.callable with
    | some c => c.name.toList
    | none => []
  let signature := match d.callable with
    | some c => c.signatureChars
    | none => []
  optionalChars d.package ++ '/' :: optionalChars d.classPath ++ '/' :: name ++
    '/' :: signature ++ '/' :: d.target.chars ++ '/' :: optionalChars d.metadata

/-- The identifier's canonical text: package, class path, callable name, signature, target and
metadata, with a slash between any two. What is absent leaves its place empty. -/
def key (d : Identifier) : String :=
  String.ofList d.keyChars

end Identifier

end DocIdent
