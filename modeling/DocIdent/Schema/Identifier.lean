import DocIdent.Lock
import DocIdent.Schema.TypeRef

/-!
# Identifiers and locks as documents

The layout of targets, callables, identifiers, lock entries and locks as documents, and the reading
of each from a document. Absent parts of an identifier are left out, and so is the target that is
the declaration itself. An optional text that stands empty is read as absent.
-/

namespace DocIdent

namespace Target

/-- The document of a target. -/
def toDocument : Target → Document
  | declaration => .record [("kind", .text "declaration")]
  | genericParameter index =>
    .record [("kind", .text "generic_parameter"), ("index", .word index)]
  | callableParameter index =>
    .record [("kind", .text "callable_parameter"), ("index", .word index)]

/-- The three kinds of targets. -/
def variants : List Document.Variant :=
  [⟨"declaration", []⟩, ⟨"generic_parameter", ["index"]⟩, ⟨"callable_parameter", ["index"]⟩]

/-- The target of a document. -/
def ofDocument? (dialect : Dialect) (d : Document) : Option Target := do
  let (kind, values) ← d.variant? dialect false variants
  match kind, values with
  | "declaration", _ => some declaration
  | "generic_parameter", [some index] => index.word?.map genericParameter
  | "callable_parameter", [some index] => index.word?.map callableParameter
  | _, _ => none

end Target

namespace Callable

/-- The document of a callable. -/
def toDocument (c : Callable) : Document :=
  .record (Document.field "name" (.text c.name) ++
    Document.optionalField "receiver" (c.receiver.map TypeRef.toDocument) ++
    Document.field "params" (.list (TypeRef.toDocuments c.parameters)))

/-- The callable of a document. -/
def ofDocument? (dialect : Dialect) (d : Document) : Option Callable :=
  match d.fields? dialect ["name", "receiver", "params"] with
  | some [some name, receiver, parameters] => do
    return {
      name := ← name.text?
      receiver := ← Document.optional? (TypeRef.ofDocument? dialect) receiver
      parameters :=
        ← Document.orDefault? [] (·.listOf? (TypeRef.ofDocument? dialect)) parameters }
  | _ => none

end Callable

namespace Identifier

/-- The document of an optional text. -/
def textDocument (s : Option String) : Option Document :=
  s.map .text

/-- The document of an identifier. -/
def toDocument (d : Identifier) : Document :=
  .record (Document.optionalField "package_name" (textDocument d.package) ++
    Document.optionalField "class_names" (textDocument d.classPath) ++
    Document.optionalField "extra" (textDocument d.metadata) ++
    Document.optionalField "callable" (d.callable.map Callable.toDocument) ++
    Document.optionalField "target"
      (if d.target.isDeclaration then none else some d.target.toDocument))

/-- The optional text of a field; the empty text is absent. -/
def presentText? (d : Option Document) : Option (Option String) :=
  (Document.optional? Document.text? d).map (·.bind present)

/-- The identifier of a document. -/
def ofDocument? (dialect : Dialect) (d : Document) : Option Identifier :=
  match d.fields? dialect ["package_name", "class_names", "extra", "callable", "target"] with
  | some [package, classPath, metadata, callable, target] => do
    return {
      package := ← presentText? package
      classPath := ← presentText? classPath
      metadata := ← presentText? metadata
      callable := ← Document.optional? (Callable.ofDocument? dialect) callable
      target := ← Document.orDefault? .declaration (Target.ofDocument? dialect) target }
  | _ => none

/-- The document of a list of identifiers. -/
def listOfDocument? (dialect : Dialect) (d : Document) : Option (List Identifier) :=
  d.listOf? (ofDocument? dialect)

end Identifier

namespace LockEntry

/-- The document of a lock entry. -/
def toDocument (e : LockEntry) : Document :=
  .record [("key", .text e.key), ("dri", e.identifier.toDocument)]

/-- The lock entry of a document. -/
def ofDocument? (dialect : Dialect) (d : Document) : Option LockEntry :=
  match d.fields? dialect ["key", "dri"] with
  | some [some key, some identifier] => do
    return ⟨← key.text?, ← Identifier.ofDocument? dialect identifier⟩
  | _ => none

end LockEntry

namespace Lock

/-- The document of a lock. -/
def toDocument (lock : Lock) : Document :=
  .record [("entries", .list (lock.entries.map LockEntry.toDocument))]

/-- The lock entries of a document, in whatever order. -/
def entriesOfDocument? (dialect : Dialect) (d : Document) : Option (List LockEntry) :=
  match d.fields? dialect ["entries"] with
  | some [some entries] => entries.listOf? (LockEntry.ofDocument? dialect)
  | _ => none

end Lock

end DocIdent
