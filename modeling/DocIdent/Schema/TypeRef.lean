import DocIdent.Document.Fields
import DocIdent.TypeRef

/-!
# Types as documents

A type is laid out as a record whose `kind` says which of the six it is (`TypeRef.toDocument`). It
is read back from any document that lays one out (`TypeRef.ofDocument?`); the depth of the document
bounds the depth of the type, and with it the reading.
-/

namespace DocIdent.TypeRef

mutual

/-- The document of a type. -/
def toDocument : TypeRef → Document
  | .named name => .record [("kind", .text "class"), ("name", .text name)]
  | .parameter bounds =>
    .record [("kind", .text "type_param"), ("bounds", .list (toDocuments bounds))]
  | .applied name arguments =>
    .record [("kind", .text "constructor"), ("fully_qualified_name", .text name),
      ("params", .list (toDocuments arguments))]
  | .recursive rank => .record [("kind", .text "recursive"), ("rank", .word rank)]
  | .nullable wrapped => .record [("kind", .text "nullable"), ("wrapped", toDocument wrapped)]
  | .star => .record [("kind", .text "star")]

/-- The document of each type. -/
def toDocuments : List TypeRef → List Document
  | [] => []
  | t :: ts => toDocument t :: toDocuments ts

end

/-- The documents of types are the documents of each, in order. -/
theorem toDocuments_eq_map (ts : List TypeRef) : toDocuments ts = ts.map toDocument := by
  induction ts with
  | nil => rfl
  | cons t ts ih => simp [toDocuments, ih]

/-- The six kinds of types. -/
def variants : List Document.Variant :=
  [⟨"class", ["name"]⟩, ⟨"type_param", ["bounds"]⟩,
    ⟨"constructor", ["fully_qualified_name", "params"]⟩, ⟨"recursive", ["rank"]⟩,
    ⟨"nullable", ["wrapped"]⟩, ⟨"star", []⟩]

/-- The type of a document, if it nests less than `bound` deep. -/
def ofDocumentWithin? (dialect : Dialect) : Nat → Bool → Document → Option TypeRef
  | 0, _, _ => none
  | bound + 1, nested, d => do
    let inner := ofDocumentWithin? dialect bound true
    let (kind, values) ← d.variant? dialect nested variants
    match kind, values with
    | "class", [some name] => name.text?.map .named
    | "type_param", [some bounds] => (bounds.listOf? inner).map .parameter
    | "constructor", [some name, arguments] =>
      return .applied (← name.text?) (← Document.orDefault? [] (·.listOf? inner) arguments)
    | "recursive", [some rank] => rank.word?.map .recursive
    | "nullable", [some wrapped] => (inner wrapped).map .nullable
    | "star", _ => some .star
    | _, _ => none

/-- The type of a document. -/
def ofDocument? (dialect : Dialect) (d : Document) : Option TypeRef :=
  ofDocumentWithin? dialect (d.depth + 1) false d

end DocIdent.TypeRef
