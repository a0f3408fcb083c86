import DocIdent.Element
import DocIdent.Schema.Identifier

/-!
# Elements and modules as documents

The layout of elements, platforms and modules as documents, and the reading of each from a document.
A kind or a platform is a word; it may also be written as a record that has nothing under this word.
-/

namespace DocIdent

/-- The word of a document that is one. -/
def Document.unitWord? : Document → Option String
  | .text word => some word
  | .record [(word, .null)] => some word
  | _ => none

namespace Element

/-- The kinds with their words. -/
def Kind.words : List (String × Kind) :=
  [("package", .package), ("class", .ordinaryClass), ("enum", .enumClass),
    ("enum_entry", .enumEntry), ("function", .function), ("property", .property),
    ("type_parameter", .typeParameter), ("parameter", .parameter)]

/-- The word of a kind. -/
def Kind.word : Kind → String
  | .package => "package"
  | .ordinaryClass => "class"
  | .enumClass => "enum"
  | .enumEntry => "enum_entry"
  | .function => "function"
  | .property => "property"
  | .typeParameter => "type_parameter"
  | .parameter => "parameter"

/-- The kind of a document. -/
def Kind.ofDocument? (d : Document) : Option Kind := do
  Kind.words.lookup (← d.unitWord?)

mutual

/-- The document of an element. -/
def toDocument : Element → Document
  | mk d name kind children =>
    .record [("dri", d.toDocument), ("name", .text name), ("kind", .text kind.word),
      ("children", .list (toDocuments children))]

/-- The document of each element. -/
def toDocuments : List Element → List Document
  | [] => []
  | e :: es => toDocument e :: toDocuments es

end

/-- The documents of elements are the documents of each, in order. -/
theorem toDocuments_eq_map (es : List Element) : toDocuments es = es.map toDocument := by
  induction es with
  | nil => rfl
  | cons e es ih => simp [toDocuments, ih]

/-- The element of a document, if it nests less than `bound` deep. -/
def ofDocumentWithin? (dialect : Dialect) : Nat → Document → Option Element
  | 0, _ => none
  | bound + 1, d =>
    match d.fields? dialect ["dri", "name", "kind", "children"] with
    | some [some identifier, some name, some kind, children] => do
      return mk (← Identifier.ofDocument? dialect identifier) (← name.text?)
        (← Kind.ofDocument? kind)
        (← Document.orDefault? [] (·.listOf? (ofDocumentWithin? dialect bound)) children)
    | _ => none

/-- The element of a document. -/
def ofDocument? (dialect : Dialect) (d : Document) : Option Element :=
  ofDocumentWithin? dialect (d.depth + 1) d

end Element

namespace Platform

/-- The platforms with their words. -/
def words : List (String × Platform) :=
  [("common", .common), ("jvm", .jvm), ("js", .js), ("native", .native)]

/-- The word of a platform. -/
def word : Platform → String
  | .common => "common"
  | .jvm => "jvm"
  | .js => "js"
  | .native => "native"

/-- The platform of a document. -/
def ofDocument? (d : Document) : Option Platform := do
  words.lookup (← d.unitWord?)

end Platform

namespace PlatformData

/-- The document of what a module was made for. -/
def toDocument (p : PlatformData) : Document :=
  .record [("platform", .text p.platform.word), ("targets", .list (p.targets.map .text))]

/-- What a document says that a module was made for. -/
def ofDocument? (dialect : Dialect) (d : Document) : Option PlatformData :=
  match d.fields? dialect ["platform", "targets"] with
  | some [some platform, some targets] => do
    return ⟨← Platform.ofDocument? platform, ← targets.listOf? Document.text?⟩
  | _ => none

end PlatformData

namespace Module

/-- The document of a module. -/
def toDocument (m : Module) : Document :=
  .record [("name", .text m.name), ("platform_data", m.platformData.toDocument),
    ("packages", .list (Element.toDocuments m.packages))]

/-- The module of a document. -/
def ofDocument? (dialect : Dialect) (d : Document) : Option Module :=
  match d.fields? dialect ["name", "platform_data", "packages"] with
  | some [some name, some platformData, some packages] => do
    return ⟨← name.text?, ← PlatformData.ofDocument? dialect platformData,
      ← packages.listOf? (Element.ofDocument? dialect)⟩
  | _ => none

end Module

end DocIdent
