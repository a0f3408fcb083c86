import DocIdent.Document

/-!
# Reading documents

How values are read from documents, whatever the notation. A record of a known kind takes its fields
by name: a known field stands at most once, and unknown ones are passed over. It may also be written
as the list of its fields in their order, where only fields at the end may be missing
(`Document.fields?`). A value of one of several variants is a record whose field `kind` names the
variant, or a list that begins with the name (`Document.variant?`). Such a value is readable as a
whole, what is passed over in it included, since the variant is found before anything is passed
over. The notations differ in two points (`Dialect`).
-/

namespace DocIdent

/-- The points in which notations differ. -/
structure Dialect where
  /-- A list of fields may go on after the last field. -/
  surplusAllowed : Bool
  /-- The variant of a nested value may be given by its position among the variants. -/
  variantByPosition : Bool

/-- JSON. -/
def Dialect.json : Dialect := ⟨false, true⟩

/-- TOML. -/
def Dialect.toml : Dialect := ⟨true, false⟩

namespace Document

/-- The value of a field, if it stands at all, unless it stands twice. -/
def uniqueField? (name : String) (fields : List (String × Document)) : Option (Option Document) :=
  match fields.filter (·.1 = name) with
  | [] => some none
  | [(_, d)] => some (some d)
  | _ => none

/-- The values of the named fields of a record. -/
def namedFields? (names : List String) (fields : List (String × Document)) :
    Option (List (Option Document)) :=
  names.mapM (uniqueField? · fields)

/-- The values of fields that are listed in order; those at the end may be missing. -/
def listedFields? (surplusAllowed : Bool) (names : List String) (items : List Document) :
    Option (List (Option Document)) :=
  if surplusAllowed || items.length ≤ names.length then
    some ((List.range names.length).map (items[·]?))
  else none

/-- The values of a record's fields, each of which may be missing. -/
def fields? (dialect : Dialect) (names : List String) : Document → Option (List (Option Document))
  | .record fields => namedFields? names fields
  | .list items => listedFields? dialect.surplusAllowed names items
  | _ => none

/-- A variant: its name and the names of its fields. A variant without fields accepts any. -/
structure Variant where
  /-- The name. -/
  name : String
  /-- The names of the fields, in order. -/
  fields : List String

/-- The variant that a tag names, by its position where that is allowed. -/
def taggedVariant? (byPosition : Bool) (variants : List Variant) : Document → Option Variant
  | .text name => variants.find? (·.name = name)
  | .int i => if byPosition ∧ 0 ≤ i then variants[i.toNat]? else none
  | _ => none

/-- The name of a value's variant, and the values of the variant's fields. The variant may be given
by its position if the value is nested in another of several variants and the notation has this. -/
def variant? (dialect : Dialect) (nested : Bool) (variants : List Variant) (d : Document) :
    Option (String × List (Option Document)) :=
  if !d.isReadable then none
  else
    let byPosition := dialect.variantByPosition && nested
    match d with
    | .record fields => do
      let tag ← (← uniqueField? "kind" fields)
      let variant ← taggedVariant? byPosition variants tag
      let values ← namedFields? variant.fields fields
      return (variant.name, values)
    | .list (tag :: items) => do
      let variant ← taggedVariant? byPosition variants tag
      let values ← listedFields? false variant.fields items
      return (variant.name, values)
    | _ => none

/-- The text of a document that is one. -/
def text? : Document → Option String
  | .text s => some s
  | _ => none

/-- The items of a document that is a list. -/
def items? : Document → Option (List Document)
  | .list items => some items
  | _ => none

/-- The 32-bit word of a document that is a whole number in range. -/
def word? : Document → Option UInt32
  | .int i => if 0 ≤ i ∧ i < UInt32.size then some (.ofNat i.toNat) else none
  | _ => none

/-- A field that may be missing or null. -/
def optional? {α : Type} (read : Document → Option α) : Option Document → Option (Option α)
  | none | some .null => some none
  | some d => (read d).map some

/-- A field with a value for when it is missing. -/
def orDefault? {α : Type} (default : α) (read : Document → Option α) : Option Document → Option α
  | none => some default
  | some d => read d

/-- A list each of whose items is read. -/
def listOf? {α : Type} (read : Document → Option α) (d : Document) : Option (List α) := do
  (← d.items?).mapM read

end Document

end DocIdent
