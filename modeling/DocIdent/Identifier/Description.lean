import DocIdent.Identifier
import DocIdent.Text.Quoted

/-!
# Descriptions

A report on two identifiers with one key has to tell them apart, so it shows their whole structure
(`Identifier.description`): each record by its name with its fields in braces, each absent part as
such, each text between quotes, each list in brackets.
-/

namespace DocIdent

namespace Description

/-- The items of a description, with a comma between any two. -/
def items (xs : List (List Char)) : List Char :=
  [',', ' '].intercalate xs

/-- A list, in brackets. -/
def list (xs : List (List Char)) : List Char :=
  '[' :: items xs ++ [']']

/-- A record: its name, and in braces each field with its value. -/
def record (name : String) (fields : List (String × List Char)) : List Char :=
  name.toList ++ [' ', '\x7b', ' '] ++
    items (fields.map fun f => f.1.toList ++ [':', ' '] ++ f.2) ++ [' ', '\x7d']

/-- A part that may be absent. -/
def optional : Option (List Char) → List Char
  | none => "None".toList
  | some cs => "Some(".toList ++ cs ++ [')']

/-- A text. -/
def text (s : String) : List Char :=
  Text.quote s.toList

/-- A whole number. -/
def number (n : UInt32) : List Char :=
  Text.decimal n.toNat

end Description

namespace TypeRef

mutual

/-- The description of a type. -/
def description : TypeRef → List Char
  | .named name => Description.record "Class" [("name", Description.text name)]
  | .parameter bounds =>
    Description.record "TypeParam" [("bounds", Description.list (descriptionEach bounds))]
  | .applied name arguments =>
    Description.record "Constructor"
      [("fully_qualified_name", Description.text name),
        ("params", Description.list (descriptionEach arguments))]
  | .recursive rank => Description.record "Recursive" [("rank", Description.number rank)]
  | .nullable wrapped => Description.record "Nullable" [("wrapped", description wrapped)]
  | .star => "Star".toList

/-- The description of each type. -/
def descriptionEach : List TypeRef → List (List Char)
  | [] => []
  | t :: ts => description t :: descriptionEach ts

end

/-- Describing each type of a list is describing one, at each place. -/
theorem descriptionEach_eq_map (ts : List TypeRef) : descriptionEach ts = ts.map description := by
  induction ts with
  | nil => rfl
  | cons t ts ih => simp [descriptionEach, ih]

end TypeRef

/-- The description of a callable. -/
def Callable.description (c : Callable) : List Char :=
  Description.record "Callable"
    [("name", Description.text c.name),
      ("receiver", Description.optional (c.receiver.map TypeRef.description)),
      ("params", Description.list (c.parameters.map TypeRef.description))]

/-- The description of a target. -/
def Target.description : Target → List Char
  | declaration => "Declaration".toList
  | genericParameter index =>
    Description.record "GenericParameter" [("index", Description.number index)]
  | callableParameter index =>
    Description.record "CallableParameter" [("index", Description.number index)]

namespace Identifier

/-- The characters of an identifier's description. -/
def descriptionChars (d : Identifier) : List Char :=
  Description.record "Dri"
    [("package_name", Description.optional (d.package.map Description.text)),
      ("class_names", Description.optional (d.classPath.map Description.text)),
      ("extra", Description.optional (d.metadata.map Description.text)),
      ("callable", Description.optional (d.callable.map Callable.description)),
      ("target", d.target.description)]

/-- The whole structure of an identifier as a text. -/
def description (d : Identifier) : String :=
  String.ofList d.descriptionChars

end Identifier

end DocIdent
