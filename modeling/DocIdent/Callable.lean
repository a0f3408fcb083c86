import DocIdent.TypeRef

/-!
# Callables

A function or property is known by its name and by the types that tell its overloads apart
(`Callable`). Those types make up its signature (`Callable.signature`).
-/

namespace DocIdent

/-- A function or property. -/
structure Callable where
  /-- The declared name. -/
  name : String
  /-- The type that an extension extends. -/
  receiver : Option TypeRef := none
  /-- The types of the value parameters, in order. -/
  parameters : List TypeRef := []
  deriving DecidableEq, Inhabited

namespace Callable

/-- The characters of a callable's signature. -/
def signatureChars (c : Callable) : List Char :=
  (match c.receiver with
    | some t => t.chars
    | none => []) ++
  '#' :: ['#'].intercalate (c.parameters.map TypeRef.chars)

/-- The receiver's type, if there is one, a number sign, and the parameters' types with a number
sign between any two. -/
def signature (c : Callable) : String :=
  String.ofList c.signatureChars

end Callable

end DocIdent
