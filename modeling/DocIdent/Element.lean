import DocIdent.Index

/-!
# Documentable elements

What documentation is written about: elements, each with an identifier, a simple name and a kind,
and with the elements inside it (`Element`); and modules, which hold the packages that one platform
has (`Module`). A walk visits an element before those inside it (`Element.walk`).
-/

namespace DocIdent

/-- The kind of an element. -/
inductive Element.Kind where
  /-- A package. -/
  | package
  /-- A class, an interface or an object. -/
  | ordinaryClass
  /-- A class with a fixed set of entries. -/
  | enumClass
  /-- An entry of such a class. -/
  | enumEntry
  /-- A function or constructor. -/
  | function
  /-- A property. -/
  | property
  /-- A generic parameter. -/
  | typeParameter
  /-- A value parameter. -/
  | parameter
  deriving DecidableEq, Inhabited

/-- A documentable element. -/
inductive Element where
  /-- An element with its identifier, its simple name, its kind and the elements inside it. -/
  | mk (identifier : Identifier) (name : String) (kind : Element.Kind) (children : List Element)
  deriving Inhabited

namespace Element

/-- The identifier. -/
def identifier : Element → Identifier
  | mk d _ _ _ => d

/-- The simple name. -/
def name : Element → String
  | mk _ name _ _ => name

/-- The kind. -/
def kind : Element → Kind
  | mk _ _ kind _ => kind

/-- The elements inside. -/
def children : Element → List Element
  | mk _ _ _ children => children

/-- An element with nothing inside. -/
def leaf (d : Identifier) (name : String) (kind : Kind) : Element :=
  mk d name kind []

/-- The element with one more element inside, after the others. -/
def withChild (e : Element) (child : Element) : Element :=
  mk e.identifier e.name e.kind (e.children ++ [child])

mutual

/-- An element and all that is inside it, each before what is inside it. -/
def walk : Element → List Element
  | mk d name kind children => mk d name kind children :: walkEach children

/-- Elements and all that is inside them, in order. -/
def walkEach : List Element → List Element
  | [] => []
  | e :: es => walk e ++ walkEach es

end

/-- A walk through elements is a walk through each, in order. -/
theorem walkEach_eq_flatMap (es : List Element) : walkEach es = es.flatMap walk := by
  induction es with
  | nil => rfl
  | cons e es ih => simp [walkEach, ih]

end Element

/-- A platform. -/
inductive Platform where
  /-- Code for every platform. -/
  | common
  /-- The Java virtual machine. -/
  | jvm
  /-- JavaScript. -/
  | js
  /-- Native code. -/
  | native
  deriving DecidableEq, Inhabited

/-- What a module was made for. -/
structure PlatformData where
  /-- The platform. -/
  platform : Platform
  /-- The names of the targets on it. -/
  targets : List String
  deriving Inhabited

/-- The packages of a module on one platform. -/
structure Module where
  /-- The name. -/
  name : String
  /-- What the module was made for. -/
  platformData : PlatformData
  /-- The packages. -/
  packages : List Element
  deriving Inhabited

namespace Module

/-- Every element of a module, each before what is inside it. -/
def elements (m : Module) : List Element :=
  Element.walkEach m.packages

/-- The identifier of every element of a module, in the order of the walk. -/
def identifiers (m : Module) : List Identifier :=
  m.elements.map Element.identifier

end Module

end DocIdent
