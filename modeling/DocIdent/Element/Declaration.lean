import DocIdent.Element
import DocIdent.Failure

/-!
# Declarations

The declarations of a package as a compiler hands them over, classes in classes
(`ClassDeclaration`), and the tree of elements that documents them (`Module.ofDeclarations`). Every
element's identifier comes from that of the element around it: a class or an enum entry extends the
class path, an entry is marked as such, a function sets the callable, and its parameters take their
targets in order.
-/

namespace DocIdent

/-- A declared function. -/
structure FunctionDeclaration where
  /-- The name. -/
  name : String
  /-- The names of the generic parameters. -/
  typeParameters : List String
  /-- The value parameters, each with its name and type. -/
  parameters : List (String × TypeRef)
  /-- The type that an extension extends. -/
  receiver : Option TypeRef

/-- A declared class. -/
inductive ClassDeclaration where
  /-- A class with its name, its enum entries, its functions and the classes inside it. -/
  | mk (name : String) (entries : List String) (functions : List FunctionDeclaration)
    (classes : List ClassDeclaration)
  deriving Inhabited

/-- The declarations of a package. -/
structure PackageDeclaration where
  /-- The name. -/
  name : String
  /-- The classes. -/
  classes : List ClassDeclaration

namespace Element

/-- Parameters of one kind inside a function, one for each name, with targets from the first on. -/
def parameters (function : Identifier) (kind : Kind) (first : Target) (names : List String) :
    List Element :=
  names.zipWith (fun name target => leaf (function.withTarget target) name kind)
    (first.successors names.length)

/-- The element of a function inside an owner. -/
def ofFunction (owner : Identifier) (f : FunctionDeclaration) : Element :=
  let d := owner.withCallable (some ⟨f.name, f.receiver, f.parameters.map (·.2)⟩)
  mk d f.name .function
    (parameters d .typeParameter (.genericParameter 0) f.typeParameters ++
      parameters d .parameter (.callableParameter 0) (f.parameters.map (·.1)))

/-- The element of an enum entry inside a class, which has to have a class path. -/
def ofEntry (owner : Identifier) (name : String) : Except Failure Element := do
  let _ ← owner.requiredClassPath
  match (owner.withClass name).withFact Property.enumEntry () with
  | .ok d => return leaf d name .enumEntry
  | .error fault => throw (.malformed (.metadata fault))

mutual

/-- The element of a class inside an owner. -/
def ofClass (owner : Identifier) : ClassDeclaration → Except Failure Element
  | .mk name entries functions classes => do
    let d := owner.withClass name
    let entryElements ← entries.mapM (ofEntry d)
    let classElements ← ofClasses d classes
    return mk d name (if entries.isEmpty then .ordinaryClass else .enumClass)
      (entryElements ++ functions.map (ofFunction d) ++ classElements)

/-- The element of each class inside an owner. -/
def ofClasses (owner : Identifier) : List ClassDeclaration → Except Failure (List Element)
  | [] => return []
  | c :: cs => return (← ofClass owner c) :: (← ofClasses owner cs)

end

/-- The element of a package. -/
def ofPackage (p : PackageDeclaration) : Except Failure Element := do
  let d := Identifier.declared p.name none
  return mk d p.name .package (← ofClasses d p.classes)

end Element

/-- The module that documents the declarations of some packages. -/
def Module.ofDeclarations (name : String) (platformData : PlatformData)
    (packages : List PackageDeclaration) : Except Failure Module := do
  return ⟨name, platformData, ← packages.mapM Element.ofPackage⟩

end DocIdent
