import DocIdent.Element.Declaration
import DocIdent.Proofs.Identifier.Nesting
import DocIdent.Proofs.Steps

/-!
# The tree that documents declarations

If classes and enum entries have names that classes can have (`ClassDeclaration.IsNamed`), nothing
fails when their elements are made: the identifier of a class is that of the chain of names that
leads to it, and an entry has the identifier of a class in its place, with a mark. So the tree is
written down without failures (`Element.classTree`, `Element.packageTree`), and it is what the
declarations give (`Module.ofDeclarations_eq`).
-/

namespace DocIdent

/-- The callable of a function. -/
def FunctionDeclaration.callable (f : FunctionDeclaration) : Callable :=
  ⟨f.name, f.receiver, f.parameters.map (·.2)⟩

/-! ## Classes at any depth -/

namespace ClassDeclaration

/-- The name. -/
def name : ClassDeclaration → String
  | mk name _ _ _ => name

/-- The names of the enum entries. -/
def entries : ClassDeclaration → List String
  | mk _ entries _ _ => entries

/-- The functions. -/
def functions : ClassDeclaration → List FunctionDeclaration
  | mk _ _ functions _ => functions

/-- The classes inside. -/
def classes : ClassDeclaration → List ClassDeclaration
  | mk _ _ _ classes => classes

mutual

/-- A class and the classes inside it, at any depth. -/
def all : ClassDeclaration → List ClassDeclaration
  | mk name entries functions classes => mk name entries functions classes :: allEach classes

/-- Classes and the classes inside them, at any depth. -/
def allEach : List ClassDeclaration → List ClassDeclaration
  | [] => []
  | c :: cs => all c ++ allEach cs

end

mutual

/-- Something holds of a class if it holds of each class whenever it holds of those inside it. -/
@[elab_as_elim]
theorem nestedInduction {P : ClassDeclaration → Prop}
    (nest : ∀ name entries functions classes, (∀ c ∈ classes, P c) →
      P (mk name entries functions classes)) : ∀ c, P c
  | mk name entries functions classes =>
    nest name entries functions classes (nestedInduction_classes nest classes)

/-- It then holds of the classes inside any class. -/
theorem nestedInduction_classes {P : ClassDeclaration → Prop}
    (nest : ∀ name entries functions classes, (∀ c ∈ classes, P c) →
      P (mk name entries functions classes)) : ∀ cs : List ClassDeclaration, ∀ c ∈ cs, P c
  | [], _, hc => by cases hc
  | c :: cs, x, hx => by
    rcases List.mem_cons.1 hx with heq | hx
    · rw [heq]
      exact nestedInduction nest c
    · exact nestedInduction_classes nest cs x hx

end

/-- What holds of all classes in some classes holds of all in each of them. -/
theorem forall_mem_allEach_iff {P : ClassDeclaration → Prop} {cs : List ClassDeclaration} :
    (∀ x ∈ allEach cs, P x) ↔ ∀ c ∈ cs, ∀ x ∈ c.all, P x := by
  induction cs with
  | nil => exact iff_of_true (List.forall_mem_nil _) (List.forall_mem_nil _)
  | cons c cs ih => rw [allEach, List.forall_mem_append, ih, List.forall_mem_cons]

/-- What holds of all classes in a class holds of the class itself and of all in those inside it. -/
theorem forall_mem_all_iff {P : ClassDeclaration → Prop} {c : ClassDeclaration} :
    (∀ x ∈ c.all, P x) ↔ P c ∧ ∀ inner ∈ c.classes, ∀ x ∈ inner.all, P x := by
  obtain ⟨name, entries, functions, classes⟩ := c
  rw [all, List.forall_mem_cons, forall_mem_allEach_iff, ClassDeclaration.classes]

/-- The class and its entries have names that classes can have. -/
structure IsNamed (c : ClassDeclaration) : Prop where
  name : IsClassName c.name
  entries : ∀ e ∈ c.entries, IsClassName e

end ClassDeclaration

/-! ## The tree -/

namespace Element

variable {package : Option String} {outer chain : List String}

/-- The text of the mark of an enum entry. -/
def entryMark : String := "EnumEntry/"

/-- The identifier of an enum entry: that of a class in its place, marked as an entry. -/
def entryIdentifier (package : Option String) (chain : List String) : Identifier :=
  { Identifier.nested package chain with metadata := some entryMark }

mutual

/-- The element of a class inside a chain of classes. -/
def classTree (package : Option String) (outer : List String) : ClassDeclaration → Element
  | .mk name entries functions classes =>
    mk (Identifier.nested package (outer ++ [name])) name
      (if entries.isEmpty then .ordinaryClass else .enumClass)
      ((entries.map fun e =>
          leaf (entryIdentifier package (outer ++ [name] ++ [e])) e .enumEntry) ++
        functions.map (ofFunction (Identifier.nested package (outer ++ [name]))) ++
          classTrees package (outer ++ [name]) classes)

/-- The element of each of some classes inside a chain of classes. -/
def classTrees (package : Option String) (outer : List String) :
    List ClassDeclaration → List Element
  | [] => []
  | c :: cs => classTree package outer c :: classTrees package outer cs

end

/-- The elements of classes are the elements of each, in order. -/
theorem classTrees_eq_map (cs : List ClassDeclaration) :
    classTrees package outer cs = cs.map (classTree package outer) := by
  induction cs with
  | nil => rfl
  | cons c cs ih => simp [classTrees, ih]

/-- The element of a class has the identifier of the chain of names that leads to it. -/
@[simp] theorem identifier_classTree (package : Option String) (outer : List String)
    (c : ClassDeclaration) :
    (classTree package outer c).identifier = Identifier.nested package (outer ++ [c.name]) := by
  obtain ⟨name, entries, functions, classes⟩ := c
  rw [classTree]
  rfl

/-- A class with entries is an enum class. -/
@[simp]
theorem kind_classTree (package : Option String) (outer : List String) (c : ClassDeclaration) :
    (classTree package outer c).kind =
      if c.entries.isEmpty then .ordinaryClass else .enumClass := by
  obtain ⟨name, entries, functions, classes⟩ := c
  rw [classTree]
  rfl

/-- Inside the element of a class are its entries, its functions and the classes inside it. -/
@[simp] theorem children_classTree (package : Option String) (outer : List String)
    (c : ClassDeclaration) :
    (classTree package outer c).children =
      (c.entries.map fun e =>
          leaf (entryIdentifier package (outer ++ [c.name] ++ [e])) e .enumEntry) ++
        c.functions.map (ofFunction (Identifier.nested package (outer ++ [c.name]))) ++
          c.classes.map (classTree package (outer ++ [c.name])) := by
  obtain ⟨name, entries, functions, classes⟩ := c
  rw [classTree, classTrees_eq_map]
  rfl

/-- The element of a package. -/
def packageTree (p : PackageDeclaration) : Element :=
  mk (Identifier.declared p.name none) p.name .package
    (classTrees (Identifier.present p.name) [] p.classes)

/-! ## Nothing fails -/

/-- An entry is made in a class, which has a class path. -/
theorem ofEntry_nested {name : String} (hne : chain ≠ [])
    (h : ∀ n ∈ chain ++ [name], IsClassName n) :
    ofEntry (Identifier.nested package chain) name =
      .ok (leaf (entryIdentifier package (chain ++ [name])) name .enumEntry) := by
  have hpath : (Identifier.nested package chain).requiredClassPath =
      .ok (".".intercalate chain) := by
    rw [Identifier.requiredClassPath, Identifier.nested, Identifier.pathOf_of_ne_nil hne]
  have hfact : (Identifier.nested package (chain ++ [name])).withFact Property.enumEntry () =
      .ok (entryIdentifier package (chain ++ [name])) :=
    rfl
  rw [ofEntry, hpath, Identifier.withClass_nested h, hfact]
  rfl

/-- The elements of classes are made one after the other. -/
theorem ofClasses_eq_mapM (owner : Identifier) (cs : List ClassDeclaration) :
    ofClasses owner cs = cs.mapM (ofClass owner) := by
  induction cs with
  | nil => rfl
  | cons c cs ih => rw [ofClasses, List.mapM_cons, ih]

/-- **The element of a class with names is made**, with all that is inside it. -/
theorem ofClass_nested {c : ClassDeclaration} (houter : ∀ n ∈ outer, IsClassName n)
    (hnamed : ∀ x ∈ c.all, x.IsNamed) :
    ofClass (Identifier.nested package outer) c = .ok (classTree package outer c) := by
  induction c using ClassDeclaration.nestedInduction generalizing outer with
  | nest name entries functions classes ih =>
    obtain ⟨hself, hclasses⟩ := ClassDeclaration.forall_mem_all_iff.1 hnamed
    have hchain : ∀ n ∈ outer ++ [name], IsClassName n := by
      rw [List.forall_mem_append, List.forall_mem_singleton]
      exact ⟨houter, hself.name⟩
    have hne : outer ++ [name] ≠ [] :=
      List.append_ne_nil_of_right_ne_nil _ (List.cons_ne_nil _ _)
    have hentries : entries.mapM (ofEntry (Identifier.nested package (outer ++ [name]))) =
        .ok (entries.map fun e =>
          leaf (entryIdentifier package (outer ++ [name] ++ [e])) e .enumEntry) := by
      refine mapM_eq_ok_map fun e he => ofEntry_nested hne ?_
      rw [List.forall_mem_append, List.forall_mem_singleton]
      exact ⟨hchain, hself.entries e he⟩
    have hinner : ofClasses (Identifier.nested package (outer ++ [name])) classes =
        .ok (classTrees package (outer ++ [name]) classes) := by
      rw [ofClasses_eq_mapM, classTrees_eq_map]
      exact mapM_eq_ok_map fun c hc => ih c hc hchain (hclasses c hc)
    rw [ofClass, Identifier.withClass_nested hchain, hentries, ok_bind, hinner]
    rfl

/-- The element of a package is made. -/
theorem ofPackage_eq {p : PackageDeclaration}
    (h : ∀ c ∈ ClassDeclaration.allEach p.classes, c.IsNamed) :
    ofPackage p = .ok (packageTree p) := by
  have hdeclared : Identifier.declared p.name none =
      Identifier.nested (Identifier.present p.name) [] :=
    rfl
  have hclasses : ofClasses (Identifier.nested (Identifier.present p.name) []) p.classes =
      .ok (classTrees (Identifier.present p.name) [] p.classes) := by
    rw [ofClasses_eq_mapM, classTrees_eq_map]
    exact mapM_eq_ok_map fun c hc => ofClass_nested (List.forall_mem_nil _)
      (ClassDeclaration.forall_mem_allEach_iff.1 h c hc)
  rw [ofPackage, packageTree, hdeclared, hclasses]
  rfl

end Element

/-- **The module of declarations with names is made**, with this tree. -/
theorem Module.ofDeclarations_eq (name : String) (platformData : PlatformData)
    {packages : List PackageDeclaration}
    (h : ∀ p ∈ packages, ∀ c ∈ ClassDeclaration.allEach p.classes, c.IsNamed) :
    ofDeclarations name platformData packages =
      .ok ⟨name, platformData, packages.map Element.packageTree⟩ := by
  rw [ofDeclarations, mapM_eq_ok_map fun p hp => Element.ofPackage_eq (h p hp)]
  rfl

end DocIdent
