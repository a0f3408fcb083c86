import DocIdent.Proofs.Ancestry
import DocIdent.Proofs.Element.Tree
import DocIdent.Proofs.Identifier.Enclosing
import DocIdent.Proofs.Target

/-!
# What encloses an element

Where an element stands in a tree is said by the elements around it, innermost first
(`Element.Trail`); each element of a walk has such a trail, and nothing else has
(`Element.mem_walk_iff_exists_trail`). In the tree of a declared package each element is held in the
way that its kind asks for, and what encloses its identifier is the identifier of the element that
holds it and what encloses that (`Element.Holds`, `Element.holdsThroughout_packageTree`). So the
ancestors of an identifier, which are read off its own parts, are the identifiers on the trail
(`Module.ancestors_eq_trail`); only an enum entry has one more, its identifier without the mark.
-/

namespace DocIdent

namespace Element

/-! ## Trails -/

mutual

/-- Something holds of an element if it holds of each element whenever it holds of those inside
it. -/
@[elab_as_elim]
theorem nestedInduction {P : Element → Prop}
    (nest : ∀ d name kind children, (∀ c ∈ children, P c) → P (mk d name kind children)) :
    ∀ e, P e
  | mk d name kind children => nest d name kind children (nestedInduction_children nest children)

/-- It then holds of the elements inside any element. -/
theorem nestedInduction_children {P : Element → Prop}
    (nest : ∀ d name kind children, (∀ c ∈ children, P c) → P (mk d name kind children)) :
    ∀ es : List Element, ∀ e ∈ es, P e
  | [], _, he => by cases he
  | e :: es, x, hx => by
    rcases List.mem_cons.1 hx with heq | hx
    · rw [heq]
      exact nestedInduction nest e
    · exact nestedInduction_children nest es x hx

end

/-- An element stands in the tree of another with these elements around it, innermost first. -/
inductive Trail (top : Element) : List Element → Element → Prop
  /-- Nothing is around the whole tree. -/
  | top : Trail top [] top
  /-- Around what is inside an element are the element and what is around that. -/
  | inside {trail : List Element} {e child : Element} :
      Trail top trail e → child ∈ e.children → Trail top (e :: trail) child

variable {top e child x : Element} {trail : List Element}

/-- A walk visits the element itself and what the walks through those inside it visit. -/
theorem mem_walk_iff : x ∈ e.walk ↔ x = e ∨ ∃ child ∈ e.children, x ∈ child.walk := by
  obtain ⟨d, name, kind, children⟩ := e
  rw [walk, walkEach_eq_flatMap, List.mem_cons, List.mem_flatMap]
  rfl

theorem mem_walk_self (e : Element) : e ∈ e.walk :=
  mem_walk_iff.2 (.inl rfl)

/-- A walk through a part of a tree visits what a walk through the tree visits. -/
theorem mem_walk_trans (he : e ∈ top.walk) (hx : x ∈ e.walk) : x ∈ top.walk := by
  induction top using nestedInduction with
  | nest d name kind children ih =>
    rcases mem_walk_iff.1 he with rfl | ⟨child, hchild, he⟩
    · exact hx
    · exact mem_walk_iff.2 (.inr ⟨child, hchild, ih child hchild he⟩)

/-- What has a trail is visited. -/
theorem Trail.mem_walk (h : Trail top trail e) : e ∈ top.walk := by
  induction h with
  | top => exact mem_walk_self top
  | inside _ hchild ih =>
    exact mem_walk_trans ih (mem_walk_iff.2 (.inr ⟨_, hchild, mem_walk_self _⟩))

/-- Around what stands in a part of a tree is also what is around the part. -/
theorem Trail.under (h : Trail child trail e) (hchild : child ∈ top.children) :
    Trail top (trail ++ [top]) e := by
  induction h with
  | top => exact .inside .top hchild
  | inside _ hx ih => exact .inside ih hx

/-- **A walk visits exactly what has a trail.** -/
theorem mem_walk_iff_exists_trail : e ∈ top.walk ↔ ∃ trail, Trail top trail e := by
  constructor
  · intro h
    induction top using nestedInduction with
    | nest d name kind children ih =>
      rcases mem_walk_iff.1 h with rfl | ⟨child, hchild, h⟩
      · exact ⟨[], .top⟩
      · obtain ⟨trail, htrail⟩ := ih child hchild h
        exact ⟨trail ++ [mk d name kind children], htrail.under hchild⟩
  · rintro ⟨trail, h⟩
    exact h.mem_walk

/-! ## One element directly inside another -/

/-- The kind is one of the two that classes have. -/
def Kind.IsClass (k : Kind) : Prop :=
  k = .ordinaryClass ∨ k = .enumClass

/-- What an element of a kind stands in, if it was declared: a class in a package or in a class, an
entry in an enum class, a function in a class, and a parameter in a function. -/
def Kind.StandsIn : Kind → Kind → Prop
  | .package, _ => False
  | .ordinaryClass, outer => outer = .package ∨ outer.IsClass
  | .enumClass, outer => outer = .package ∨ outer.IsClass
  | .enumEntry, outer => outer = .enumClass
  | .function, outer => outer.IsClass
  | .property, _ => False
  | .typeParameter, outer => outer = .function
  | .parameter, outer => outer = .function

/-- Nothing stands in an enum entry. -/
theorem Kind.StandsIn.ne_enumEntry {inner outer : Kind} (h : inner.StandsIn outer) :
    outer ≠ .enumEntry := by
  rintro rfl
  cases inner with
  | package | property => exact h
  | ordinaryClass | enumClass => rcases h with h | h | h <;> cases h
  | function => rcases h with h | h <;> cases h
  | enumEntry | typeParameter | parameter => cases h

/-- A class stands in a package or in a class. -/
theorem Kind.IsClass.standsIn {inner outer : Kind} (h : inner.IsClass)
    (houter : outer = .package ∨ outer.IsClass) : inner.StandsIn outer := by
  rcases h with rfl | rfl
  · exact houter
  · exact houter

theorem Kind.IsClass.ne_enumEntry {k : Kind} (h : k.IsClass) : k ≠ .enumEntry := by
  rintro rfl
  rcases h with h | h <;> cases h

/-- The identifier of an enum entry without the mark; other elements have no mark. -/
def unmarked (e : Element) : List Identifier :=
  if e.kind = .enumEntry then [{ e.identifier with metadata := none }] else []

/-- One element is directly inside another, and its identifier is enclosed by that of the other and
by what encloses that. -/
structure Holds (outer inner : Element) : Prop where
  standsIn : inner.kind.StandsIn outer.kind
  ancestors : inner.identifier.ancestors =
    inner.unmarked ++ outer.identifier :: outer.identifier.ancestors

/-- It is so for all elements of a tree. -/
def HoldsThroughout (top : Element) : Prop :=
  ∀ e ∈ top.walk, ∀ child ∈ e.children, e.Holds child

/-- **Above what stands in a tree is what is around it.** If elements hold one another throughout
and nothing but the root is above the identifier of the whole tree, the ancestors of an identifier
are those on the trail and the root. -/
theorem HoldsThroughout.ancestors_eq (h : top.HoldsThroughout) (hkind : top.kind ≠ .enumEntry)
    (htop : top.identifier.ancestors = [Identifier.root]) (htrail : Trail top trail e) :
    (e :: trail).IsChain (fun inner outer => inner.kind.StandsIn outer.kind) ∧
      e.identifier.ancestors = e.unmarked ++ trail.map identifier ++ [Identifier.root] := by
  induction htrail with
  | top =>
    rw [unmarked, if_neg hkind]
    exact ⟨.singleton _, htop⟩
  | @inside trail e child hinner hchild ih =>
    have hholds := h e hinner.mem_walk child hchild
    obtain ⟨hkinds, hancestors⟩ := ih
    refine ⟨List.isChain_cons_cons.2 ⟨hholds.standsIn, hkinds⟩, ?_⟩
    rw [unmarked, if_neg hholds.standsIn.ne_enumEntry, List.nil_append] at hancestors
    rw [hholds.ancestors, hancestors, List.map_cons, List.append_assoc, List.cons_append]

/-- Elements hold one another throughout a tree if the outermost holds those inside it, and it is so
throughout these. -/
theorem holdsThroughout_iff :
    e.HoldsThroughout ↔ ∀ child ∈ e.children, e.Holds child ∧ child.HoldsThroughout := by
  constructor
  · intro h child hchild
    exact ⟨h e (mem_walk_self e) child hchild,
      fun x hx => h x (mem_walk_iff.2 (.inr ⟨child, hchild, hx⟩))⟩
  · intro h x hx
    rcases mem_walk_iff.1 hx with rfl | ⟨child, hchild, hx⟩
    · exact fun child hchild => (h child hchild).1
    · exact (h child hchild).2 x hx

theorem holdsThroughout_leaf (d : Identifier) (name : String) (kind : Kind) :
    (leaf d name kind).HoldsThroughout :=
  holdsThroughout_iff.2 (List.forall_mem_nil _)

/-- An element that is no enum entry has no mark. -/
theorem holds_of_ancestors {outer inner : Element} (hstands : inner.kind.StandsIn outer.kind)
    (hkind : inner.kind ≠ .enumEntry)
    (hancestors : inner.identifier.ancestors = outer.identifier :: outer.identifier.ancestors) :
    outer.Holds inner where
  standsIn := hstands
  ancestors := by rw [unmarked, if_neg hkind, hancestors, List.nil_append]

/-! ## The tree of a package -/

variable {package : Option String} {outer chain : List String}

/-- Each parameter is a leaf with a target of the sequence. -/
theorem mem_parameters {d : Identifier} {kind : Kind} {first : Target} {names : List String}
    (h : e ∈ parameters d kind first names) :
    ∃ t ∈ first.successors names.length, ∃ name, e = leaf (d.withTarget t) name kind := by
  obtain ⟨i, hi, rfl⟩ := List.mem_iff_getElem.1 h
  simp only [parameters, List.getElem_zipWith]
  exact ⟨_, List.getElem_mem _, _, rfl⟩

/-- A function holds its parameters of either kind. -/
theorem holds_parameters {make : UInt32 → Target} (hmake : Target.IsKind make)
    {function : Element} (hmetadata : function.identifier.metadata = none)
    (htarget : function.identifier.target = .declaration) {kind : Kind} {index : UInt32}
    {names : List String} (he : e ∈ parameters function.identifier kind (make index) names)
    (hstands : kind.StandsIn function.kind) (hkind : kind ≠ .enumEntry) :
    function.Holds e ∧ e.HoldsThroughout := by
  obtain ⟨t, ht, name, rfl⟩ := mem_parameters he
  obtain ⟨i, rfl⟩ := hmake.eq_of_mem_successors ht
  have hparameter := hmake.parameter i
  have hroot : function.identifier.withTarget (make i) ≠ Identifier.root := by
    intro hroot
    have hdeclaration : make i = .declaration := congrArg Identifier.target hroot
    rw [hdeclaration] at hparameter
    cases hparameter
  have hparent := Identifier.parent_withTarget hmetadata htarget hparameter
  exact ⟨holds_of_ancestors hstands hkind (Identifier.ancestors_of_parent hroot hparent),
    holdsThroughout_leaf _ _ _⟩

/-- Throughout the tree of a function elements hold one another. -/
theorem holdsThroughout_ofFunction (f : FunctionDeclaration) :
    (ofFunction (Identifier.nested package chain) f).HoldsThroughout := by
  refine holdsThroughout_iff.2 fun child hchild => ?_
  rcases List.mem_append.1 hchild with hchild | hchild
  · exact holds_parameters Target.isKind_genericParameter rfl rfl hchild rfl nofun
  · exact holds_parameters Target.isKind_callableParameter rfl rfl hchild rfl nofun

/-- A class holds its functions. -/
theorem holds_ofFunction (he : e.identifier = Identifier.nested package chain)
    (hkind : e.kind.IsClass) (f : FunctionDeclaration) :
    e.Holds (ofFunction (Identifier.nested package chain) f) := by
  refine holds_of_ancestors hkind nofun (Identifier.ancestors_of_parent (fun hroot => ?_) ?_)
  · exact Option.some_ne_none _ (congrArg Identifier.callable hroot)
  · rw [he]
    exact Identifier.parent_withCallable rfl rfl rfl

/-- An enum class holds its entries, which are marked. -/
theorem holds_entry (he : e.identifier = Identifier.nested package chain)
    (hkind : e.kind = .enumClass) {entry : String} (h : ∀ n ∈ chain ++ [entry], IsClassName n) :
    e.Holds (leaf (entryIdentifier package (chain ++ [entry])) entry .enumEntry) where
  standsIn := hkind
  ancestors := by
    have hroot : entryIdentifier package (chain ++ [entry]) ≠ Identifier.root := fun hroot =>
      Option.some_ne_none _ (congrArg Identifier.metadata hroot)
    have hancestors := Identifier.ancestors_of_parent hroot (Identifier.parent_of_metadata rfl)
    -- without the mark the identifier is that of a class in its place
    have hunmarked : { entryIdentifier package (chain ++ [entry]) with metadata := none } =
        Identifier.nested package (chain ++ [entry]) :=
      rfl
    rw [hunmarked, Identifier.ancestors_nested h, ← he] at hancestors
    exact hancestors

theorem isClass_kind_classTree (package : Option String) (outer : List String)
    (c : ClassDeclaration) : (classTree package outer c).kind.IsClass := by
  rw [kind_classTree]
  split
  · exact .inl rfl
  · exact .inr rfl

/-- A class or a package holds the classes directly inside it. -/
theorem holds_classTree (he : e.identifier = Identifier.nested package outer)
    (hkind : e.kind = .package ∨ e.kind.IsClass) {c : ClassDeclaration}
    (h : ∀ n ∈ outer ++ [c.name], IsClassName n) : e.Holds (classTree package outer c) := by
  have hclass := isClass_kind_classTree package outer c
  refine holds_of_ancestors (hclass.standsIn hkind) hclass.ne_enumEntry ?_
  rw [identifier_classTree, Identifier.ancestors_nested h, he]

/-- **Throughout the tree of a class elements hold one another**, if classes and entries have
names. -/
theorem holdsThroughout_classTree {c : ClassDeclaration} (houter : ∀ n ∈ outer, IsClassName n)
    (hnamed : ∀ x ∈ c.all, x.IsNamed) : (classTree package outer c).HoldsThroughout := by
  induction c using ClassDeclaration.nestedInduction generalizing outer with
  | nest name entries functions classes ih =>
    obtain ⟨hself, hclasses⟩ := ClassDeclaration.forall_mem_all_iff.1 hnamed
    have hchain : ∀ n ∈ outer ++ [name], IsClassName n :=
      List.forall_mem_append.2 ⟨houter, List.forall_mem_singleton.2 hself.name⟩
    have hinside : ∀ n, IsClassName n → ∀ m ∈ outer ++ [name] ++ [n], IsClassName m := fun n hn =>
      List.forall_mem_append.2 ⟨hchain, List.forall_mem_singleton.2 hn⟩
    have hidentifier := identifier_classTree package outer (.mk name entries functions classes)
    have hkind := isClass_kind_classTree package outer (.mk name entries functions classes)
    rw [holdsThroughout_iff, children_classTree]
    intro child hchild
    rcases List.mem_append.1 hchild with hchild | hchild
    · rcases List.mem_append.1 hchild with hchild | hchild
      · obtain ⟨entry, hentry, rfl⟩ := List.mem_map.1 hchild
        have henum := kind_classTree package outer (.mk name entries functions classes)
        rw [if_neg (by simpa using List.ne_nil_of_mem hentry)] at henum
        exact ⟨holds_entry hidentifier henum (hinside entry (hself.entries entry hentry)),
          holdsThroughout_leaf _ _ _⟩
      · obtain ⟨f, -, rfl⟩ := List.mem_map.1 hchild
        exact ⟨holds_ofFunction hidentifier hkind f, holdsThroughout_ofFunction f⟩
    · obtain ⟨c, hc, rfl⟩ := List.mem_map.1 hchild
      have hname := (ClassDeclaration.forall_mem_all_iff.1 (hclasses c hc)).1.name
      exact ⟨holds_classTree hidentifier (.inr hkind) (hinside c.name hname),
        ih c hc hchain (hclasses c hc)⟩

/-- Throughout the tree of a package elements hold one another. -/
theorem holdsThroughout_packageTree {p : PackageDeclaration}
    (h : ∀ c ∈ ClassDeclaration.allEach p.classes, c.IsNamed) :
    (packageTree p).HoldsThroughout := by
  refine holdsThroughout_iff.2 fun child hchild => ?_
  rw [packageTree, children, classTrees_eq_map] at hchild
  obtain ⟨c, hc, rfl⟩ := List.mem_map.1 hchild
  have hnamed := ClassDeclaration.forall_mem_allEach_iff.1 h c hc
  have hname := (ClassDeclaration.forall_mem_all_iff.1 hnamed).1.name
  exact ⟨holds_classTree rfl (.inl rfl) (List.forall_mem_singleton.2 hname),
    holdsThroughout_classTree (List.forall_mem_nil _) hnamed⟩

/-- Nothing but the root is around a package that has a name. -/
theorem ancestors_packageTree {p : PackageDeclaration} (h : p.name ≠ "") :
    (packageTree p).identifier.ancestors = [Identifier.root] := by
  have hpackage : (packageTree p).identifier = { package := some p.name } :=
    congrArg (fun package => ({ package } : Identifier)) (if_neg h)
  have hroot : ({ package := some p.name } : Identifier) ≠ Identifier.root := fun hroot =>
    Option.some_ne_none _ (congrArg Identifier.package hroot)
  have hparent : ({ package := some p.name } : Identifier).parent = Identifier.root := rfl
  rw [hpackage, Identifier.ancestors_of_ne_root hroot, hparent, Identifier.ancestors_root]

end Element

/-- **Above an identifier is what is around its element.** In the module of declarations with names
each element of the walk has a trail in the tree of its package: from a parameter over its function
and the classes around that, from the inside out, to the package. The ancestors of its identifier
are the identifiers on the trail and then the root; an enum entry has one more before them, its
identifier without the mark. -/
theorem Module.ancestors_eq_trail (name : String) (platformData : PlatformData)
    {packages : List PackageDeclaration}
    (h : ∀ p ∈ packages, p.name ≠ "" ∧ ∀ c ∈ ClassDeclaration.allEach p.classes, c.IsNamed) :
    ∃ m, ofDeclarations name platformData packages = .ok m ∧
      (∀ e, e ∈ m.elements ↔ ∃ top ∈ m.packages, ∃ trail, Element.Trail top trail e) ∧
      ∀ top ∈ m.packages, top.kind = .package ∧ ∀ trail e, Element.Trail top trail e →
        (e :: trail).IsChain (fun inner outer => inner.kind.StandsIn outer.kind) ∧
          e.identifier.ancestors =
            (if e.kind = .enumEntry then [{ e.identifier with metadata := none }] else []) ++
              trail.map Element.identifier ++ [Identifier.root] := by
  refine ⟨_, ofDeclarations_eq name platformData fun p hp => (h p hp).2, fun e => ?_,
    fun top htop => ?_⟩
  · rw [elements, Element.walkEach_eq_flatMap, List.mem_flatMap]
    simp only [Element.mem_walk_iff_exists_trail]
  · obtain ⟨p, hp, rfl⟩ := List.mem_map.1 htop
    refine ⟨rfl, fun trail e htrail => ?_⟩
    exact (Element.holdsThroughout_packageTree (h p hp).2).ancestors_eq nofun
      (Element.ancestors_packageTree (h p hp).1) htrail

/-- An enum class with an entry and an extension function. -/
def ClassDeclaration.innerEnum : ClassDeclaration :=
  .mk "E" ["X"] [⟨"f", [], [("x", .named "I")], some .star⟩] []

/-- A class around it, whose name begins with a blank. -/
def ClassDeclaration.aroundEnum : ClassDeclaration :=
  .mk " A" [] [] [innerEnum]

/-- A package with these classes. -/
def PackageDeclaration.nestedEnum : PackageDeclaration :=
  ⟨"a", [.aroundEnum]⟩

theorem PackageDeclaration.isNamed_nestedEnum :
    ∀ c ∈ ClassDeclaration.allEach nestedEnum.classes, c.IsNamed := by
  have hA : IsClassName " A" := ⟨by decide, by decide⟩
  have hE : IsClassName "E" := ⟨by decide, by decide⟩
  have hX : IsClassName "X" := ⟨by decide, by decide⟩
  exact List.forall_mem_cons.2 ⟨⟨hA, List.forall_mem_nil _⟩,
    List.forall_mem_singleton.2 ⟨hE, List.forall_mem_singleton.2 hX⟩⟩

/-- The enum class stands in the other one, and that in the package. -/
theorem PackageDeclaration.trail_innerEnum :
    Element.Trail (Element.packageTree nestedEnum)
      [Element.classTree (some "a") [] .aroundEnum, Element.packageTree nestedEnum]
      (Element.classTree (some "a") [" A"] .innerEnum) :=
  .inside (.inside .top (.head _)) (.head _)

/-- What is above the entry, and above the parameter of the function. -/
theorem Module.ancestors_eq_trail_nestedEnum :
    (∀ p ∈ [PackageDeclaration.nestedEnum],
        p.name ≠ "" ∧ ∀ c ∈ ClassDeclaration.allEach p.classes, c.IsNamed) ∧
      ∃ m, ofDeclarations "m" ⟨.common, []⟩ [PackageDeclaration.nestedEnum] = .ok m ∧
        (∃ e ∈ m.elements, e.kind = .enumEntry ∧ e.identifier.ancestors.map Identifier.key =
          ["a/ A.E.X///PointingToDeclaration/", "a/ A.E///PointingToDeclaration/",
            "a/ A///PointingToDeclaration/", "a////PointingToDeclaration/",
            "////PointingToDeclaration/"]) ∧
        ∃ e ∈ m.elements, e.kind = .parameter ∧ e.identifier.ancestors.map Identifier.key =
          ["a/ A.E/f/*#I/PointingToDeclaration/", "a/ A.E///PointingToDeclaration/",
            "a/ A///PointingToDeclaration/", "a////PointingToDeclaration/",
            "////PointingToDeclaration/"] := by
  have hnamed : ∀ p ∈ [PackageDeclaration.nestedEnum],
      p.name ≠ "" ∧ ∀ c ∈ ClassDeclaration.allEach p.classes, c.IsNamed :=
    List.forall_mem_singleton.2 ⟨by decide, PackageDeclaration.isNamed_nestedEnum⟩
  obtain ⟨m, hm, hwalk, htrails⟩ := ancestors_eq_trail "m" ⟨.common, []⟩ hnamed
  have hmade := ofDeclarations_eq "m" ⟨.common, []⟩ fun p hp => (hnamed p hp).2
  obtain rfl := Except.ok.inj (hm.symm.trans hmade)
  have htop := (htrails (Element.packageTree .nestedEnum) (.head _)).2
  have hinner := PackageDeclaration.trail_innerEnum
  refine ⟨hnamed, _, hm, ?_, ?_⟩
  · have htrail := hinner.inside (.head _)
    refine ⟨_, (hwalk _).2 ⟨_, .head _, _, htrail⟩, rfl, ?_⟩
    rw [(htop _ _ htrail).2]
    decide
  · have hfunction := hinner.inside (.tail _ (.head _))
    have htrail := hfunction.inside (.head _)
    refine ⟨_, (hwalk _).2 ⟨_, .head _, _, htrail⟩, rfl, ?_⟩
    rw [(htop _ _ htrail).2]
    decide

end DocIdent
