import DocIdent.Proofs.Element.Tree
import DocIdent.Proofs.Identifier.Presence
import DocIdent.Proofs.Index
import DocIdent.Proofs.Key.Slots
import DocIdent.Proofs.Target
import Mathlib.Data.List.Nodup

/-!
# Declarations have keys of their own

What is inside a class has a class path that starts with the chain of names of the class
(`Identifier.Within`), and only the class itself, its functions and their parameters have exactly
the path of that chain. So identifiers from different places differ in a slot: in the path, and if
not there in the mark of an entry, in the callable or in the target. One class at a time this gives
that all identifiers of a tree have keys of their own (`Element.laidOut_classTree`), and that the
module of unambiguous declarations is indexed with an entry for each of its elements
(`Module.ofList_identifiers_ofDeclarations`).
-/

namespace DocIdent

/-! ## The identifiers of a tree -/

/-- The parts of a function that have identifiers: the function, and its parameters. -/
def FunctionDeclaration.targets (f : FunctionDeclaration) : List Target :=
  .declaration :: ((Target.genericParameter 0).successors f.typeParameters.length ++
    (Target.callableParameter 0).successors f.parameters.length)

/-- A function has no two parts with one target. -/
theorem FunctionDeclaration.nodup_targets (f : FunctionDeclaration) : f.targets.Nodup := by
  have hgeneric := Target.isKind_genericParameter
  have hcallable := Target.isKind_callableParameter
  refine List.nodup_cons.2 ⟨fun hmem => ?_, List.nodup_append.2
    ⟨hgeneric.nodup_successors 0 _, hcallable.nodup_successors 0 _, fun t ht u hu heq => ?_⟩⟩
  · rcases List.mem_append.1 hmem with h | h
    · obtain ⟨i, hi⟩ := hgeneric.eq_of_mem_successors h
      cases hi
    · obtain ⟨i, hi⟩ := hcallable.eq_of_mem_successors h
      cases hi
  · obtain ⟨i, rfl⟩ := hgeneric.eq_of_mem_successors ht
    obtain ⟨j, rfl⟩ := hcallable.eq_of_mem_successors hu
    cases heq

namespace Element

/-- The identifiers of an element and of all that is inside it, in the order of the walk. -/
def identifiers (e : Element) : List Identifier :=
  e.walk.map identifier

variable {package : Option String} {outer chain : List String}

@[simp]
theorem identifiers_mk (d : Identifier) (name : String) (kind : Kind) (children : List Element) :
    (mk d name kind children).identifiers = d :: children.flatMap identifiers := by
  rw [identifiers, walk, walkEach_eq_flatMap, List.map_cons, List.map_flatMap]
  rfl

/-- Each target of parameters has its identifier, as long as there are no more than names. -/
theorem flatMap_identifiers_parameters (d : Identifier) (kind : Kind) (first : Target)
    (names : List String) (h : (first.successors names.length).length ≤ names.length) :
    (parameters d kind first names).flatMap identifiers =
      (first.successors names.length).map d.withTarget := by
  rw [parameters]
  generalize first.successors names.length = targets at h
  induction names generalizing targets with
  | nil =>
    obtain rfl := List.eq_nil_of_length_eq_zero (Nat.le_zero.1 h)
    rfl
  | cons name names ih =>
    cases targets with
    | nil => rfl
    | cons t targets =>
      rw [List.zipWith_cons_cons, List.flatMap_cons, ih targets (Nat.le_of_succ_le_succ h), leaf,
        identifiers_mk]
      rfl

/-- The identifiers of a function of a class are one for each of its parts. -/
theorem identifiers_ofFunction (package : Option String) (chain : List String)
    (f : FunctionDeclaration) :
    (ofFunction (Identifier.nested package chain) f).identifiers =
      f.targets.map
        ((Identifier.nested package chain).withCallable (some f.callable)).withTarget := by
  have hgeneric := flatMap_identifiers_parameters
    ((Identifier.nested package chain).withCallable (some f.callable)) .typeParameter
    (.genericParameter 0) f.typeParameters
    (Target.isKind_genericParameter.length_successors_le 0 _)
  have hcallable := flatMap_identifiers_parameters
    ((Identifier.nested package chain).withCallable (some f.callable)) .parameter
    (.callableParameter 0) (f.parameters.map (·.1))
    (Target.isKind_callableParameter.length_successors_le 0 _)
  rw [List.length_map] at hcallable
  rw [ofFunction, identifiers_mk, List.flatMap_append, FunctionDeclaration.targets, List.map_cons,
    List.map_append, ← hgeneric, ← hcallable]
  rfl

/-- The identifiers of a class are its own, those of its entries, those of its functions and those
of the classes inside it. -/
theorem identifiers_classTree (package : Option String) (outer : List String)
    (c : ClassDeclaration) :
    (classTree package outer c).identifiers =
      Identifier.nested package (outer ++ [c.name]) ::
        (c.entries.map (fun e => entryIdentifier package (outer ++ [c.name] ++ [e])) ++
          c.functions.flatMap (fun f =>
            (ofFunction (Identifier.nested package (outer ++ [c.name])) f).identifiers) ++
          c.classes.flatMap (fun inner =>
            (classTree package (outer ++ [c.name]) inner).identifiers)) := by
  obtain ⟨name, entries, functions, classes⟩ := c
  have hentries : entries.flatMap (fun e =>
        (leaf (entryIdentifier package (outer ++ [name] ++ [e])) e .enumEntry).identifiers) =
      entries.map fun e => entryIdentifier package (outer ++ [name] ++ [e]) := by
    simp only [leaf, identifiers_mk, List.flatMap_nil, ← List.map_eq_flatMap]
  rw [classTree, identifiers_mk, classTrees_eq_map, List.flatMap_append, List.flatMap_append,
    List.flatMap_map, List.flatMap_map, List.flatMap_map, hentries]
  rfl

/-- The identifiers of a package are its own and those of its classes. -/
theorem identifiers_packageTree (p : PackageDeclaration) :
    (packageTree p).identifiers =
      Identifier.nested (Identifier.present p.name) [] ::
        p.classes.flatMap (fun c =>
          (classTree (Identifier.present p.name) [] c).identifiers) := by
  rw [packageTree, identifiers_mk, classTrees_eq_map, List.flatMap_map]
  rfl

end Element

/-! ## Unambiguous declarations -/

/-- A class whose parts are told apart by their names, or functions by their names and signatures.
A name has no slash. -/
structure ClassDeclaration.IsUnambiguous (c : ClassDeclaration) : Prop extends c.IsNamed where
  nameSlashless : '/' ∉ c.name.toList
  entriesSlashless : ∀ e ∈ c.entries, '/' ∉ e.toList
  functionsSlashless : ∀ f ∈ c.functions, '/' ∉ f.name.toList ∧ '/' ∉ f.callable.signature.toList
  entriesDistinct : c.entries.Nodup
  functionsDistinct : (c.functions.map fun f => (f.name, f.callable.signature)).Nodup
  classesDistinct : (c.classes.map ClassDeclaration.name).Nodup

/-- A package whose classes are told apart by their names, and likewise at any depth. -/
structure PackageDeclaration.IsUnambiguous (p : PackageDeclaration) : Prop where
  slashless : '/' ∉ p.name.toList
  distinct : (p.classes.map ClassDeclaration.name).Nodup
  classes : ∀ c ∈ ClassDeclaration.allEach p.classes, c.IsUnambiguous

namespace Identifier

/-! ## Places in a package -/

/-- A place inside nested classes of a package, all with names that have no slash. -/
structure IsPlace (package : Option String) (chain : List String) : Prop where
  present : package ≠ some ""
  slashless : ∀ s ∈ package, '/' ∉ s.toList
  names : ∀ n ∈ chain, IsClassName n
  namesSlashless : ∀ n ∈ chain, '/' ∉ n.toList

variable {package : Option String} {chain inner : List String} {m n : String}
  {d x y : Identifier} {ds : List Identifier}

/-- A class inside a place is a place. -/
theorem IsPlace.nest (h : IsPlace package chain) (hname : IsClassName n) (hslash : '/' ∉ n.toList) :
    IsPlace package (chain ++ [n]) where
  present := h.present
  slashless := h.slashless
  names := by
    rw [List.forall_mem_append, List.forall_mem_singleton]
    exact ⟨h.names, hname⟩
  namesSlashless := by
    rw [List.forall_mem_append, List.forall_mem_singleton]
    exact ⟨h.namesSlashless, hslash⟩

/-- An identifier of something in a place: of the place itself or its functions, and then without
metadata, or of something further inside. -/
structure Within (package : Option String) (chain : List String) (d : Identifier) : Prop where
  place : ∃ inner, IsPlace package (chain ++ inner) ∧ d.classPath = pathOf (chain ++ inner) ∧
    (inner = [] → d.metadata = none)
  metadata : d.metadata ≠ some ""
  callable : ∀ c ∈ d.callable, '/' ∉ c.name.toList ∧ '/' ∉ c.signature.toList
  package : d.package = package

namespace Within

theorem wellFormed (h : Within package chain d) : d.WellFormed := by
  obtain ⟨inner, hplace, hpath, -⟩ := h.place
  exact
    { package := h.package ▸ hplace.present
      classPath := hpath ▸ pathOf_ne_some_empty hplace.names
      metadata := h.metadata }

theorem slashless (h : Within package chain d) : d.Slashless := by
  obtain ⟨inner, hplace, hpath, -⟩ := h.place
  exact
    { package := h.package ▸ hplace.slashless
      classPath := hpath ▸ notMem_of_pathOf (by decide) hplace.namesSlashless
      name := fun c hc => (h.callable c hc).1
      signature := fun c hc => (h.callable c hc).2 }

/-- What is inside a class is inside the place of the class. -/
theorem outer (h : Within package (chain ++ [n]) d) : Within package chain d := by
  obtain ⟨inner, hplace, hpath, -⟩ := h.place
  rw [List.append_assoc] at hplace hpath
  exact { h with place := ⟨[n] ++ inner, hplace, hpath, nofun⟩ }

/-- The path of what is inside a class starts with the names that lead to the class. -/
theorem path_eq (h : Within package (chain ++ [n]) d) {names : List String}
    (hnames : ∀ m ∈ names, IsClassName m) (hpath : d.classPath = pathOf names) :
    ∃ inner, names = chain ++ n :: inner ∧ (inner = [] → d.metadata = none) := by
  obtain ⟨inner, hplace, hinner, hmetadata⟩ := h.place
  refine ⟨inner, ?_, hmetadata⟩
  rw [pathOf_inj hnames hplace.names (hpath.symm.trans hinner), List.append_assoc]
  rfl

/-- What is in a place itself has not the slots of anything inside a class of the place. -/
theorem not_sameSlots (h : Within package (chain ++ [n]) y) (hnames : ∀ m ∈ chain, IsClassName m)
    (hpath : x.classPath = pathOf chain) : ¬ x.SameSlots y := by
  intro hsame
  obtain ⟨inner, hchain, -⟩ := h.path_eq hnames (hsame.classPath.symm.trans hpath)
  exact List.cons_ne_nil n inner (List.self_eq_append_right.1 hchain)

/-- An entry has not the slots of anything inside a class next to it, also if that has its name. -/
theorem not_sameSlots_entry (h : Within package (chain ++ [n]) y)
    (hnames : ∀ k ∈ chain ++ [m], IsClassName k) :
    ¬ (Element.entryIdentifier package (chain ++ [m])).SameSlots y := by
  intro hsame
  obtain ⟨inner, hchain, hmetadata⟩ := h.path_eq hnames hsame.classPath.symm
  have hinner : inner = [] := (List.cons.inj (List.append_cancel_left hchain)).2.symm
  exact Option.some_ne_none _ (hsame.metadata.trans (hmetadata hinner))

/-- What is inside one class has not the slots of anything inside another one next to it. -/
theorem not_sameSlots_of_ne (hx : Within package (chain ++ [m]) x)
    (hy : Within package (chain ++ [n]) y) (hne : m ≠ n) : ¬ x.SameSlots y := by
  intro hsame
  obtain ⟨inner, hplace, hpath, -⟩ := hx.place
  obtain ⟨inner', hchain, -⟩ := hy.path_eq hplace.names (hsame.classPath.symm.trans hpath)
  rw [List.append_assoc] at hchain
  exact hne (List.cons.inj (List.append_cancel_left hchain)).1

end Within

/-- Identifiers of things in a place, no two of them with the same slots. -/
structure LaidOut (package : Option String) (chain : List String) (ds : List Identifier) :
    Prop where
  within : ∀ d ∈ ds, Within package chain d
  distinct : ds.Pairwise fun x y => ¬ x.SameSlots y

/-- The identifiers of classes next to one another are laid out if those of each are. -/
theorem laidOut_flatMap {cs : List ClassDeclaration} {ids : ClassDeclaration → List Identifier}
    (hnodup : (cs.map ClassDeclaration.name).Nodup)
    (h : ∀ c ∈ cs, LaidOut package (chain ++ [c.name]) (ids c)) :
    LaidOut package chain (cs.flatMap ids) where
  within := by
    intro d hd
    obtain ⟨c, hc, hd⟩ := List.mem_flatMap.1 hd
    exact ((h c hc).within d hd).outer
  distinct := by
    rw [List.Nodup, List.pairwise_map] at hnodup
    refine List.pairwise_flatMap.2 ⟨fun c hc => (h c hc).distinct, ?_⟩
    refine hnodup.imp_of_mem fun hc hc' hne x hx y hy => ?_
    exact ((h _ hc).within x hx).not_sameSlots_of_ne ((h _ hc').within y hy) hne

end Identifier

namespace Element

open Identifier (nested IsPlace Within LaidOut)

variable {package : Option String} {outer chain : List String}

/-! ## The identifiers of a class -/

/-- A class is in its place. -/
theorem within_nested (h : IsPlace package chain) :
    Within package chain (nested package chain) where
  package := rfl
  place := ⟨[], by rwa [List.append_nil], by rw [List.append_nil, nested], fun _ => rfl⟩
  metadata := nofun
  callable := nofun

/-- The functions of a class and their parameters are in the place of the class. -/
theorem laidOut_functions (h : IsPlace package chain) {functions : List FunctionDeclaration}
    (hslash : ∀ f ∈ functions, '/' ∉ f.name.toList ∧ '/' ∉ f.callable.signature.toList)
    (hnodup : (functions.map fun f => (f.name, f.callable.signature)).Nodup) :
    LaidOut package chain
      (functions.flatMap fun f => (ofFunction (nested package chain) f).identifiers) where
  within := by
    intro d hd
    obtain ⟨f, hf, hd⟩ := List.mem_flatMap.1 hd
    rw [identifiers_ofFunction] at hd
    obtain ⟨t, -, rfl⟩ := List.mem_map.1 hd
    refine { within_nested h with callable := ?_ }
    rintro _ ⟨⟩
    exact hslash f hf
  distinct := by
    rw [List.Nodup, List.pairwise_map] at hnodup
    simp only [identifiers_ofFunction]
    refine List.pairwise_flatMap.2 ⟨fun f _ => ?_, hnodup.imp fun {f g} hne x hx y hy hsame => ?_⟩
    · -- one function: the targets are different
      rw [List.pairwise_map]
      exact f.nodup_targets.imp fun hne hsame => hne hsame.target
    · -- two functions: their names or signatures are different
      obtain ⟨t, -, rfl⟩ := List.mem_map.1 hx
      obtain ⟨u, -, rfl⟩ := List.mem_map.1 hy
      obtain ⟨hname, hsignature⟩ := Option.rel_some_some.1 hsame.callable
      exact hne (Prod.ext hname hsignature)

/-- An identifier of a function or of a part of it has the place of the owner, no metadata, and a
callable. -/
theorem eq_of_mem_functions {functions : List FunctionDeclaration} {d : Identifier}
    (hd : d ∈ functions.flatMap fun f => (ofFunction (nested package chain) f).identifiers) :
    d.classPath = Identifier.pathOf chain ∧ d.metadata = none ∧ ∃ c, d.callable = some c := by
  obtain ⟨f, -, hd⟩ := List.mem_flatMap.1 hd
  rw [identifiers_ofFunction] at hd
  obtain ⟨t, -, rfl⟩ := List.mem_map.1 hd
  exact ⟨rfl, rfl, f.callable, rfl⟩

/-- The entries of a class are inside its place. -/
theorem laidOut_entries (h : IsPlace package chain) {entries : List String}
    (hnames : ∀ e ∈ entries, IsClassName e) (hslash : ∀ e ∈ entries, '/' ∉ e.toList)
    (hnodup : entries.Nodup) :
    LaidOut package chain (entries.map fun e => entryIdentifier package (chain ++ [e])) where
  within := by
    intro d hd
    obtain ⟨e, he, rfl⟩ := List.mem_map.1 hd
    exact
      { package := rfl
        place := ⟨[e], h.nest (hnames e he) (hslash e he), rfl, nofun⟩
        metadata := fun hempty => absurd (Option.some.inj hempty) (by decide)
        callable := nofun }
  distinct := by
    rw [List.pairwise_map]
    refine hnodup.imp_of_mem fun {e e'} he he' hne hsame => hne ?_
    have hpath := Identifier.pathOf_inj (h.nest (hnames e he) (hslash e he)).names
      (h.nest (hnames e' he') (hslash e' he')).names hsame.classPath
    exact List.singleton_inj.1 (List.append_cancel_left hpath)

/-- **All that is inside a class is laid out** if that holds of each class inside it. -/
theorem laidOut_of_classes {c : ClassDeclaration} (h : IsPlace package (outer ++ [c.name]))
    (hc : c.IsUnambiguous)
    (hclasses : ∀ inner ∈ c.classes, LaidOut package (outer ++ [c.name] ++ [inner.name])
      (classTree package (outer ++ [c.name]) inner).identifiers) :
    LaidOut package (outer ++ [c.name]) (classTree package outer c).identifiers := by
  rw [identifiers_classTree]
  generalize outer ++ [c.name] = chain at h hclasses
  have hentries := laidOut_entries h hc.entries hc.entriesSlashless hc.entriesDistinct
  have hfunctions := laidOut_functions h hc.functionsSlashless hc.functionsDistinct
  have hinner := Identifier.laidOut_flatMap hc.classesDistinct hclasses
  have hwithin : ∀ d ∈ c.classes.flatMap fun inner => (classTree package chain inner).identifiers,
      ∃ n, Within package (chain ++ [n]) d := by
    intro d hd
    obtain ⟨inner, hmem, hd⟩ := List.mem_flatMap.1 hd
    exact ⟨inner.name, (hclasses inner hmem).within d hd⟩
  have hentry : ∀ d ∈ c.entries.map fun e => entryIdentifier package (chain ++ [e]),
      ∃ e, (∀ n ∈ chain ++ [e], IsClassName n) ∧ d = entryIdentifier package (chain ++ [e]) := by
    intro d hd
    obtain ⟨e, he, rfl⟩ := List.mem_map.1 hd
    exact ⟨e, (h.nest (hc.entries e he) (hc.entriesSlashless e he)).names, rfl⟩
  -- the class itself has neither metadata nor a callable
  have hself_entry : ∀ d ∈ c.entries.map fun e => entryIdentifier package (chain ++ [e]),
      ¬ (nested package chain).SameSlots d := by
    intro d hd hsame
    obtain ⟨e, -, rfl⟩ := hentry d hd
    exact Option.some_ne_none _ hsame.metadata.symm
  have hself_function : ∀ d ∈ c.functions.flatMap fun f =>
      (ofFunction (nested package chain) f).identifiers, ¬ (nested package chain).SameSlots d := by
    intro d hd hsame
    obtain ⟨-, -, callable, hcallable⟩ := eq_of_mem_functions hd
    exact Option.not_rel_none_some (hcallable ▸ hsame.callable)
  -- an entry has metadata, and no part of a function has
  have hentry_function : ∀ x ∈ c.entries.map fun e => entryIdentifier package (chain ++ [e]),
      ∀ y ∈ c.functions.flatMap fun f => (ofFunction (nested package chain) f).identifiers,
        ¬ x.SameSlots y := by
    intro x hx y hy hsame
    obtain ⟨e, -, rfl⟩ := hentry x hx
    obtain ⟨-, hmetadata, -⟩ := eq_of_mem_functions hy
    exact Option.some_ne_none _ (hsame.metadata.trans hmetadata)
  constructor
  · simp only [List.forall_mem_cons, List.forall_mem_append]
    exact ⟨within_nested h, ⟨hentries.within, hfunctions.within⟩, hinner.within⟩
  · rw [List.pairwise_cons, List.pairwise_append, List.pairwise_append, List.forall_mem_append,
      List.forall_mem_append]
    refine ⟨⟨⟨hself_entry, hself_function⟩, fun d hd => ?_⟩,
      ⟨hentries.distinct, hfunctions.distinct, hentry_function⟩, hinner.distinct,
      fun x hx y hy => ?_⟩
    · obtain ⟨n, hd⟩ := hwithin d hd
      exact hd.not_sameSlots h.names rfl
    · obtain ⟨n, hy⟩ := hwithin y hy
      rcases List.mem_append.1 hx with hx | hx
      · obtain ⟨e, hnames, rfl⟩ := hentry x hx
        exact hy.not_sameSlots_entry hnames
      · obtain ⟨hpath, -, -⟩ := eq_of_mem_functions hx
        exact hy.not_sameSlots h.names hpath

/-- The identifiers of a class and of all that is inside it are laid out. -/
theorem laidOut_classTree {c : ClassDeclaration} (houter : IsPlace package outer)
    (hclear : ∀ x ∈ c.all, x.IsUnambiguous) :
    LaidOut package (outer ++ [c.name]) (classTree package outer c).identifiers := by
  induction c using ClassDeclaration.nestedInduction generalizing outer with
  | nest name entries functions classes ih =>
    obtain ⟨hself, hclasses⟩ := ClassDeclaration.forall_mem_all_iff.1 hclear
    have hplace := houter.nest hself.name hself.nameSlashless
    exact laidOut_of_classes hplace hself fun c hc => ih c hc hplace (hclasses c hc)

/-- The identifiers of a package are laid out. -/
theorem laidOut_packageTree {p : PackageDeclaration} (h : p.IsUnambiguous) :
    LaidOut (Identifier.present p.name) [] (packageTree p).identifiers := by
  have hplace : IsPlace (Identifier.present p.name) [] :=
    { present := Identifier.present_ne_some_empty p.name
      slashless := by
        intro s hs
        rw [Identifier.present] at hs
        split at hs
        · cases hs
        · cases hs
          exact h.slashless
      names := by simp
      namesSlashless := by simp }
  have hclasses : ∀ c ∈ p.classes, LaidOut (Identifier.present p.name) ([] ++ [c.name])
      (classTree (Identifier.present p.name) [] c).identifiers := fun c hc =>
    laidOut_classTree hplace (ClassDeclaration.forall_mem_allEach_iff.1 h.classes c hc)
  have hinner : LaidOut (Identifier.present p.name) [] _ :=
    Identifier.laidOut_flatMap h.distinct hclasses
  rw [identifiers_packageTree]
  refine ⟨List.forall_mem_cons.2 ⟨within_nested hplace, hinner.within⟩,
    List.pairwise_cons.2 ⟨fun d hd => ?_, hinner.distinct⟩⟩
  obtain ⟨c, hc, hd⟩ := List.mem_flatMap.1 hd
  exact ((hclasses c hc).within d hd).not_sameSlots hplace.names rfl

/-- Elements of packages with different names have keys of their own. -/
theorem nodup_keys_packageTrees {packages : List PackageDeclaration}
    (hdistinct : (packages.map PackageDeclaration.name).Nodup)
    (h : ∀ p ∈ packages, p.IsUnambiguous) :
    ((packages.flatMap fun p => (packageTree p).identifiers).map Identifier.key).Nodup := by
  rw [List.Nodup, List.pairwise_map] at hdistinct
  have hlaid : (packages.flatMap fun p => (packageTree p).identifiers).Pairwise
      fun x y => ¬ x.SameSlots y := by
    refine List.pairwise_flatMap.2 ⟨fun p hp => (laidOut_packageTree (h p hp)).distinct, ?_⟩
    refine hdistinct.imp_of_mem fun hp hq hne x hx y hy hsame => hne ?_
    have hpx := ((laidOut_packageTree (h _ hp)).within x hx).package
    have hqy := ((laidOut_packageTree (h _ hq)).within y hy).package
    exact Identifier.present_inj (hpx.symm.trans (hsame.package.trans hqy))
  have hwithin : ∀ d ∈ packages.flatMap fun p => (packageTree p).identifiers,
      d.WellFormed ∧ d.Slashless := by
    intro d hd
    obtain ⟨p, hp, hd⟩ := List.mem_flatMap.1 hd
    have hd := (laidOut_packageTree (h p hp)).within d hd
    exact ⟨hd.wellFormed, hd.slashless⟩
  rw [List.Nodup, List.pairwise_map]
  refine hlaid.imp_of_mem fun hx hy hne hkey => hne ?_
  obtain ⟨wx, sx⟩ := hwithin _ hx
  obtain ⟨wy, sy⟩ := hwithin _ hy
  exact sx.sameSlots wx wy sy hkey

end Element

/-- **A module of unambiguous declarations is indexed with an entry for each element**, since no two
elements share a key. -/
theorem Module.ofList_identifiers_ofDeclarations (name : String) (platformData : PlatformData)
    {packages : List PackageDeclaration}
    (hdistinct : (packages.map PackageDeclaration.name).Nodup)
    (h : ∀ p ∈ packages, p.IsUnambiguous) :
    ∃ m index, ofDeclarations name platformData packages = .ok m ∧
      Index.ofList m.identifiers = .ok index ∧ index.size = m.elements.length ∧
      (m.identifiers.map Identifier.key).Nodup := by
  have hmodule := ofDeclarations_eq name platformData fun p hp c hc =>
    ((h p hp).classes c hc).toIsNamed
  have hidentifiers : identifiers ⟨name, platformData, packages.map Element.packageTree⟩ =
      packages.flatMap fun p => (Element.packageTree p).identifiers := by
    rw [identifiers, elements, Element.walkEach_eq_flatMap, List.flatMap_map, List.map_flatMap]
    rfl
  have hnodup := Element.nodup_keys_packageTrees hdistinct h
  rw [← hidentifiers] at hnodup
  refine ⟨_, _, hmodule, Index.ofList_eq_ok_iff.2 (Index.insertEach_of_nodup hnodup), ?_, hnodup⟩
  rw [Ledger.size, List.nil_append, List.length_map, identifiers, List.length_map]

/-- A class with an entry and a class inside it that share a name, and with a function that has a
type parameter and a value parameter; and the package without a name. -/
def PackageDeclaration.sharedNames : List PackageDeclaration :=
  [⟨"kotlin", [.mk "Enum" ["A"] [⟨"map", ["T"], [("x", .named "Int")], none⟩] [.mk "A" [] [] []]]⟩,
    ⟨"", []⟩]

theorem PackageDeclaration.isUnambiguous_of_mem_sharedNames :
    ∀ p ∈ sharedNames, p.IsUnambiguous := by
  have hEnum : IsClassName "Enum" := ⟨by decide, by decide⟩
  have hA : IsClassName "A" := ⟨by decide, by decide⟩
  refine List.forall_mem_cons.2 ⟨⟨by decide, by decide, ?_⟩, List.forall_mem_singleton.2
    ⟨by decide, List.nodup_nil, fun c hc => by cases hc⟩⟩
  refine List.forall_mem_cons.2 ⟨⟨⟨hEnum, List.forall_mem_singleton.2 hA⟩, ?_, ?_, ?_, ?_, ?_, ?_⟩,
    List.forall_mem_singleton.2 ⟨⟨hA, List.forall_mem_nil _⟩, ?_, ?_, ?_, ?_, ?_, ?_⟩⟩
  all_goals decide

/-- Eight elements have eight keys, though an entry shares its path with a class and a type
parameter its position with a value parameter. -/
theorem Module.ofList_identifiers_ofDeclarations_sharedNames :
    (PackageDeclaration.sharedNames.map PackageDeclaration.name).Nodup ∧
      (∀ p ∈ PackageDeclaration.sharedNames, p.IsUnambiguous) ∧
      ∃ m index, ofDeclarations "m" ⟨.common, []⟩ PackageDeclaration.sharedNames = .ok m ∧
        Index.ofList m.identifiers = .ok index ∧ index.size = 8 ∧
        (m.identifiers.map Identifier.key).Nodup := by
  have hdistinct : (PackageDeclaration.sharedNames.map PackageDeclaration.name).Nodup := by decide
  have hclear := PackageDeclaration.isUnambiguous_of_mem_sharedNames
  obtain ⟨m, index, hm, hindex, hsize, hnodup⟩ :=
    ofList_identifiers_ofDeclarations "m" ⟨.common, []⟩ hdistinct hclear
  have hcount : m.elements.length = 8 := by
    cases hm
    rfl
  exact ⟨hdistinct, hclear, m, index, hm, hindex, hsize.trans hcount, hnodup⟩

end DocIdent
