import DocIdent.Identifier
import Mathlib.Data.List.Basic

/-!
# Classes nested in classes

The path of nested classes is their names, outermost first, with a dot between any two
(`Identifier.pathOf`). If each name is one that a class can have (`IsClassName`), nesting a class
adds its name at the end (`Identifier.withClass_nested`), and the path says which classes they are
(`Identifier.pathOf_inj`).
-/

namespace DocIdent

/-- A name that a class can have: it has no dot, and it is not blank. -/
structure IsClassName (name : String) : Prop where
  dotless : '.' ∉ name.toList
  notBlank : Text.isBlankText name.toList = false

namespace Identifier

variable {chain other : List String} {name : String}

/-- A text is known by what is present of it. -/
theorem present_inj {s t : String} (h : present s = present t) : s = t := by
  unfold present at h
  split at h <;> split at h
  next hs ht => rw [hs, ht]
  next => cases h
  next => cases h
  next => exact Option.some.inj h

/-- The path of nested classes, outermost first; of no class there is none. -/
def pathOf (chain : List String) : Option String :=
  if chain = [] then none else some (".".intercalate chain)

theorem pathOf_of_ne_nil (h : chain ≠ []) : pathOf chain = some (".".intercalate chain) :=
  if_neg h

/-- The identifier of the innermost of nested classes in a package. -/
def nested (package : Option String) (chain : List String) : Identifier :=
  { package, classPath := pathOf chain }

/-- A path with a name that is not blank is not blank. -/
theorem isBlankText_intercalate (hne : chain ≠ []) (h : ∀ n ∈ chain, IsClassName n) :
    Text.isBlankText (".".intercalate chain).toList = false := by
  obtain ⟨first, rest, rfl⟩ := List.exists_cons_of_ne_nil hne
  have hfirst := (h first (.head _)).notBlank
  unfold Text.isBlankText at hfirst ⊢
  cases rest with
  | nil => rwa [String.intercalate_singleton]
  | cons second rest =>
    rw [String.intercalate_cons_cons, String.toList_append, String.toList_append, List.all_append,
      List.all_append, hfirst, Bool.false_and, Bool.false_and]

/-- A class that is nested further adds its name to the path. -/
theorem nestedPath_pathOf (h : ∀ n ∈ chain, IsClassName n) (name : String) :
    some (nestedPath (pathOf chain) name) = pathOf (chain ++ [name]) := by
  rw [pathOf_of_ne_nil (List.append_ne_nil_of_right_ne_nil chain (List.cons_ne_nil name []))]
  rcases eq_or_ne chain [] with rfl | hne
  · rw [List.nil_append, String.intercalate_singleton]
    rfl
  · rw [pathOf_of_ne_nil hne, nestedPath, isBlankText_intercalate hne h,
      if_neg Bool.false_ne_true,
      String.intercalate_append_of_ne_nil hne (List.cons_ne_nil name []),
      String.intercalate_singleton]

/-- The path of classes that have names is not there but empty. -/
theorem pathOf_ne_some_empty (h : ∀ n ∈ chain, IsClassName n) : pathOf chain ≠ some "" := by
  rcases eq_or_ne chain [] with rfl | hne
  · exact nofun
  intro hempty
  rw [pathOf_of_ne_nil hne, Option.some.injEq] at hempty
  have hblank := isBlankText_intercalate hne h
  rw [hempty] at hblank
  exact absurd hblank (by decide)

/-- A path of a class that has a name is present. -/
theorem present_intercalate (hne : chain ≠ []) (h : ∀ n ∈ chain, IsClassName n) :
    present (".".intercalate chain) = some (".".intercalate chain) :=
  if_neg fun hempty => pathOf_ne_some_empty h (by rw [pathOf_of_ne_nil hne, hempty])

/-- **Nesting a class adds its name to the chain.** -/
theorem withClass_nested {package : Option String} (h : ∀ n ∈ chain ++ [name], IsClassName n) :
    (nested package chain).withClass name = nested package (chain ++ [name]) := by
  have hpath := nestedPath_pathOf (fun n hn => h n (List.mem_append_left _ hn)) name
  have hne : chain ++ [name] ≠ [] := List.append_ne_nil_of_right_ne_nil _ (List.cons_ne_nil _ _)
  rw [pathOf_of_ne_nil hne] at hpath
  have hpresent : (some (nestedPath (pathOf chain) name)).bind present =
      pathOf (chain ++ [name]) := by
    rw [hpath, Option.bind_some, present_intercalate hne h, pathOf_of_ne_nil hne]
  exact congrArg (fun path => ({ package, classPath := path } : Identifier)) hpresent

/-- **A path says which classes are nested**, and how. -/
theorem pathOf_inj (hchain : ∀ n ∈ chain, IsClassName n) (hother : ∀ n ∈ other, IsClassName n)
    (h : pathOf chain = pathOf other) : chain = other := by
  rcases eq_or_ne chain [] with rfl | hne
  · by_contra hne
    rw [pathOf_of_ne_nil (Ne.symm hne)] at h
    cases h
  rcases eq_or_ne other [] with rfl | hne'
  · rw [pathOf_of_ne_nil hne] at h
    cases h
  -- a path is cut into its names at the dots
  have hcut : ∀ names : List String, names ≠ [] → (∀ n ∈ names, IsClassName n) →
      (".".intercalate names).toList.splitOn '.' = names.map String.toList := by
    intro names hnames hclass
    rw [String.toList_intercalate]
    refine List.splitOn_intercalate '.' (fun piece hpiece => ?_) (by simpa using hnames)
    obtain ⟨n, hn, rfl⟩ := List.mem_map.1 hpiece
    exact (hclass n hn).dotless
  rw [pathOf_of_ne_nil hne, pathOf_of_ne_nil hne'] at h
  have hnames : chain.map String.toList = other.map String.toList := by
    rw [← hcut chain hne hchain, ← hcut other hne' hother, Option.some.inj h]
  exact List.map_injective_iff.2 (fun _ _ => String.toList_inj.1) hnames

/-- A path has no character, but for the dots, that no name has. -/
theorem notMem_of_pathOf {c : Char} (hdot : c ≠ '.') (h : ∀ n ∈ chain, c ∉ n.toList) :
    ∀ path ∈ pathOf chain, c ∉ path.toList := by
  intro path hpath
  rcases eq_or_ne chain [] with rfl | hne
  · cases hpath
  rw [pathOf_of_ne_nil hne] at hpath
  cases hpath
  clear hne
  induction chain with
  | nil => exact List.not_mem_nil
  | cons first rest ih =>
    obtain ⟨hfirst, hrest⟩ := List.forall_mem_cons.1 h
    cases rest with
    | nil => rwa [String.intercalate_singleton]
    | cons second rest =>
      rw [String.intercalate_cons_cons, String.toList_append, String.toList_append]
      simp only [List.mem_append, not_or]
      exact ⟨⟨hfirst, by simpa using hdot⟩, ih hrest⟩

end Identifier

end DocIdent
