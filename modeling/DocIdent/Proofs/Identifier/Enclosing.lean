import DocIdent.Identifier.Ancestry
import DocIdent.Proofs.Identifier.History
import DocIdent.Proofs.Identifier.Nesting

/-!
# Going up undoes going down

The parent gives up what was added last: the first fact (`Identifier.parent_withFact`), the target
of a parameter (`Identifier.parent_withTarget`), a callable (`Identifier.parent_withCallable`) or
the innermost class (`Identifier.parent_withClass`), as long as nothing that goes first was there.
`Identifier.parent_of_step` puts the four together. So what encloses a class is the class that it is
nested in, or the package, and what encloses that (`Identifier.ancestors_nested`).
-/

namespace DocIdent.Identifier

variable {d : Identifier} {name : String}

/-! ## One part -/

/-- Metadata goes first. -/
theorem parent_of_metadata (h : d.metadata.isSome) : d.parent = { d with metadata := none } :=
  if_pos h

/-- What encloses an identifier is known from its parent. -/
theorem ancestors_of_parent {e : Identifier} (hd : d ≠ root) (h : d.parent = e) :
    d.ancestors = e :: e.ancestors := by
  rw [ancestors_of_ne_root hd, h]

/-- The parent of a parameter is what it is a parameter of. -/
theorem parent_withTarget {t : Target} (hmetadata : d.metadata = none)
    (htarget : d.target = .declaration) (ht : t.isDeclaration = false) :
    (d.withTarget t).parent = d := by
  obtain ⟨package, classPath, metadata, callable, target⟩ := d
  obtain rfl : metadata = none := hmetadata
  obtain rfl : target = .declaration := htarget
  simp [parent, withTarget, ofDeclaration, ht]

/-- The parent of a callable is what it is declared in. -/
theorem parent_withCallable {c : Callable} (hmetadata : d.metadata = none)
    (htarget : d.target = .declaration) (hcallable : d.callable = none) :
    (d.withCallable (some c)).parent = d := by
  obtain ⟨package, classPath, metadata, callable, target⟩ := d
  obtain rfl : metadata = none := hmetadata
  obtain rfl : target = .declaration := htarget
  obtain rfl : callable = none := hcallable
  rfl

/-- The path around the innermost class is the path that the class was nested in, unless that is
blank. -/
theorem enclosingPath_nestedPath {path : Option String}
    (hpath : ∀ p ∈ path, Text.isBlankText p.toList = false) (hdot : '.' ∉ name.toList) :
    enclosingPath (nestedPath path name) = path := by
  cases path with
  | none =>
    have huncut : Text.beforeLast '.' name.toList = none := Text.beforeLast_eq_none_iff.2 hdot
    rw [nestedPath, enclosingPath, huncut]
  | some outer =>
    have houter := hpath outer rfl
    have hcut : Text.beforeLast '.' (outer ++ "." ++ name).toList = some outer.toList :=
      Text.beforeLast_eq_some_iff.2 ⟨name.toList, by simp, hdot⟩
    rw [nestedPath, houter, if_neg Bool.false_ne_true, enclosingPath, hcut]
    simp [houter]

/-- The parent of a class is the class or the package that it is nested in. -/
theorem parent_withClass (hmetadata : d.metadata = none) (htarget : d.target = .declaration)
    (hcallable : d.callable = none)
    (hpath : ∀ p ∈ d.classPath, Text.isBlankText p.toList = false) (hname : name ≠ "")
    (hdot : '.' ∉ name.toList) : (d.withClass name).parent = d := by
  obtain ⟨package, classPath, metadata, callable, target⟩ := d
  obtain rfl : metadata = none := hmetadata
  obtain rfl : target = .declaration := htarget
  obtain rfl : callable = none := hcallable
  have hpresent : present (nestedPath classPath name) = some (nestedPath classPath name) := by
    refine if_neg fun hempty => hname ?_
    unfold nestedPath at hempty
    split at hempty
    · split at hempty
      · exact hempty
      · simp at hempty
    · exact hempty
  simp only [withClass, withClassPath, Option.bind_some, hpresent, parent, Option.isSome_none,
    Bool.false_eq_true, if_false, Target.isDeclaration, Bool.not_true,
    enclosingPath_nestedPath hpath hdot]

/-- The parent of an identifier with its first fact is the identifier without it. -/
theorem parent_withFact {α : Type} {p : Property α} {a : α} (hmetadata : d.metadata = none)
    (hset : ¬ Metadata.Refused p a) (htext : (p.encode a).isSome) :
    ∃ d', d.withFact p a = .ok d' ∧ d'.parent = d := by
  rcases (carries_empty hmetadata).withFact_cases p a with
    ⟨hrefused, -⟩ | ⟨-, hnone, -⟩ | ⟨text, -, -, hok⟩
  · exact absurd hrefused hset
  · rw [hnone] at htext
    cases htext
  · refine ⟨_, hok, ?_⟩
    rw [parent_of_metadata rfl, ← hmetadata]

/-- **Going up undoes each step down.** From an identifier without metadata, the parent takes back
the first fact whenever the key of its property is one and its value has a text without a
separator. If the identifier is that of a declaration, the parent takes back every other target; if
it has no callable either, every callable; and if its class path, where it has one, is not blank,
every class whose name is not empty and has no dot. -/
theorem parent_of_step (hmetadata : d.metadata = none) :
    (d.target = .declaration →
        (∀ t : Target, t.isDeclaration = false → (d.withTarget t).parent = d) ∧
          (d.callable = none →
            (∀ c, (d.withCallable (some c)).parent = d) ∧
              ((∀ path ∈ d.classPath, ∃ c ∈ path.toList, Text.isBlank c = false) →
                ∀ name, name ≠ "" → '.' ∉ name.toList → (d.withClass name).parent = d))) ∧
      ∀ {α : Type} (p : Property α) (a : α) (text : String), p.key ≠ "" →
        Metadata.separator ∉ p.key.toList → p.encode a = some text →
        Metadata.separator ∉ text.toList → ∃ d', d.withFact p a = .ok d' ∧ d'.parent = d := by
  refine ⟨fun htarget => ⟨fun t => parent_withTarget hmetadata htarget, fun hcallable =>
    ⟨fun c => parent_withCallable hmetadata htarget hcallable, fun hpath name => ?_⟩⟩, ?_⟩
  · refine parent_withClass hmetadata htarget hcallable fun path hmem => ?_
    obtain ⟨c, hc, hblank⟩ := hpath path hmem
    refine Bool.eq_false_iff.2 fun hall => ?_
    rw [List.all_eq_true.1 hall c hc] at hblank
    cases hblank
  · intro α p a text hkey hseparator htext hclean
    refine parent_withFact hmetadata ?_ (htext ▸ rfl)
    rintro (hempty | hbroken | ⟨text', htext', hbroken⟩)
    · exact hkey hempty
    · exact hseparator hbroken
    · obtain rfl : text = text' := Option.some.inj (htext.symm.trans htext')
      exact hclean hbroken

/-- A path that ends in a dot takes a class with a blank name, and a fact with an empty text is
taken back from a parameter of a callable. -/
theorem parent_of_step_trailingDot :
    ((declared "kotlin" (some " Map.")).withClass " ").parent = declared "kotlin" (some " Map.") ∧
      ∃ d', (unit.withTarget (.callableParameter 0)).withFact .enumEntry () = .ok d' ∧
        d'.parent = unit.withTarget (.callableParameter 0) := by
  constructor
  · have hpath : ∃ c ∈ " Map.".toList, Text.isBlank c = false := ⟨'M', by decide, by decide⟩
    have hlaws := parent_of_step (d := declared "kotlin" (some " Map.")) rfl
    exact ((hlaws.1 rfl).2 rfl).2 (by rintro path ⟨⟩; exact hpath) " " (by decide) (by decide)
  · exact (parent_of_step (d := unit.withTarget (.callableParameter 0)) rfl).2 .enumEntry () ""
      (by decide) (by decide) rfl (by decide)

/-! ## Nested classes -/

variable {package : Option String} {chain : List String}

/-- **The parent of a nested class is the class around it**, or the package. -/
theorem parent_nested (h : ∀ n ∈ chain ++ [name], IsClassName n) :
    (nested package (chain ++ [name])).parent = nested package chain := by
  obtain ⟨hchain, hname⟩ := List.forall_mem_append.1 h
  have hclass := List.forall_mem_singleton.1 hname
  rw [← withClass_nested h]
  refine parent_withClass rfl rfl rfl (fun path hpath => ?_) ?_ hclass.dotless
  · rcases eq_or_ne chain [] with rfl | hne
    · cases hpath
    · rw [nested, pathOf_of_ne_nil hne] at hpath
      cases hpath
      exact isBlankText_intercalate hne hchain
  · intro hempty
    have hblank := hclass.notBlank
    rw [hempty] at hblank
    exact absurd hblank (by decide)

/-- What encloses a nested class is the class around it, or the package, and what encloses that. -/
theorem ancestors_nested (h : ∀ n ∈ chain ++ [name], IsClassName n) :
    (nested package (chain ++ [name])).ancestors =
      nested package chain :: (nested package chain).ancestors := by
  refine ancestors_of_parent (fun hroot => ?_) (parent_nested h)
  have hpath : pathOf (chain ++ [name]) = none := congrArg classPath hroot
  rw [pathOf_of_ne_nil (List.append_ne_nil_of_right_ne_nil _ (List.cons_ne_nil _ _))] at hpath
  cases hpath

end DocIdent.Identifier
