import DocIdent.Proofs.Ancestry
import DocIdent.Proofs.Key
import Mathlib.Data.List.Forall2

/-!
# The slots of a key

Five slashes cut a key into its six slots (`Identifier.keyChars_eq_slots`). If no slot before the
last has a slash of its own (`Identifier.Slashless`), and in particular if the key has no more than
those five (`Identifier.slashless_of_count`), the slots are read off the key; so two identifiers
with one such key have the same slots (`Identifier.SameSlots`), though the types in them may differ.
Conversely the slots make up the key, and those of an identifier make up those of its parent
(`Identifier.SameSlots.parent`); so the keys agree all the way to the root. Both are put together in
`Identifier.sameSlots_of_key_eq`.
-/

namespace DocIdent

/-- A signature has a number sign. -/
theorem Callable.signatureChars_ne_nil (c : Callable) : c.signatureChars ≠ [] := by
  intro h
  exact List.cons_ne_nil _ _ (List.append_eq_nil_iff.1 h).2

namespace Identifier

/-! ## The slots of one key -/

/-- The slot of the callable's name. -/
def nameSlot (d : Identifier) : List Char :=
  match d.callable with
  | some c => c.name.toList
  | none => []

/-- The slot of the callable's signature. -/
def signatureSlot (d : Identifier) : List Char :=
  match d.callable with
  | some c => c.signatureChars
  | none => []

/-- A key is six slots with a slash between any two. -/
theorem keyChars_eq_slots (d : Identifier) :
    d.keyChars = optionalChars d.package ++ '/' :: (optionalChars d.classPath ++ '/' ::
      (d.nameSlot ++ '/' :: (d.signatureSlot ++ '/' ::
        (d.target.chars ++ '/' :: optionalChars d.metadata)))) := by
  simp only [keyChars, List.append_assoc, List.cons_append]
  rfl

/-- No slot before the target has a slash of its own. -/
structure Slashless (d : Identifier) : Prop where
  package : ∀ s ∈ d.package, '/' ∉ s.toList
  classPath : ∀ s ∈ d.classPath, '/' ∉ s.toList
  name : ∀ c ∈ d.callable, '/' ∉ c.name.toList
  signature : ∀ c ∈ d.callable, '/' ∉ c.signature.toList

variable {d x y : Identifier}

theorem Slashless.nameSlot (h : d.Slashless) : '/' ∉ d.nameSlot := by
  unfold Identifier.nameSlot
  split
  next c hc => exact h.name c hc
  next => exact List.not_mem_nil

theorem Slashless.signatureSlot (h : d.Slashless) : '/' ∉ d.signatureSlot := by
  unfold Identifier.signatureSlot
  split
  next c hc =>
    have := h.signature c hc
    rwa [Callable.signature, String.toList_ofList] at this
  next => exact List.not_mem_nil

/-- A key with five slashes has none within a slot. -/
theorem slashless_of_count (h : d.key.toList.count '/' = 5) : d.Slashless := by
  rw [key, String.toList_ofList, keyChars_eq_slots] at h
  simp only [List.count_append, List.count_cons_self] at h
  have hpackage : '/' ∉ optionalChars d.package := List.count_eq_zero.1 (by omega)
  have hclassPath : '/' ∉ optionalChars d.classPath := List.count_eq_zero.1 (by omega)
  have hname : '/' ∉ d.nameSlot := List.count_eq_zero.1 (by omega)
  have hsignature : '/' ∉ d.signatureSlot := List.count_eq_zero.1 (by omega)
  refine ⟨fun s hs => ?_, fun s hs => ?_, fun c hc => ?_, fun c hc => ?_⟩
  · rwa [Option.mem_def.1 hs] at hpackage
  · rwa [Option.mem_def.1 hs] at hclassPath
  · rwa [nameSlot, Option.mem_def.1 hc] at hname
  · rw [signatureSlot, Option.mem_def.1 hc] at hsignature
    rwa [Callable.signature, String.toList_ofList]

/-! ## Two identifiers with the same slots -/

/-- Two identifiers have the same package, class path, target and metadata, and both have a callable
or neither has one; their callables have the same name and the same signature, of whatever types it
is made. -/
structure SameSlots (x y : Identifier) : Prop where
  package : x.package = y.package
  classPath : x.classPath = y.classPath
  target : x.target = y.target
  metadata : x.metadata = y.metadata
  callable : Option.Rel (fun c d => c.name = d.name ∧ c.signature = d.signature)
    x.callable y.callable

theorem sameSlots_refl (d : Identifier) : d.SameSlots d where
  package := rfl
  classPath := rfl
  target := rfl
  metadata := rfl
  callable := by
    cases d.callable with
    | none => exact .none
    | some c => exact .some ⟨rfl, rfl⟩

/-- The slots make up the key. -/
theorem SameSlots.key_eq (h : x.SameSlots y) : x.key = y.key := by
  have hcallable : x.nameSlot = y.nameSlot ∧ x.signatureSlot = y.signatureSlot := by
    have hsame := h.callable
    unfold nameSlot signatureSlot
    generalize x.callable = c at hsame
    generalize y.callable = d at hsame
    cases hsame with
    | none => exact ⟨rfl, rfl⟩
    | some hsame => exact ⟨congrArg String.toList hsame.1, String.ofList_inj.1 hsame.2⟩
  rw [key, key, keyChars_eq_slots, keyChars_eq_slots, h.package, h.classPath, h.target, h.metadata,
    hcallable.1, hcallable.2]

/-- What stands in the two slots of a callable tells whether there is one, its name and its
signature. -/
theorem callable_of_slots (hname : x.nameSlot = y.nameSlot)
    (hsignature : x.signatureSlot = y.signatureSlot) :
    Option.Rel (fun c d => c.name = d.name ∧ c.signature = d.signature) x.callable y.callable := by
  unfold nameSlot at hname
  unfold signatureSlot at hsignature
  cases hx : x.callable with
  | none =>
    cases hy : y.callable with
    | none => exact .none
    | some d =>
      rw [hx, hy] at hsignature
      exact absurd hsignature.symm d.signatureChars_ne_nil
  | some c =>
    cases hy : y.callable with
    | none =>
      rw [hx, hy] at hsignature
      exact absurd hsignature c.signatureChars_ne_nil
    | some d =>
      rw [hx, hy] at hname hsignature
      exact .some ⟨String.toList_inj.1 hname, String.ofList_inj.2 hsignature⟩

/-- **The slots are read off the key** if those before the target have no slash. -/
theorem Slashless.sameSlots (hx : x.WellFormed) (hy : y.WellFormed) (sx : x.Slashless)
    (sy : y.Slashless) (h : x.key = y.key) : x.SameSlots y := by
  have hchars : x.keyChars = y.keyChars := String.ofList_inj.1 h
  rw [keyChars_eq_slots, keyChars_eq_slots] at hchars
  obtain ⟨hpackage, hchars⟩ := Text.slot_append_inj (slash_not_mem_optionalChars sx.package)
    (slash_not_mem_optionalChars sy.package) hchars
  obtain ⟨hclassPath, hchars⟩ := Text.slot_append_inj (slash_not_mem_optionalChars sx.classPath)
    (slash_not_mem_optionalChars sy.classPath) hchars
  obtain ⟨hname, hchars⟩ := Text.slot_append_inj sx.nameSlot sy.nameSlot hchars
  obtain ⟨hsignature, hchars⟩ := Text.slot_append_inj sx.signatureSlot sy.signatureSlot hchars
  obtain ⟨htarget, hmetadata⟩ := Text.slot_append_inj x.target.slash_not_mem_chars
    y.target.slash_not_mem_chars hchars
  exact
    { package := optionalChars_inj hx.package hy.package hpackage
      classPath := optionalChars_inj hx.classPath hy.classPath hclassPath
      target := Target.chars_inj htarget
      metadata := optionalChars_inj hx.metadata hy.metadata hmetadata
      callable := callable_of_slots hname hsignature }

/-- Only the root has the slots of the root. -/
theorem SameSlots.eq_root_iff (h : x.SameSlots y) : x = root ↔ y = root := by
  obtain ⟨package, classPath, metadata, callable, target⟩ := x
  obtain ⟨package', classPath', metadata', callable', target'⟩ := y
  obtain ⟨rfl, rfl, rfl, rfl, hcallable⟩ := h
  cases hcallable with
  | none => exact Iff.rfl
  | some hsame => exact iff_of_false nofun nofun

/-- The parents of identifiers with the same slots have the same slots. -/
theorem SameSlots.parent (h : x.SameSlots y) : x.parent.SameSlots y.parent := by
  obtain ⟨package, classPath, metadata, callable, target⟩ := x
  obtain ⟨package', classPath', metadata', callable', target'⟩ := y
  obtain ⟨rfl, rfl, rfl, rfl, hcallable⟩ := h
  cases metadata with
  | some blob => exact ⟨rfl, rfl, rfl, rfl, hcallable⟩
  | none =>
    cases target with
    | genericParameter index => exact ⟨rfl, rfl, rfl, rfl, hcallable⟩
    | callableParameter index => exact ⟨rfl, rfl, rfl, rfl, hcallable⟩
    | declaration =>
      cases hcallable with
      | some _ => exact ⟨rfl, rfl, rfl, rfl, .none⟩
      | none => exact sameSlots_refl _

/-- **Identifiers with the same slots have ancestors with the same slots**, one by one. -/
theorem SameSlots.ancestors (h : x.SameSlots y) :
    List.Forall₂ SameSlots x.ancestors y.ancestors := by
  induction x using ancestors.induct generalizing y with
  | case1 =>
    rw [h.eq_root_iff.1 rfl, ancestors_root]
    exact .nil
  | case2 x hx ih =>
    have hy : y ≠ root := fun hy => hx (h.eq_root_iff.2 hy)
    rw [ancestors_of_ne_root hx, ancestors_of_ne_root hy]
    exact .cons h.parent (ih h.parent)

/-- **A key with five separating slashes says what is in each slot.** If two identifiers have one
key, and either no slot before the target has a slash in either of them or the key has five slashes
in all, then they have the same slots; they have equally many ancestors, with the same keys one by
one. The key of the root has five slashes, and only the root has it. -/
theorem sameSlots_of_key_eq :
    (∀ {x y : Identifier}, x.WellFormed → y.WellFormed → x.key = y.key →
      ((x.Slashless ∧ y.Slashless) ∨ x.key.toList.count '/' = 5) →
        x.SameSlots y ∧ x.ancestors.length = y.ancestors.length ∧
          x.ancestors.map key = y.ancestors.map key) ∧
      ∀ {d : Identifier}, d.WellFormed → (d.key = root.key ↔ d = root) := by
  have hslots : ∀ {x y : Identifier}, x.WellFormed → y.WellFormed → x.key = y.key →
      ((x.Slashless ∧ y.Slashless) ∨ x.key.toList.count '/' = 5) → x.SameSlots y := by
    intro x y hx hy h hslashes
    rcases hslashes with ⟨sx, sy⟩ | hfive
    · exact sx.sameSlots hx hy sy h
    · exact (slashless_of_count hfive).sameSlots hx hy (slashless_of_count (h ▸ hfive)) h
  refine ⟨fun {x y} hx hy h hslashes => ?_, fun {d} hd => ⟨fun h => ?_, fun h => h ▸ rfl⟩⟩
  · have hsame := hslots hx hy h hslashes
    refine ⟨hsame, hsame.ancestors.length_eq, ?_⟩
    rw [← List.forall₂_eq_eq_eq, List.forall₂_map_left_iff, List.forall₂_map_right_iff]
    exact hsame.ancestors.imp fun _ _ => SameSlots.key_eq
  · have hroot : root.WellFormed := ⟨nofun, nofun, nofun⟩
    have hfive : root.key.toList.count '/' = 5 := by decide
    exact (hslots hroot hd h.symm (.inr hfive)).eq_root_iff.1 rfl

theorem slashless_taking {t : TypeRef} (h : '/' ∉ t.chars) : (taking t).Slashless where
  package := by
    rintro _ ⟨⟩
    decide
  classPath := by rintro _ ⟨⟩
  name := by
    rintro _ ⟨⟩
    exact (by decide : '/' ∉ "map".toList)
  signature := by
    rintro _ ⟨⟩
    rw [Callable.signature, String.toList_ofList]
    intro hmem
    rcases List.mem_cons.1 hmem with hslash | hmem
    · exact absurd hslash (by decide)
    · rw [List.map_singleton, List.intercalate_singleton] at hmem
      exact h hmem

/-- Two spellings of a type make two functions, which have the same slots, with a slash in the last
one, and enclosing elements with the same keys. A package called like the text of a target is no
root. -/
theorem sameSlots_of_key_eq_taking :
    taking (.named "Int") ≠ taking (.applied "Int" []) ∧
      (taking (.named "Int")).SameSlots (taking (.applied "Int" [])) ∧
      (taking (.named "Int")).ancestors.map key = (taking (.applied "Int" [])).ancestors.map key ∧
      (declared "PointingToDeclaration" none).key ≠ root.key := by
  obtain ⟨hslots, hroot⟩ := sameSlots_of_key_eq
  obtain ⟨hsame, -, hancestors⟩ := hslots (wellFormed_taking (.named "Int"))
    (wellFormed_taking (.applied "Int" [])) rfl
    (.inl ⟨slashless_taking (by decide), slashless_taking (by decide)⟩)
  have hpackage : (declared "PointingToDeclaration" none).WellFormed :=
    ⟨fun h => absurd (Option.some.inj h) (by decide), nofun, nofun⟩
  exact ⟨by decide, hsame, hancestors, fun h => absurd ((hroot hpackage).1 h) (by decide)⟩

end Identifier

end DocIdent
