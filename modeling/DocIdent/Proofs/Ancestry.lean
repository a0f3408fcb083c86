import DocIdent.Identifier.Ancestry
import Mathlib.Data.List.Chain
import Mathlib.Logic.Function.Iterate

/-!
# The chain of enclosing elements

Each part of an identifier takes one step on the way to the root. Only a class path may take
several: it is cut at its last dot, then at the last dot of what is left, until there is none or
only blanks stand before it. So it takes a step for each dot that has a character before it that is
not blank (`Text.openDots`), and one more to be gone. All these steps are the height of an
identifier (`Identifier.height`), and going to the parent lowers it by exactly one
(`Identifier.height_parent`). Hence the ancestors, which are the parents up to the root, are as many
as the height (`Identifier.ancestors_chain`).
-/

namespace DocIdent

/-! ## Dots at which a path is cut -/

namespace Text

/-- The number of dots in a text that have a character before them that is not blank. -/
def openDots (cs : List Char) : Nat :=
  (List.range cs.length).countP fun i => cs[i]? = some '.' ∧ isBlankText (cs.take i) = false

/-- A text with one more character has one more such dot if the character is a dot and the text is
not blank. -/
theorem openDots_append_singleton (cs : List Char) (c : Char) :
    openDots (cs ++ [c]) =
      openDots cs + if c = '.' ∧ isBlankText cs = false then 1 else 0 := by
  -- up to the last character the positions are judged as they are in `cs`
  have hinner : ∀ i ∈ List.range cs.length,
      (decide ((cs ++ [c])[i]? = some '.' ∧ isBlankText ((cs ++ [c]).take i) = false) = true ↔
        decide (cs[i]? = some '.' ∧ isBlankText (cs.take i) = false) = true) := by
    intro i hi
    have hlt : i < cs.length := List.mem_range.1 hi
    rw [List.getElem?_append_left hlt, List.take_append_of_le_length hlt.le]
  have hlast : (cs ++ [c])[cs.length]? = some c ∧ (cs ++ [c]).take cs.length = cs := by simp
  rw [openDots, List.length_append, List.length_singleton, List.range_succ, List.countP_append,
    List.countP_congr hinner, List.countP_singleton, hlast.1, hlast.2]
  simp [openDots]

/-- What has no dot adds none. -/
theorem openDots_append_of_notMem (cs : List Char) {tail : List Char} (h : '.' ∉ tail) :
    openDots (cs ++ tail) = openDots cs := by
  induction tail generalizing cs with
  | nil => rw [List.append_nil]
  | cons c tail ih =>
    obtain ⟨hc, htail⟩ := List.ne_and_not_mem_of_not_mem_cons h
    rw [List.append_cons, ih _ htail, openDots_append_singleton, if_neg fun hdot => hc hdot.1.symm]
    rfl

theorem openDots_of_notMem {cs : List Char} (h : '.' ∉ cs) : openDots cs = 0 :=
  openDots_append_of_notMem [] h

/-- A blank text has no dot. -/
theorem openDots_of_isBlankText {cs : List Char} (h : isBlankText cs = true) : openDots cs = 0 :=
  openDots_of_notMem fun hdot => absurd (List.all_eq_true.1 h '.' hdot) (by decide)

/-- The last dot of a text counts, unless what stands before it is blank. -/
theorem openDots_of_beforeLast {cs head : List Char} (h : beforeLast '.' cs = some head) :
    openDots cs = if isBlankText head then 0 else openDots head + 1 := by
  obtain ⟨tail, rfl, htail⟩ := beforeLast_eq_some_iff.1 h
  rw [List.append_cons, openDots_append_of_notMem _ htail, openDots_append_singleton]
  by_cases hblank : isBlankText head = true
  · simp [hblank, openDots_of_isBlankText hblank]
  · simp [hblank]

/-- The first dot has only a blank before it, the others have a letter. -/
example : openDots " .a..b".toList = 2 := by decide

end Text

namespace Identifier

/-! ## The height of an identifier -/

/-- How many steps a class path takes on the way to the root. -/
def pathHeight : Option String → Nat
  | some path => 1 + Text.openDots path.toList
  | none => 0

/-- How many steps it takes from an identifier to the root. -/
def height (d : Identifier) : Nat :=
  d.metadata.isSome.toNat + (!d.target.isDeclaration).toNat + d.callable.isSome.toNat +
    d.package.isSome.toNat + pathHeight d.classPath

/-- The enclosing path is one step closer to the root. -/
theorem pathHeight_enclosingPath (path : String) :
    pathHeight (some path) = pathHeight (enclosingPath path) + 1 := by
  unfold enclosingPath
  split
  next outer h =>
    rw [pathHeight, Text.openDots_of_beforeLast h]
    split
    · rfl
    · rw [pathHeight, String.toList_ofList, Nat.add_assoc]
  next h =>
    rw [pathHeight, Text.openDots_of_notMem (Text.beforeLast_eq_none_iff.1 h)]
    rfl

/-- The parent of the root is the root. -/
@[simp] theorem parent_root : root.parent = root :=
  rfl

/-- What an identifier other than the root gives up on the way to its parent. -/
theorem parent_cases {d : Identifier} (h : d ≠ root) :
    (d.metadata.isSome ∧ d.parent = { d with metadata := none }) ∨
      (d.metadata = none ∧ d.target.isDeclaration = false ∧
        d.parent = { d with target := .declaration }) ∨
      (d.metadata = none ∧ d.target = .declaration ∧ d.callable.isSome ∧
        d.parent = { d with callable := none }) ∨
      (∃ package path, d = { package, classPath := some path } ∧
        d.parent = { package, classPath := enclosingPath path }) ∨
      ∃ package, d = { package := some package } ∧ d.parent = root := by
  obtain ⟨package, classPath, metadata, callable, target⟩ := d
  cases metadata with
  | some blob => exact .inl ⟨rfl, rfl⟩
  | none =>
    cases target with
    | genericParameter index => exact .inr (.inl ⟨rfl, rfl, rfl⟩)
    | callableParameter index => exact .inr (.inl ⟨rfl, rfl, rfl⟩)
    | declaration =>
      cases callable with
      | some c => exact .inr (.inr (.inl ⟨rfl, rfl, rfl, rfl⟩))
      | none =>
        cases classPath with
        | some path => exact .inr (.inr (.inr (.inl ⟨package, path, rfl, rfl⟩)))
        | none =>
          cases package with
          | some package => exact .inr (.inr (.inr (.inr ⟨package, rfl, rfl⟩)))
          | none => exact absurd rfl h

/-- **The parent is one step closer to the root.** -/
theorem height_parent {d : Identifier} (h : d ≠ root) : d.height = d.parent.height + 1 := by
  rcases parent_cases h with ⟨hsome, hparent⟩ | ⟨-, htarget, hparent⟩ | ⟨-, -, hsome, hparent⟩ |
    ⟨package, path, rfl, hparent⟩ | ⟨package, rfl, hparent⟩
  · simp only [hparent, height, hsome, Option.isSome_none, Bool.toNat_true, Bool.toNat_false]
    omega
  · have hreached : Target.declaration.isDeclaration = true := rfl
    simp only [hparent, height, htarget, hreached, Bool.not_false, Bool.not_true,
      Bool.toNat_true, Bool.toNat_false]
    omega
  · simp only [hparent, height, hsome, Option.isSome_none, Bool.toNat_true, Bool.toNat_false]
    omega
  · have hpath := pathHeight_enclosingPath path
    simp only [hparent, height]
    omega
  · rw [hparent]
    rfl

/-! ## The chain -/

/-- There are as many ancestors as steps to the root. -/
theorem length_ancestors (d : Identifier) : d.ancestors.length = d.height := by
  induction d using ancestors.induct with
  | case1 =>
    rw [ancestors_root]
    rfl
  | case2 d h ih => rw [ancestors_of_ne_root h, List.length_cons, ih, height_parent h]

/-- Each ancestor is closer to the root. -/
theorem height_lt_of_mem_ancestors {d a : Identifier} (ha : a ∈ d.ancestors) :
    a.height < d.height := by
  induction d using ancestors.induct with
  | case1 =>
    rw [ancestors_root] at ha
    cases ha
  | case2 d h ih =>
    have hparent := height_parent h
    rw [ancestors_of_ne_root h] at ha
    rcases List.mem_cons.1 ha with rfl | ha
    · omega
    · have := ih ha
      omega

/-- No identifier is met twice on the way to the root. -/
theorem nodup_cons_ancestors (d : Identifier) : (d :: d.ancestors).Nodup := by
  have hnotMem : ∀ d : Identifier, d ∉ d.ancestors := fun d hd =>
    Nat.lt_irrefl _ (height_lt_of_mem_ancestors hd)
  refine List.nodup_cons.2 ⟨hnotMem d, ?_⟩
  induction d using ancestors.induct with
  | case1 =>
    rw [ancestors_root]
    exact .nil
  | case2 d h ih =>
    rw [ancestors_of_ne_root h]
    exact List.nodup_cons.2 ⟨hnotMem d.parent, ih⟩

/-- Each ancestor is the parent of the one before it. -/
theorem isChain_cons_ancestors (d : Identifier) :
    (d :: d.ancestors).IsChain fun inner outer => outer = inner.parent := by
  induction d using ancestors.induct with
  | case1 =>
    rw [ancestors_root]
    exact .singleton _
  | case2 d h ih =>
    rw [ancestors_of_ne_root h]
    exact List.isChain_cons_cons.2 ⟨rfl, ih⟩

/-- The way to the root ends there, and meets it only at its end. -/
theorem ancestors_eq_append_root {d : Identifier} (h : d ≠ root) :
    ∃ inner, d.ancestors = inner ++ [root] ∧ root ∉ inner := by
  induction d using ancestors.induct with
  | case1 => exact absurd rfl h
  | case2 d _ ih =>
    rw [ancestors_of_ne_root h]
    by_cases hparent : d.parent = root
    · rw [hparent, ancestors_root]
      exact ⟨[], rfl, List.not_mem_nil⟩
    · obtain ⟨inner, hinner, hroot⟩ := ih hparent
      refine ⟨d.parent :: inner, by rw [hinner]; rfl, ?_⟩
      exact List.not_mem_cons_of_ne_of_not_mem (Ne.symm hparent) hroot

/-- Going from parent to parent reaches the root with the last ancestor, and no earlier. -/
theorem iterate_parent_eq_root_iff (d : Identifier) (n : Nat) :
    parent^[n] d = root ↔ d.ancestors.length ≤ n := by
  induction n generalizing d with
  | zero =>
    rw [Function.iterate_zero, id, Nat.le_zero, List.length_eq_zero_iff]
    by_cases h : d = root
    · subst h
      exact iff_of_true rfl ancestors_root
    · exact iff_of_false h (by simp [ancestors_of_ne_root h])
  | succ n ih =>
    rw [Function.iterate_succ_apply, ih]
    by_cases h : d = root
    · subst h
      rw [parent_root, ancestors_root]
      simp
    · rw [ancestors_of_ne_root h, List.length_cons, Nat.add_le_add_iff_right]

/-- **The ancestors of an identifier are its parent, the parent of that, and so on, up to the
root.** The root has none and is its own parent. From any other identifier the root is reached, as
the last ancestor only, and nothing is met twice. It takes one step for the metadata, one for a
target other than the declaration, one for the callable, one for the package, and for a class path
one more than it has dots with something before them that is not blank. -/
theorem ancestors_chain (d : Identifier) :
    (d :: d.ancestors).IsChain (fun inner outer => outer = inner.parent) ∧
      (d = root ∨ ∃ inner, d.ancestors = inner ++ [root] ∧ root ∉ inner) ∧
      root.ancestors = [] ∧ root.parent = root ∧ (d :: d.ancestors).Nodup ∧
      (∀ n, parent^[n] d = root ↔ d.ancestors.length ≤ n) ∧
      d.ancestors.length =
        d.metadata.isSome.toNat + (!d.target.isDeclaration).toNat + d.callable.isSome.toNat +
          d.package.isSome.toNat +
          match d.classPath with
          | some path => 1 + Text.openDots path.toList
          | none => 0 := by
  refine ⟨isChain_cons_ancestors d, ?_, ancestors_root, parent_root, nodup_cons_ancestors d,
    iterate_parent_eq_root_iff d, length_ancestors d⟩
  by_cases h : d = root
  · exact .inl h
  · exact .inr (ancestors_eq_append_root h)

end Identifier

end DocIdent
