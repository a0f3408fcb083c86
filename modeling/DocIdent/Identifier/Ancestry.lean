import DocIdent.Identifier

/-!
# Enclosing elements

The parent of an identifier addresses the element that encloses it (`Identifier.parent`): what came
last goes first, the metadata before the target, the target before the callable, the callable
before the innermost class. A package has the root for its parent, and the root is its own. The
ancestors of an identifier are its parent, the parent of that, and so on up to the root
(`Identifier.ancestors`); the chain ends because each step gives up a part (`parent_weight_lt`).
-/

namespace DocIdent.Identifier

/-- The path that encloses the innermost class of a path. A blank rest is no path. -/
def enclosingPath (path : String) : Option String :=
  match Text.beforeLast '.' path.toList with
  | some outer => if Text.isBlankText outer then none else some (String.ofList outer)
  | none => none

/-- The identifier of the enclosing element. -/
def parent (d : Identifier) : Identifier :=
  if d.metadata.isSome then { d with metadata := none }
  else if !d.target.isDeclaration then d.ofDeclaration
  else if d.callable.isSome then d.withCallable none
  else
    match d.classPath with
    | some path => { d with classPath := enclosingPath path }
    | none => root

/-- The weight of a class path: one for being there, and one for each character. -/
def pathWeight : Option String → Nat
  | some path => path.length + 1
  | none => 0

/-- How much an identifier has to give up on the way to the root. -/
def weight (d : Identifier) : Nat :=
  d.metadata.isSome.toNat + (!d.target.isDeclaration).toNat + d.callable.isSome.toNat +
    pathWeight d.classPath + d.package.isSome.toNat

theorem length_lt_of_beforeLast {sep : Char} {cs head : List Char}
    (h : Text.beforeLast sep cs = some head) : head.length < cs.length := by
  induction cs generalizing head with
  | nil => simp [Text.beforeLast] at h
  | cons c cs ih =>
    simp only [Text.beforeLast] at h
    split at h
    next rest hrest =>
      cases h
      simpa using ih hrest
    next =>
      split at h
      · cases h
        simp
      · cases h

theorem pathWeight_enclosingPath_lt (path : String) :
    pathWeight (enclosingPath path) < pathWeight (some path) := by
  unfold enclosingPath
  split
  next outer h =>
    have hlt := length_lt_of_beforeLast h
    rw [String.length_toList] at hlt
    split
    · simp [pathWeight]
    · simpa [pathWeight] using hlt
  next => simp [pathWeight]

/-- Every identifier but the root has more to give up than its parent. -/
theorem parent_weight_lt {d : Identifier} (h : d ≠ root) : d.parent.weight < d.weight := by
  obtain ⟨package, classPath, metadata, callable, target⟩ := d
  cases metadata with
  | some blob => simp [parent, weight]
  | none =>
    cases target with
    | genericParameter i => simp [parent, weight, ofDeclaration, withTarget, Target.isDeclaration]
    | callableParameter i => simp [parent, weight, ofDeclaration, withTarget, Target.isDeclaration]
    | declaration =>
      cases callable with
      | some c => simp [parent, weight, withCallable, Target.isDeclaration]
      | none =>
        cases classPath with
        | some path =>
          have := pathWeight_enclosingPath_lt path
          simp only [parent, weight, Target.isDeclaration, Option.isSome_none, Bool.not_true,
            Bool.false_eq_true, if_false, Bool.toNat_false]
          omega
        | none =>
          cases package with
          | some p => simp [parent, weight, root, pathWeight, Target.isDeclaration]
          | none => exact absurd rfl h

/-- The enclosing elements of an identifier, innermost first, up to the root and with it. The root
has none. -/
def ancestors (d : Identifier) : List Identifier :=
  if _ : d = root then [] else d.parent :: ancestors d.parent
termination_by d.weight
decreasing_by exact parent_weight_lt ‹_›

/-- The root is enclosed by nothing. -/
@[simp] theorem ancestors_root : root.ancestors = [] := by
  rw [ancestors]
  simp

/-- What encloses an identifier is its parent and what encloses that. -/
theorem ancestors_of_ne_root {d : Identifier} (h : d ≠ root) :
    d.ancestors = d.parent :: d.parent.ancestors := by
  rw [ancestors]
  simp [h]

end DocIdent.Identifier
