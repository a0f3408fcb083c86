import DocIdent.Text.Digits

/-!
# Targets

What an identifier addresses within a declaration (`Target`): the declaration itself, or one of its
generic or value parameters by position. Positions are 32-bit words. A target has a successor, at
the next position (`Target.next`), and the parameters of a declaration take their targets from the
sequence that starts at position zero (`Target.successors`), which stops at the last position
instead of repeating it. The declaration is its own successor and repeats for ever.
-/

namespace DocIdent

/-- The part of a declaration that an identifier addresses. -/
inductive Target where
  /-- The declaration itself. -/
  | declaration
  /-- The generic parameter at a position, counted from zero. -/
  | genericParameter (index : UInt32)
  /-- The value parameter at a position, counted from zero. -/
  | callableParameter (index : UInt32)
  deriving DecidableEq, Inhabited

namespace Target

/-- The last position. -/
def lastIndex : UInt32 := 4294967295

/-- The position after another; the last one is its own successor. -/
def nextIndex (index : UInt32) : UInt32 :=
  if index = lastIndex then index else index + 1

/-- Positions are counted up to the last one. -/
theorem toNat_nextIndex (index : UInt32) :
    (nextIndex index).toNat = min (index.toNat + 1) 4294967295 := by
  have hlt : index.toNat < 4294967296 := index.toNat_lt
  unfold nextIndex lastIndex
  split
  next h =>
    subst h
    rfl
  next h =>
    have hne : index.toNat ≠ 4294967295 := fun he => h (UInt32.toNat_inj.1 he)
    rw [UInt32.toNat_add]
    simp only [UInt32.reduceToNat]
    omega

/-- The target at the next position. -/
def next : Target → Target
  | declaration => declaration
  | genericParameter index => genericParameter (nextIndex index)
  | callableParameter index => callableParameter (nextIndex index)

/-- The target is the declaration itself. -/
def isDeclaration : Target → Bool
  | declaration => true
  | _ => false

/-- The target that follows in a sequence of targets, if the sequence goes on. -/
def successor? (t : Target) : Option Target :=
  if t.next = t ∧ !t.isDeclaration then none else some t.next

/-- The first `n` of a target, its successor, the successor of that, and so on. -/
def successors (t : Target) : Nat → List Target
  | 0 => []
  | n + 1 =>
    t :: match t.successor? with
      | some t' => successors t' n
      | none => []

/-- The text of the target that is the declaration itself. -/
def declarationChars : List Char := "PointingToDeclaration".toList

/-- What stands before the position of a generic parameter. -/
def genericOpening : List Char := "PointingToGenericParameters(".toList

/-- What stands before the position of a value parameter. -/
def callableOpening : List Char := "PointingToCallableParameters(".toList

/-- The characters of a target's canonical text. -/
def chars : Target → List Char
  | declaration => declarationChars
  | genericParameter index => genericOpening ++ Text.decimal index.toNat ++ [')']
  | callableParameter index => callableOpening ++ Text.decimal index.toNat ++ [')']

/-- A target's canonical text: its kind, with the position of a parameter in parentheses. -/
def text (t : Target) : String :=
  String.ofList t.chars

end Target

end DocIdent
