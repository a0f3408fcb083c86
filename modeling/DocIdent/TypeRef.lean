/-!
# Types in signatures

The type of a receiver or of a parameter, as far as it tells overloads apart (`TypeRef`), and its
canonical text (`TypeRef.text`). A type constructor without arguments is written like the class of
its name, so the two share a text though they are different types.
-/

namespace DocIdent

/-- A type as it stands in a signature. -/
inductive TypeRef where
  /-- A class, by its full name. -/
  | named (name : String)
  /-- A type parameter, by its upper bounds. -/
  | parameter (bounds : List TypeRef)
  /-- A type constructor, by its full name, with its arguments. -/
  | applied (name : String) (arguments : List TypeRef)
  /-- The type that the generic context `rank` levels up introduces. -/
  | recursive (rank : UInt32)
  /-- A type, or null. -/
  | nullable (wrapped : TypeRef)
  /-- Any type. -/
  | star
  deriving Inhabited

namespace TypeRef

mutual

/-- Two types are equal or not. -/
def decEq : (s t : TypeRef) → Decidable (s = t)
  | .named m, .named n => if h : m = n then .isTrue (by rw [h]) else .isFalse (by simp [h])
  | .parameter xs, .parameter ys =>
    match decEqEach xs ys with
    | .isTrue h => .isTrue (by rw [h])
    | .isFalse h => .isFalse (by simp [h])
  | .applied m xs, .applied n ys =>
    if h : m = n then
      match decEqEach xs ys with
      | .isTrue h' => .isTrue (by rw [h, h'])
      | .isFalse h' => .isFalse (by simp [h'])
    else .isFalse (by simp [h])
  | .recursive m, .recursive n =>
    if h : m = n then .isTrue (by rw [h]) else .isFalse (by simp [h])
  | .nullable s, .nullable t =>
    match decEq s t with
    | .isTrue h => .isTrue (by rw [h])
    | .isFalse h => .isFalse (by simp [h])
  | .star, .star => .isTrue rfl
  | .named _, .parameter _ | .named _, .applied .. | .named _, .recursive _
  | .named _, .nullable _ | .named _, .star
  | .parameter _, .named _ | .parameter _, .applied .. | .parameter _, .recursive _
  | .parameter _, .nullable _ | .parameter _, .star
  | .applied .., .named _ | .applied .., .parameter _ | .applied .., .recursive _
  | .applied .., .nullable _ | .applied .., .star
  | .recursive _, .named _ | .recursive _, .parameter _ | .recursive _, .applied ..
  | .recursive _, .nullable _ | .recursive _, .star
  | .nullable _, .named _ | .nullable _, .parameter _ | .nullable _, .applied ..
  | .nullable _, .recursive _ | .nullable _, .star
  | .star, .named _ | .star, .parameter _ | .star, .applied .. | .star, .recursive _
  | .star, .nullable _ => .isFalse (by simp)

/-- Two lists of types are equal or not. -/
def decEqEach : (xs ys : List TypeRef) → Decidable (xs = ys)
  | [], [] => .isTrue rfl
  | x :: xs, y :: ys =>
    match decEq x y, decEqEach xs ys with
    | .isTrue h, .isTrue h' => .isTrue (by rw [h, h'])
    | .isFalse h, _ => .isFalse (by simp [h])
    | _, .isFalse h => .isFalse (by simp [h])
  | [], _ :: _ | _ :: _, [] => .isFalse (by simp)

end

instance : DecidableEq TypeRef := decEq

/-- What stands before the bounds of a type parameter. -/
def boundsOpening : List Char := "TypeParam(bounds=[".toList

mutual

/-- The characters of a type's canonical text. -/
def chars : TypeRef → List Char
  | .named name => name.toList
  | .parameter bounds =>
    boundsOpening ++ [',', ' '].intercalate (charsEach bounds) ++ [']', ')']
  | .applied name [] => name.toList
  | .applied name (t :: ts) =>
    name.toList ++ '[' :: [','].intercalate (chars t :: charsEach ts) ++ [']']
  | .recursive rank => List.replicate (rank.toNat + 1) '^'
  | .nullable wrapped => chars wrapped ++ ['?']
  | .star => ['*']

/-- The characters of each type's canonical text. -/
def charsEach : List TypeRef → List (List Char)
  | [] => []
  | t :: ts => chars t :: charsEach ts

end

/-- Writing each type of a list is writing one, at each place. -/
theorem charsEach_eq_map (ts : List TypeRef) : charsEach ts = ts.map chars := by
  induction ts with
  | nil => rfl
  | cons t ts ih => simp [charsEach, ih]

/-- A type's canonical text: a name, with its arguments in brackets; the bounds of a parameter; one
caret for each level up to a recursive type and one more; a question mark after a nullable type;
an asterisk for any type. -/
def text (t : TypeRef) : String :=
  String.ofList t.chars

end TypeRef

end DocIdent
