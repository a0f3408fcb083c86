/-!
# The order of texts

The keys of a lock and the names in a directory are ordered by their UTF-8 bytes: the first byte
that differs decides, and of two texts where one begins the other the shorter comes first
(`Text.Before`). The order is strict and any two different texts are ordered one way or the other
(`Text.before_irrefl`, `Text.before_or_before`), because a text is known by its bytes
(`Text.utf8_inj`).
-/

namespace DocIdent.Text

/-- The UTF-8 bytes of a text. -/
def utf8 (s : String) : List UInt8 :=
  s.toByteArray.data.toList

/-- A text is known by its bytes. -/
@[simp] theorem utf8_inj {a b : String} : utf8 a = utf8 b ↔ a = b := by
  constructor
  · intro h
    exact String.toByteArray_inj.1 (ByteArray.ext (Array.toList_inj.1 h))
  · rintro rfl
    rfl

/-- One text comes strictly before another in the order of their bytes. -/
def Before (a b : String) : Prop :=
  utf8 a < utf8 b

instance : DecidableRel Before := fun a b =>
  inferInstanceAs (Decidable (utf8 a < utf8 b))

/-- No text comes before itself. -/
theorem before_irrefl (a : String) : ¬ Before a a :=
  List.lt_irrefl (utf8 a)

/-- What comes before a text comes before all that the text comes before. -/
theorem before_trans {a b c : String} (hab : Before a b) (hbc : Before b c) : Before a c :=
  List.lt_trans hab hbc

/-- Of two different texts one comes before the other. -/
theorem before_or_before {a b : String} (h : a ≠ b) : Before a b ∨ Before b a := by
  by_cases hab : Before a b
  · exact .inl hab
  · refine .inr ?_
    have hle : utf8 b ≤ utf8 a := List.not_lt.1 hab
    rcases List.le_iff_lt_or_eq.1 hle with hlt | heq
    · exact hlt
    · exact absurd (utf8_inj.1 heq).symm h

/-- A text does not come after another: the test by which lists of texts are sorted. -/
def notAfter (a b : String) : Bool :=
  !decide (Before b a)

end DocIdent.Text
