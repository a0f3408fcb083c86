/-!
# Cutting a text

Where a text is cut at its last separator (`Text.beforeLast`, `Text.beforeLast_eq_some_iff`), and
how it falls into lines (`Text.lines`).
-/

namespace DocIdent.Text

/-- What stands before the last `sep` of a text, if the text has one. -/
def beforeLast (sep : Char) : List Char → Option (List Char)
  | [] => none
  | c :: cs =>
    match beforeLast sep cs with
    | some head => some (c :: head)
    | none => if c = sep then some [] else none

/-- A text without the separator is not cut, and no other is left uncut. -/
theorem beforeLast_eq_none_iff {sep : Char} {cs : List Char} :
    beforeLast sep cs = none ↔ sep ∉ cs := by
  induction cs with
  | nil => simp [beforeLast]
  | cons c cs ih =>
    simp only [beforeLast]
    split
    next head h =>
      have hm : sep ∈ cs := Decidable.not_not.1 fun hn => by simp [ih.2 hn] at h
      simp [hm]
    next h =>
      have hm : sep ∉ cs := ih.1 h
      by_cases hc : c = sep
      · simp [hc]
      · simp [hc, hm, Ne.symm hc]

/-- What stands after the cut has no separator. -/
theorem beforeLast_eq_some_iff {sep : Char} {cs head : List Char} :
    beforeLast sep cs = some head ↔ ∃ tail, cs = head ++ sep :: tail ∧ sep ∉ tail := by
  induction cs generalizing head with
  | nil => simp [beforeLast]
  | cons c cs ih =>
    simp only [beforeLast]
    split
    next inner h =>
      constructor
      · rintro ⟨⟩
        obtain ⟨tail, rfl, ht⟩ := ih.1 h
        exact ⟨tail, rfl, ht⟩
      · rintro ⟨tail, hcs, ht⟩
        cases head with
        | nil =>
          obtain ⟨-, rfl⟩ := List.cons.inj hcs
          rw [beforeLast_eq_none_iff.2 ht] at h
          cases h
        | cons x head =>
          obtain ⟨rfl, htl⟩ := List.cons.inj hcs
          rw [ih.2 ⟨tail, htl, ht⟩] at h
          rw [Option.some.inj h]
    next h =>
      have hm : sep ∉ cs := beforeLast_eq_none_iff.1 h
      constructor
      · intro he
        split at he
        next hc =>
          cases he
          exact ⟨cs, by rw [hc]; rfl, hm⟩
        next => cases he
      · rintro ⟨tail, hcs, -⟩
        cases head with
        | nil => simp [(List.cons.inj hcs).1]
        | cons x head => exact absurd (by simp [(List.cons.inj hcs).2]) hm

/-- A line that a line feed ended, without a carriage return at its end. -/
def withoutReturn (line : List Char) : List Char :=
  match line.reverse with
  | '\r' :: rest => rest.reverse
  | _ => line

/-- The lines of the pieces that a text has between its line feeds: each piece but the last ended
at a line feed, and the last is a line only if it holds something. -/
def linesOfPieces : List (List Char) → List (List Char)
  | [] => []
  | [last] => if last.isEmpty then [] else [last]
  | line :: rest => withoutReturn line :: linesOfPieces rest

/-- The lines of a text, without what ended them. -/
def lines (cs : List Char) : List (List Char) :=
  linesOfPieces (cs.splitOn '\n')

end DocIdent.Text
