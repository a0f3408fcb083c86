import DocIdent.Text.Order
import Mathlib.Data.List.Nodup

/-!
# Sorting by texts

What does not come after a text comes before it or is the same (`Text.not_before_iff`), so not
coming after is a total order (`Text.notAfter_trans`, `Text.notAfter_total`), and a list that is
sorted by different texts increases strictly (`Text.pairwise_mergeSort`).
-/

namespace DocIdent.Text

/-- No two texts each come before the other. -/
instance : Std.Asymm Before :=
  ⟨fun a _ hab hba => before_irrefl a (before_trans hab hba)⟩

/-- What does not come after a text comes before it or is the text. -/
theorem not_before_iff {a b : String} : ¬ Before b a ↔ Before a b ∨ a = b := by
  constructor
  · intro h
    by_cases hab : a = b
    · exact .inr hab
    · exact .inl ((before_or_before hab).resolve_right h)
  · rintro (h | rfl) hba
    · exact before_irrefl a (before_trans h hba)
    · exact before_irrefl a hba

theorem notAfter_iff {a b : String} : notAfter a b = true ↔ Before a b ∨ a = b := by
  rw [notAfter, Bool.not_eq_true', decide_eq_false_iff_not, not_before_iff]

theorem notAfter_trans {a b c : String} (hab : notAfter a b = true) (hbc : notAfter b c = true) :
    notAfter a c = true := by
  rw [notAfter_iff] at *
  rcases hab with hab | rfl
  · rcases hbc with hbc | rfl
    · exact .inl (before_trans hab hbc)
    · exact .inl hab
  · exact hbc

theorem notAfter_total (a b : String) : (notAfter a b || notAfter b a) = true := by
  rw [Bool.or_eq_true, notAfter_iff, notAfter_iff]
  by_cases hab : a = b
  · exact .inl (.inr hab)
  · rcases before_or_before hab with h | h
    · exact .inl (.inl h)
    · exact .inr (.inl h)

/-- **A list sorted by texts that are all different increases strictly.** -/
theorem pairwise_mergeSort {α : Type} (text : α → String) {xs : List α}
    (h : (xs.map text).Nodup) :
    (xs.mergeSort fun a b => notAfter (text a) (text b)).Pairwise
      fun a b => Before (text a) (text b) := by
  have hsorted : (xs.mergeSort fun a b => notAfter (text a) (text b)).Pairwise
      fun a b => notAfter (text a) (text b) = true :=
    @List.pairwise_mergeSort α (fun a b => notAfter (text a) (text b))
      (fun _ _ _ hab hbc => notAfter_trans hab hbc) (fun a b => notAfter_total (text a) (text b)) xs
  have hperm : (xs.mergeSort fun a b => notAfter (text a) (text b)).Perm xs :=
    List.mergeSort_perm ..
  have hdistinct := (hperm.map text).nodup_iff.2 h
  rw [List.Nodup, List.pairwise_map] at hdistinct
  exact (hsorted.and hdistinct).imp fun hab => (notAfter_iff.1 hab.1).resolve_right hab.2

end DocIdent.Text
