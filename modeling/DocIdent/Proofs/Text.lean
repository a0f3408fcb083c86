import DocIdent.Text.Digits
import Mathlib.Data.List.Basic

/-!
# Pieces of a text, runs of characters and digits of a number

What a text is put together from and cut into: pieces joined by a separator are the first one and
then each of the others behind its separator (`Text.intercalate_cons_eq_flatMap`), and no piece
between separators has one (`Text.notMem_of_mem_splitOn`). A run of characters of one kind ends
where a character of another kind stands (`Text.run_append_inj`, `Text.slot_append_inj`). A number
is known by its digits (`Text.decimal_inj`) and has no zero in front (`Text.decimal_head?`).
-/

namespace DocIdent.Text

/-! ## Pieces -/

/-- Pieces with a separator between any two are the first one and then each other one behind a
separator. -/
theorem intercalate_cons_eq_flatMap {α : Type} (sep x : List α) (xs : List (List α)) :
    sep.intercalate (x :: xs) = x ++ xs.flatMap (sep ++ ·) := by
  induction xs generalizing x with
  | nil => simp
  | cons y ys ih => simp [ih]

/-- No piece of a text that is cut at a character has this character. -/
theorem notMem_of_mem_splitOn {c : Char} {cs piece : List Char} (h : piece ∈ cs.splitOn c) :
    c ∉ piece := by
  induction cs generalizing piece with
  | nil =>
    rw [List.splitOn_nil, List.mem_singleton] at h
    rw [h]
    exact List.not_mem_nil
  | cons x xs ih =>
    rw [List.splitOn_cons_eq_if_modifyHead] at h
    split at h
    next =>
      rcases List.mem_cons.1 h with rfl | h
      · exact List.not_mem_nil
      · exact ih h
    next hx =>
      obtain ⟨first, rest, hsplit⟩ := List.exists_cons_of_ne_nil (List.splitOn_ne_nil c xs)
      rw [hsplit] at h ih
      rcases List.mem_cons.1 h with rfl | h
      · have hne : c ≠ x := fun he => hx (by rw [he]; exact beq_self_eq_true x)
        exact List.not_mem_cons_of_ne_of_not_mem hne (ih (.head _))
      · exact ih (.tail _ h)

/-- A text that is cut at a character has a piece more than it has this character. -/
theorem length_splitOn (c : Char) (cs : List Char) :
    (cs.splitOn c).length = cs.count c + 1 := by
  induction cs with
  | nil => rfl
  | cons x xs ih =>
    rw [List.splitOn_cons_eq_if_modifyHead]
    by_cases hx : x == c
    · rw [if_pos hx, List.length_cons, ih, List.count_cons, if_pos hx]
    · rw [if_neg hx, List.length_modifyHead, ih, List.count_cons, if_neg hx, Nat.add_zero]

/-! ## Runs -/

/-- Two runs of characters for which a test holds are the same if they stand in front of what does
not begin with such a character. -/
theorem run_append_inj {p : Char → Prop} :
    ∀ {a b r r' : List Char}, (∀ c ∈ a, p c) → (∀ c ∈ b, p c) → (∀ c ∈ r.head?, ¬ p c) →
      (∀ c ∈ r'.head?, ¬ p c) → a ++ r = b ++ r' → a = b ∧ r = r'
  | [], [], _, _, _, _, _, _, h => ⟨rfl, h⟩
  | [], c :: b, r, r', _, hb, hr, _, h => by
    rw [List.nil_append] at h
    subst h
    exact absurd (hb c (by simp)) (hr c (by simp))
  | c :: a, [], r, r', ha, _, _, hr', h => by
    rw [List.nil_append] at h
    subst h
    exact absurd (ha c (by simp)) (hr' c (by simp))
  | c :: a, d :: b, r, r', ha, hb, hr, hr', h => by
    obtain ⟨rfl, htail⟩ := List.cons.inj h
    obtain ⟨rfl, rfl⟩ := run_append_inj (fun x hx => ha x (List.mem_cons_of_mem _ hx))
      (fun x hx => hb x (List.mem_cons_of_mem _ hx)) hr hr' htail
    exact ⟨rfl, rfl⟩

/-- A character that is repeated in front of what does not begin with it is counted. -/
theorem replicate_append_inj {c : Char} {m n : Nat} {r r' : List Char}
    (hr : ∀ x ∈ r.head?, x ≠ c) (hr' : ∀ x ∈ r'.head?, x ≠ c)
    (h : List.replicate m c ++ r = List.replicate n c ++ r') : m = n ∧ r = r' := by
  obtain ⟨hrun, hrest⟩ := run_append_inj (p := (· = c))
    (fun x hx => List.eq_of_mem_replicate hx) (fun x hx => List.eq_of_mem_replicate hx) hr hr' h
  have hlength := congrArg List.length hrun
  rw [List.length_replicate, List.length_replicate] at hlength
  exact ⟨hlength, hrest⟩

/-- Two runs without slashes are the same if they stand in front of a slash. -/
theorem slot_append_inj {a b r r' : List Char} (ha : '/' ∉ a) (hb : '/' ∉ b)
    (h : a ++ '/' :: r = b ++ '/' :: r') : a = b ∧ r = r' := by
  have hslash : ∀ y : List Char, ∀ c ∈ ('/' :: y).head?, ¬ c ≠ '/' := by
    intro y c hc
    obtain rfl := Option.some.inj hc
    simp
  obtain ⟨rfl, hrest⟩ := run_append_inj (p := (· ≠ '/')) (fun c hc he => ha (he ▸ hc))
    (fun c hc he => hb (he ▸ hc)) (hslash r) (hslash r') h
  exact ⟨rfl, (List.cons.inj hrest).2⟩

/-! ## Digits -/

/-- Numbers are known by their decimal digits. -/
theorem decimal_inj {m n : Nat} (h : decimal m = decimal n) : m = n := by
  have := readDecimal_decimal m
  rw [h, readDecimal_decimal n] at this
  exact (Option.some.inj this).symm

/-- A digit is none of the characters that are no digits. -/
theorem ne_of_isDigit {c d : Char} (hc : c.isDigit = true) (hd : d.isDigit = false) : c ≠ d := by
  rintro rfl
  rw [hc] at hd
  cases hd

/-- A number above zero is written without a zero in front. -/
theorem decimal_head? : ∀ n : Nat, 0 < n → (decimal n).head? ≠ some '0'
  | n, hn => by
    have hdigit : ∀ d < 10, 0 < d → Nat.digitChar d ≠ '0' := by decide
    by_cases hlt : n < 10
    · rw [decimal, Nat.toDigits_of_lt_base hlt, List.head?_cons]
      exact fun he => hdigit n hlt hn (Option.some.inj he)
    · have ih := decimal_head? (n / 10) (by omega)
      rw [decimal, Nat.toDigits_of_base_le (by decide) (by omega),
        List.head?_append_of_ne_nil _ Nat.toDigits_ne_nil]
      exact ih

/-- A hexadecimal digit has the value that it is written for. -/
theorem hexValue_hexDigit : ∀ d < 16, hexValue (hexDigit d) = some d := by
  decide

end DocIdent.Text
