import DocIdent.Proofs.Text
import DocIdent.Text.Quoted

/-!
# Reading quoted text

A character between quotes is read back from its written form (`Text.unquoteChar?`), whatever
follows it: the usual escapes by their letter, the others by the number between their braces, and
what stands for itself as it is (`Text.unquoteChar?_quoteChar`). None is written with a quote in
front, so the closing quote is found, and quoted texts differ where the texts do, whatever follows
them (`Text.quote_append_inj`).
-/

namespace DocIdent.Text

/-! ## Hexadecimal digits -/

/-- A number below sixteen has one digit. -/
theorem hex_of_lt {n : Nat} (h : n < 16) : hex n = [hexDigit n] :=
  Nat.toDigits_of_lt_base h

/-- A number from sixteen on has a digit more than its sixteenth. -/
theorem hex_of_le {n : Nat} (h : 16 ≤ n) : hex n = hex (n / 16) ++ [hexDigit (n % 16)] :=
  Nat.toDigits_of_base_le (by decide) h

/-- What is written in hexadecimal is read back. -/
@[simp] theorem readHex_hex (n : Nat) : readHex (hex n) = some n := by
  induction n using Nat.strongRecOn with
  | ind n ih =>
    rcases Nat.lt_or_ge n 16 with hlt | hle
    · rw [hex_of_lt hlt, readHex, List.foldlM_cons, hexValue_hexDigit n hlt]
      simp
    · have hdigit := hexValue_hexDigit (n % 16) (Nat.mod_lt n (by decide))
      have hfront := ih (n / 16) (by omega)
      rw [readHex] at hfront
      rw [hex_of_le hle, readHex, List.foldlM_append, hfront, Option.bind_eq_bind,
        Option.bind_some, List.foldlM_cons, hdigit]
      simp [Nat.div_add_mod]

/-- Every digit has a value. -/
theorem hexValue_ne_none_of_mem_hex {n : Nat} {c : Char} (h : c ∈ hex n) : hexValue c ≠ none := by
  induction n using Nat.strongRecOn with
  | ind n ih =>
    rcases Nat.lt_or_ge n 16 with hlt | hle
    · rw [hex_of_lt hlt, List.mem_singleton] at h
      rw [h, hexValue_hexDigit n hlt]
      exact Option.some_ne_none n
    · rw [hex_of_le hle] at h
      rcases List.mem_append.1 h with h | h
      · exact ih (n / 16) (by omega) h
      · rw [List.mem_singleton.1 h, hexValue_hexDigit _ (Nat.mod_lt n (by decide))]
        exact Option.some_ne_none _

/-! ## One character -/

/-- The character that stands first between quotes, and what follows it. -/
def unquoteChar? : List Char → Option (Char × List Char)
  | '\\' :: '0' :: rest => some ('\x00', rest)
  | '\\' :: 't' :: rest => some ('\t', rest)
  | '\\' :: 'r' :: rest => some ('\r', rest)
  | '\\' :: 'n' :: rest => some ('\n', rest)
  | '\\' :: '\\' :: rest => some ('\\', rest)
  | '\\' :: '"' :: rest => some ('"', rest)
  | '\\' :: 'u' :: '\x7b' :: rest =>
    (readHex (rest.takeWhile (· ≠ '\x7d'))).map fun n =>
      (Char.ofNat n, (rest.dropWhile (· ≠ '\x7d')).drop 1)
  | c :: rest => some (c, rest)
  | [] => none

/-- What is no backslash stands for itself. -/
theorem unquoteChar?_of_ne {c : Char} (h : c ≠ '\\') (rest : List Char) :
    unquoteChar? (c :: rest) = some (c, rest) := by
  rw [unquoteChar?] <;> simp [h]

/-- A character is read back from the number between braces. -/
theorem unquoteChar?_code (c : Char) (rest : List Char) :
    unquoteChar? ('\\' :: 'u' :: '\x7b' :: (hex c.toNat ++ '\x7d' :: rest)) = some (c, rest) := by
  have hdigits : ∀ d ∈ hex c.toNat, decide (d ≠ '\x7d') = true := by
    intro d hd
    refine decide_eq_true ?_
    rintro rfl
    exact hexValue_ne_none_of_mem_hex hd (by decide)
  rw [unquoteChar?, List.takeWhile_append_of_pos hdigits, List.dropWhile_append_of_pos hdigits,
    List.takeWhile_cons_of_neg (by decide), List.dropWhile_cons_of_neg (by decide),
    List.append_nil, readHex_hex]
  simp

/-- **A character is read back** from its written form, whatever follows it. -/
@[simp] theorem unquoteChar?_quoteChar (c : Char) (rest : List Char) :
    unquoteChar? (quoteChar c ++ rest) = some (c, rest) := by
  unfold quoteChar
  split_ifs with hnull htab hreturn hline hbackslash hquote hshows
  · rw [hnull]
    rfl
  · rw [htab]
    rfl
  · rw [hreturn]
    rfl
  · rw [hline]
    rfl
  · rw [hbackslash]
    rfl
  · rw [hquote]
    rfl
  · exact unquoteChar?_of_ne hbackslash rest
  · simpa using unquoteChar?_code c rest

/-! ## Whole texts -/

/-- Where a character is written, no quote stands first. -/
theorem quoteChar_append_ne (c : Char) (rest more : List Char) :
    quoteChar c ++ rest ≠ '"' :: more := by
  intro h
  have hread := unquoteChar?_quoteChar c rest
  rw [h, unquoteChar?_of_ne (by decide)] at hread
  obtain ⟨rfl, -⟩ := Prod.mk.inj (Option.some.inj hread)
  exact absurd (List.cons.inj h).1 (by decide)

/-- **Quoted texts differ** where the texts do, whatever follows them. -/
theorem quote_append_inj {a b r s : List Char} (h : quote a ++ r = quote b ++ s) :
    a = b ∧ r = s := by
  have hinner : a.flatMap quoteChar ++ '"' :: r = b.flatMap quoteChar ++ '"' :: s := by
    simpa [quote] using h
  clear h
  induction a generalizing b with
  | nil =>
    cases b with
    | nil => exact ⟨rfl, (List.cons.inj hinner).2⟩
    | cons d b =>
      rw [List.flatMap_cons, List.append_assoc] at hinner
      exact absurd hinner.symm (quoteChar_append_ne d _ r)
  | cons c a ih =>
    cases b with
    | nil =>
      rw [List.flatMap_cons, List.append_assoc] at hinner
      exact absurd hinner (quoteChar_append_ne c _ s)
    | cons d b =>
      rw [List.flatMap_cons, List.flatMap_cons, List.append_assoc, List.append_assoc] at hinner
      have hread := unquoteChar?_quoteChar c (a.flatMap quoteChar ++ '"' :: r)
      rw [hinner, unquoteChar?_quoteChar] at hread
      obtain ⟨rfl, hrest⟩ := Prod.mk.inj (Option.some.inj hread)
      obtain ⟨rfl, hrs⟩ := ih hrest.symm
      exact ⟨rfl, hrs⟩

end DocIdent.Text
