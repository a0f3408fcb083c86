import DocIdent.Proofs.Text
import DocIdent.Proofs.Toml.Text
import DocIdent.Toml.Value

/-!
# Reading written keys and values

Every key is read back (`Toml.readKey?_keyChars`), and so is a path of them up to the limit on their
number; a longer path is not read (`Toml.readPath?_pathChars`). Of the values those are read back
that a table holds by itself (`Toml.IsPlainValue`, `Toml.readValue?_valueChars`). For a whole number
this takes that a line of digits is no date (`Toml.readMoment?_append`) and that no written number
has a zero in front (`Text.decimal_head?`).
-/

namespace DocIdent.Toml

/-! ## Keys -/

/-- A character that begins a key: it is bare, or the quote. -/
def isKeyChar (c : Char) : Bool :=
  isBareChar c || c = '"'

/-- No blank is bare. -/
theorem not_isSpace_of_isBareChar {c : Char} (h : isBareChar c = true) : isSpace c = false := by
  by_contra hs
  have hs : isSpace c = true := by simpa using hs
  rw [isSpace, Bool.or_eq_true, decide_eq_true_eq, decide_eq_true_eq] at hs
  rcases hs with rfl | rfl <;> exact absurd h (by decide)

/-- A key is written with at least one character, and the first is bare or the quote. -/
theorem keyChars_eq_cons (key : String) :
    ∃ c cs, keyChars key = c :: cs ∧ isKeyChar c = true := by
  simp only [keyChars]
  split
  next h =>
    rw [Bool.and_eq_true, Bool.not_eq_true', List.all_eq_true] at h
    cases hs : key.toList with
    | nil => simp [hs] at h
    | cons c cs =>
      have hc : isBareChar c = true := h.2 c (by simp [hs])
      exact ⟨c, cs, rfl, by rw [isKeyChar, hc, Bool.true_or]⟩
  next => exact ⟨'"', _, rfl, by decide⟩

/-- Nothing that begins a key is skipped. -/
theorem skipSpaces_cons {c : Char} {cs : List Char} (h : isKeyChar c = true) :
    skipSpaces (c :: cs) = c :: cs := by
  have hc : isSpace c = false := by
    rw [isKeyChar, Bool.or_eq_true, decide_eq_true_eq] at h
    rcases h with h | rfl
    · exact not_isSpace_of_isBareChar h
    · decide
  rw [skipSpaces, List.dropWhile_cons_of_neg (by simp [hc])]

theorem skipSpaces_keyChars (key : String) (rest : List Char) :
    skipSpaces (keyChars key ++ rest) = keyChars key ++ rest := by
  obtain ⟨c, cs, hkey, hc⟩ := keyChars_eq_cons key
  rw [hkey, List.cons_append, skipSpaces_cons hc]

/-- A written key is read back, whatever follows it that is not bare. -/
theorem readKey?_keyChars (key : String) {rest : List Char}
    (hrest : ∀ c ∈ rest.head?, isBareChar c = false) :
    readKey? (keyChars key ++ rest) = some (key, rest) := by
  have hnone : rest.takeWhile isBareChar = [] ∧ rest.dropWhile isBareChar = rest := by
    cases rest with
    | nil => exact ⟨rfl, rfl⟩
    | cons c cs =>
      have hc : isBareChar c = false := hrest c rfl
      simp [hc]
  simp only [keyChars]
  split
  next h =>
    rw [Bool.and_eq_true, Bool.not_eq_true', List.all_eq_true] at h
    obtain ⟨hne, hbare⟩ := h
    rw [readKey?, List.takeWhile_append_of_pos hbare, List.dropWhile_append_of_pos hbare,
      hnone.1, hnone.2, List.append_nil]
    cases hs : key.toList with
    | nil => simp [hs] at hne
    | cons c cs => simp only [← hs, String.ofList_toList]
  next =>
    have hbody := readFrom?_escapedChars rest key.toList [] 0
    rw [readKey?]
    simp only [List.cons_append, List.append_assoc, List.nil_append]
    rw [List.takeWhile_cons_of_neg (by decide)]
    simp only [readLineText?, hbody, Option.map_some, List.reverse_nil, List.nil_append,
      String.ofList_toList]

/-! ## Paths -/

theorem pathChars_cons (key key' : String) (path : List String) :
    pathChars (key :: key' :: path) = keyChars key ++ '.' :: pathChars (key' :: path) := by
  simp [pathChars, List.intercalate]

@[simp] theorem pathChars_singleton (key : String) : pathChars [key] = keyChars key := by
  simp [pathChars, List.intercalate]

/-- A path that has a key is written with at least one character. -/
theorem pathChars_eq_cons {path : List String} (h : path ≠ []) :
    ∃ c cs, pathChars path = c :: cs ∧ isKeyChar c = true := by
  cases path with
  | nil => exact absurd rfl h
  | cons key path =>
    obtain ⟨c, cs, hkey, hc⟩ := keyChars_eq_cons key
    cases path with
    | nil => exact ⟨c, cs, by rw [pathChars_singleton, hkey], hc⟩
    | cons key' path => exact ⟨c, _, by rw [pathChars_cons, hkey, List.cons_append], hc⟩

/-- A written path is read back up to a limit on the number of its keys; a longer one is not read.
What follows it begins neither with a bare character nor, after blanks, with a point. -/
theorem readPathWithin?_pathChars {rest : List Char}
    (hbare : ∀ c ∈ rest.head?, isBareChar c = false)
    (hpoint : (skipSpaces rest).head? ≠ some '.') :
    ∀ (limit : Nat) (path : List String), path ≠ [] →
      readPathWithin? limit (pathChars path ++ rest) =
        if path.length ≤ limit then some (path, skipSpaces rest) else none
  | 0, key :: path, _ => by simp [readPathWithin?]
  | limit + 1, [key], _ => by
    rw [pathChars_singleton, readPathWithin?, skipSpaces_keyChars, readKey?_keyChars key hbare]
    simp only [Option.bind_eq_bind, Option.bind_some]
    split
    next cs heq => exact absurd (by rw [heq]; rfl) hpoint
    next => simp
  | limit + 1, key :: key' :: path, _ => by
    have ih := readPathWithin?_pathChars hbare hpoint limit (key' :: path) (by simp)
    have hdot : ∀ c ∈ ('.' :: (pathChars (key' :: path) ++ rest)).head?,
        isBareChar c = false := by
      intro c hc
      obtain rfl := Option.some.inj hc
      decide
    rw [pathChars_cons, List.append_assoc, List.cons_append, readPathWithin?, skipSpaces_keyChars,
      readKey?_keyChars key hdot]
    simp only [Option.bind_eq_bind, Option.bind_some]
    rw [skipSpaces, List.dropWhile_cons_of_neg (by decide)]
    simp only [ih, List.length_cons, Nat.add_le_add_iff_right]
    split <;> rfl

/-- A written path is read back if it has no more keys than a path may have. -/
theorem readPath?_pathChars {path : List String} {rest : List Char} (hne : path ≠ [])
    (hbare : ∀ c ∈ rest.head?, isBareChar c = false)
    (hpoint : (skipSpaces rest).head? ≠ some '.') :
    readPath? (pathChars path ++ rest) =
      if path.length ≤ pathLimit then some (path, skipSpaces rest) else none :=
  readPathWithin?_pathChars hbare hpoint pathLimit path hne

/-! ## Plain values -/

/-- A value that is written right behind its key and needs no table: a text, a whole number from
zero that fits into 64 bits, or a list without items. -/
def IsPlainValue : Document → Prop
  | .text _ => True
  | .int i => 0 ≤ i ∧ i ≤ 9223372036854775807
  | .list items => items = []
  | .null | .bool _ | .real _ | .record _ | .unreadable => False

/-- A text is written with a quote first. -/
theorem textChars_eq_cons (s : String) :
    ∃ c cs, textChars s = c :: cs ∧ (c = '"' ∨ c = '\'') := by
  have hquote : ∀ f : Form, f.quote = '"' ∨ f.quote = '\'' := by
    intro f
    unfold Form.quote
    split
    · exact .inl rfl
    · exact .inr rfl
  have hdelimiter : ∀ f : Form, ∃ cs, f.delimiter = f.quote :: cs := by
    intro f
    unfold Form.delimiter
    split
    · exact ⟨_, List.replicate_succ⟩
    · exact ⟨_, List.replicate_succ⟩
  obtain ⟨cs, hcs⟩ := hdelimiter (formOf s.toList)
  exact ⟨_, _, by simp only [textChars, hcs, List.cons_append]; rfl, hquote _⟩

/-- What begins neither a list nor a table is read as neither. -/
theorem readValue?_cons {c : Char} {cs : List Char} (hlist : c ≠ '[') (htable : c ≠ '\x7b') :
    readValue? (c :: cs) = readScalar? (c :: cs) := by
  rw [readValue?, readWithin?]
  · rintro _ ⟨⟩
    exact hlist rfl
  · rintro _ ⟨⟩
    exact htable rfl

/-- A written text is read back as a value. -/
theorem readValue?_text (s : String) (rest : List Char) :
    readValue? (textChars s ++ '\n' :: rest) = some (.text s, '\n' :: rest) := by
  have hread : readText? (textChars s ++ '\n' :: rest) = some (s, '\n' :: rest) := by
    refine readText?_textChars s fun c hc => ?_
    obtain rfl := Option.some.inj hc
    decide
  obtain ⟨c, cs, hs, hc⟩ := textChars_eq_cons s
  rw [hs, List.cons_append] at hread ⊢
  rcases hc with rfl | rfl
  · rw [readValue?_cons (by decide) (by decide), readScalar?]
    simp only [hread, Option.map_some]
  · rw [readValue?_cons (by decide) (by decide), readScalar?]
    simp only [hread, Option.map_some]

/-- An empty list is read back as a value. -/
theorem readValue?_nil (rest : List Char) :
    readValue? (valueChars (.list []) ++ '\n' :: rest) = some (.list [], '\n' :: rest) := by
  rfl

/-! ### Whole numbers -/

variable {ds rest : List Char}

/-- Digits are read up to the end of the line. -/
theorem digitsFrom?_append (hds : ∀ d ∈ ds, d.isDigit = true) :
    ∀ due : Bool, (due = true → ds ≠ []) →
      digitsFrom? Char.isDigit due (ds ++ '\n' :: rest) = some (ds, '\n' :: rest) := by
  induction ds with
  | nil =>
    intro due hdue
    cases due with
    | true => exact absurd rfl (hdue rfl)
    | false => rfl
  | cons d ds ih =>
    intro due _
    have hd : d.isDigit = true := hds d (.head _)
    rw [List.cons_append, digitsFrom?, if_pos hd, ih (fun e he => hds e (.tail _ he)) false nofun,
      Option.map_some]

/-- A number of fixed width in front of a line's end leaves digits. -/
theorem fixed?_append (hds : ∀ d ∈ ds, d.isDigit = true) {width n : Nat} {cs : List Char}
    (h : fixed? width (ds ++ '\n' :: rest) = some (n, cs)) :
    ∃ es, cs = es ++ '\n' :: rest ∧ ∀ e ∈ es, e.isDigit = true := by
  simp only [fixed?] at h
  split at h
  next hw =>
    obtain ⟨hlen, hall⟩ := hw
    have hle : width ≤ ds.length := by
      by_contra hlt
      have hmem : '\n' ∈ (ds ++ '\n' :: rest).take width := by
        rw [List.take_append]
        obtain ⟨k, hk⟩ : ∃ k, width - ds.length = k + 1 := ⟨width - ds.length - 1, by omega⟩
        rw [hk, List.take_succ_cons]
        simp
      exact absurd (List.all_eq_true.1 hall _ hmem) (by decide)
    refine ⟨ds.drop width, ?_, fun e he => hds e (List.mem_of_mem_drop he)⟩
    rw [← (Prod.mk.inj (Option.some.inj h)).2, List.drop_append_of_le_length hle]
  next => cases h

/-- Neither a digit nor the end of the line is anything else. -/
theorem after?_append (hds : ∀ d ∈ ds, d.isDigit = true) {c : Char} (hc : c.isDigit = false)
    (hline : c ≠ '\n') : after? c (ds ++ '\n' :: rest) = none := by
  cases ds with
  | nil => rw [List.nil_append, after?, if_neg (Ne.symm hline)]
  | cons d ds =>
    have hd : d ≠ c := by
      rintro rfl
      have := hds d (.head _)
      simp [hc] at this
    rw [List.cons_append, after?, if_neg hd]

/-- A line of digits is no date and no time of day. -/
theorem readMoment?_append (hds : ∀ d ∈ ds, d.isDigit = true) :
    readMoment? (ds ++ '\n' :: rest) = none := by
  have hdate : afterDateTime? (ds ++ '\n' :: rest) = none := by
    rw [afterDateTime?, afterDate?]
    cases hyear : fixed? 4 (ds ++ '\n' :: rest) with
    | none => rfl
    | some r =>
      obtain ⟨es, hes, hdigits⟩ := fixed?_append hds hyear
      simp [hes, after?_append hdigits (c := '-') (by decide) (by decide)]
  have htime : afterTime? (ds ++ '\n' :: rest) = none := by
    rw [afterTime?, afterMinutes?]
    cases hhour : fixed? 2 (ds ++ '\n' :: rest) with
    | none => rfl
    | some r =>
      obtain ⟨es, hes, hdigits⟩ := fixed?_append hds hhour
      simp [hes, after?_append hdigits (c := ':') (by decide) (by decide)]
  rw [readMoment?, hdate, htime]
  rfl

/-- The digits of a number are taken for a whole number. -/
theorem wholeRun?_decimal (n : Nat) (rest : List Char) :
    wholeRun? (Text.decimal n ++ '\n' :: rest) = some (Text.decimal n, '\n' :: rest) := by
  rcases Nat.eq_zero_or_pos n with rfl | hn
  · rfl
  · have hhead := Text.decimal_head? n hn
    rw [wholeRun?, digitRun?]
    · exact digitsFrom?_append (fun d hd => Text.isDigit_of_mem_decimal hd) true
        fun _ => Text.decimal_ne_nil n
    · intro cs he
      cases hds : Text.decimal n with
      | nil => exact Text.decimal_ne_nil n hds
      | cons d ds =>
        rw [hds, List.cons_append] at he
        exact hhead (by rw [hds, (List.cons.inj he).1]; rfl)

/-- A written whole number is read back as a value, if it fits. -/
theorem readValue?_decimal {n : Nat} (hn : n ≤ 9223372036854775807) (rest : List Char) :
    readValue? (Text.decimal n ++ '\n' :: rest) = some (.int n, '\n' :: rest) := by
  have hdigits : ∀ d ∈ Text.decimal n, d.isDigit = true :=
    fun _ hd => Text.isDigit_of_mem_decimal hd
  have hmoment : readMoment? (Text.decimal n ++ '\n' :: rest) = none := readMoment?_append hdigits
  have hrange : -9223372036854775808 ≤ (n : Int) ∧ (n : Int) ≤ 9223372036854775807 := by omega
  have hdecimal : readDecimal? false (Text.decimal n ++ '\n' :: rest) =
      some (.int n, '\n' :: rest) := by
    rw [readDecimal?, wholeRun?_decimal]
    simp only [Option.bind_eq_bind, Option.bind_some, fraction?, exponent?,
      Text.ofDigitChars_decimal]
    simp [word64?, hrange]
  obtain ⟨d, ds, hds⟩ := List.exists_cons_of_ne_nil (Text.decimal_ne_nil n)
  have hd : d.isDigit = true := hdigits d (by simp [hds])
  have hnot : ∀ c : Char, c.isDigit = false → d ≠ c := fun _ => Text.ne_of_isDigit hd
  have hnext : ∀ c : Char, c.isDigit = false → c ≠ '\n' →
      ∀ cs, ds ++ '\n' :: rest ≠ c :: cs := by
    intro c hc hline cs he
    cases ds with
    | nil => exact hline (List.cons.inj he).1.symm
    | cons e es =>
      have hdigit : e.isDigit = true := hdigits e (by simp [hds])
      rw [(List.cons.inj he).1, hc] at hdigit
      cases hdigit
  have hsign : sign (d :: (ds ++ '\n' :: rest)) = (false, d :: (ds ++ '\n' :: rest)) := by
    rw [sign]
    · rintro _ ⟨⟩
      exact hnot '-' (by decide) rfl
    · rintro _ ⟨⟩
      exact hnot '+' (by decide) rfl
  rw [hds, List.cons_append] at hmoment hdecimal ⊢
  have hnumber : readNumber? (d :: (ds ++ '\n' :: rest)) = some (.int n, '\n' :: rest) := by
    rw [readNumber?, hsign]
    · split
      next heq => exact absurd (List.cons.inj (Prod.mk.inj heq).2).1 (hnot 'i' (by decide))
      next heq => exact absurd (List.cons.inj (Prod.mk.inj heq).2).1 (hnot 'n' (by decide))
      next heq =>
        obtain ⟨rfl, rfl⟩ := Prod.mk.inj heq
        exact hdecimal
    all_goals exact fun cs he => hnext _ (by decide) (by decide) cs (List.cons.inj he).2
  rw [readValue?_cons (hnot _ (by decide)) (hnot _ (by decide)), readScalar?, hmoment]
  · exact hnumber
  all_goals exact fun _ he => hnot _ (by decide) (List.cons.inj he).1

/-- **A written plain value is read back** up to the end of its line. -/
theorem readValue?_valueChars {d : Document} (h : IsPlainValue d) (rest : List Char) :
    readValue? (valueChars d ++ '\n' :: rest) = some (d, '\n' :: rest) := by
  match d, h with
  | .text s, _ =>
    rw [valueChars]
    exact readValue?_text s rest
  | .int i, ⟨h0, h1⟩ =>
    obtain ⟨n, rfl⟩ := Int.eq_ofNat_of_zero_le h0
    rw [valueChars]
    exact readValue?_decimal (by omega) rest
  | .list items, h =>
    obtain rfl : items = [] := h
    exact readValue?_nil rest

/-- A plain value is written with a first character that is no blank. -/
theorem valueChars_eq_cons {d : Document} (h : IsPlainValue d) :
    ∃ c cs, valueChars d = c :: cs ∧ isSpace c = false := by
  match d, h with
  | .text s, _ =>
    obtain ⟨c, cs, hs, hc⟩ := textChars_eq_cons s
    refine ⟨c, cs, by rw [valueChars, hs], ?_⟩
    rcases hc with rfl | rfl
    · decide
    · decide
  | .int i, ⟨h0, h1⟩ =>
    obtain ⟨n, rfl⟩ := Int.eq_ofNat_of_zero_le h0
    obtain ⟨c, cs, hn⟩ := List.exists_cons_of_ne_nil (Text.decimal_ne_nil n)
    refine ⟨c, cs, by rw [valueChars]; exact hn, not_isSpace_of_isBareChar ?_⟩
    have hc : c.isDigit = true := Text.isDigit_of_mem_decimal (n := n) (by rw [hn]; exact .head _)
    simp [isBareChar, Char.isAlphanum, hc]
  | .list items, h =>
    obtain rfl : items = [] := h
    exact ⟨'[', [']'], rfl, by decide⟩

end DocIdent.Toml
