import DocIdent.Toml.Text
import Mathlib.Data.List.Basic

/-!
# Reading a written text

Whatever the characters of a text are, one of five forms holds it (`Toml.formOf`), and reading what
was written in that form gives the text back and stops right behind it (`Toml.readText?_textChars`).
Between double quotes each character is read back from its escape (`readFrom?_escapedChar`); with
three quotes on each side the reader may have one or two quotes pending of which it does not know
yet whether they end the text (`Mode.pending`), so the statements about these forms count them.
-/

namespace DocIdent.Toml

/-! ## One step of reading -/

/-- The mode in which some quotes are pending. -/
def Mode.pending : Nat → Mode
  | 0 => .plain
  | n + 1 => .quotes (n + 1)

variable {f : Form} {read cs : List Char} {c : Char}

@[simp] theorem reverse_withQuotes (f : Form) (n : Nat) (read : List Char) :
    (f.withQuotes n read).reverse = read.reverse ++ List.replicate n f.quote := by
  simp [Form.withQuotes]

@[simp] theorem withQuotes_zero (f : Form) (read : List Char) : f.withQuotes 0 read = read := by
  simp [Form.withQuotes]

/-- A character that is no quote, where nothing is pending. -/
theorem readFrom?_plain (h : c ≠ f.quote) :
    readFrom? f .plain read (c :: cs) =
      (plainStep? f read c).bind fun r => readFrom? f r.mode r.read cs := by
  rw [readFrom?]
  simp only [h, if_false]
  cases plainStep? f read c <;> rfl

/-- A character after a backslash. -/
theorem readFrom?_begun :
    readFrom? f .begun read (c :: cs) =
      (escapeStep? f read c).bind fun r => readFrom? f r.mode r.read cs := by
  rw [readFrom?]
  cases escapeStep? f read c <;> rfl

/-- A hexadecimal digit. -/
theorem readFrom?_code (left value : Nat) :
    readFrom? f (.code left value) read (c :: cs) =
      (codeStep? left value read c).bind fun r => readFrom? f r.mode r.read cs := by
  rw [readFrom?]
  cases codeStep? left value read c <;> rfl

/-- Pending quotes that something else follows belong to the text. -/
theorem readFrom?_pending {q : Nat} (hq : q ≤ 2) (h : c ≠ f.quote) :
    readFrom? f (.pending q) read (c :: cs) =
      readFrom? f .plain (f.withQuotes q read) (c :: cs) := by
  cases q with
  | zero => rw [Mode.pending, withQuotes_zero]
  | succ n =>
    rw [Mode.pending, readFrom?, readFrom?]
    simp only [h, if_false, if_neg (show ¬ 3 ≤ n + 1 by omega)]

/-- One more pending quote. -/
theorem readFrom?_pending_quote {q : Nat} (hm : f.multiline = true) (hq : q ≤ 3) :
    readFrom? f (.pending q) read (f.quote :: cs) = readFrom? f (.pending (q + 1)) read cs := by
  cases q with
  | zero =>
    rw [Mode.pending, readFrom?]
    simp [hm, Mode.pending]
  | succ n =>
    rw [Mode.pending, readFrom?]
    simp [show n + 1 ≠ 4 by omega, Mode.pending]

/-- The quotes that close a text behind pending ones that belong to it. -/
theorem readFrom?_pending_delimiter {q : Nat} {rest : List Char} (hm : f.multiline = true)
    (hq : q ≤ 2) (hrest : rest.head? ≠ some f.quote) :
    readFrom? f (.pending q) read (f.delimiter ++ rest) =
      some (read.reverse ++ List.replicate q f.quote, rest) := by
  have hdelimiter : f.delimiter ++ rest = f.quote :: f.quote :: f.quote :: rest := by
    simp [Form.delimiter, hm, List.replicate_succ]
  rw [hdelimiter, readFrom?_pending_quote hm (by omega)]
  by_cases hq2 : q = 2
  · subst hq2
    rw [readFrom?_pending_quote hm (by omega), Mode.pending, readFrom?]
    simp
  · rw [readFrom?_pending_quote hm (by omega), readFrom?_pending_quote hm (by omega), Mode.pending]
    cases rest with
    | nil => simp [readFrom?]
    | cons c cs =>
      have hc : c ≠ f.quote := fun he => hrest (by rw [he]; rfl)
      rw [readFrom?]
      simp [hc]

/-! ## Escapes -/

/-- A backslash begins an escape. -/
theorem readFrom?_backslash (hf : f.escapes = true) :
    readFrom? f .plain read ('\\' :: c :: cs) =
      (escapeStep? f read c).bind fun r => readFrom? f r.mode r.read cs := by
  rw [readFrom?_plain (by simp [Form.quote, hf]), plainStep?, if_pos ⟨hf, rfl⟩, Option.bind_some,
    readFrom?_begun]

/-- The value of a hexadecimal digit in upper case. -/
theorem hexValue_toUpper_hexDigit :
    ∀ d < 16, Text.hexValue (Text.hexDigit d).toUpper = some d := by
  decide

/-- Four hexadecimal digits are read back. -/
theorem readFrom?_hexFixed {n : Nat} (hn : n < 65536) (hc : charOfCode? n = some c) :
    readFrom? f (.code 4 0) read ((Text.hexFixed 4 n).map Char.toUpper ++ cs) =
      readFrom? f .plain (c :: read) cs := by
  have hd : ∀ m, Text.hexValue (Text.hexDigit (m % 16)).toUpper = some (m % 16) :=
    fun m => hexValue_toUpper_hexDigit _ (Nat.mod_lt _ (by decide))
  have hv : 16 * (16 * (16 * (16 * 0 + n / 16 / 16 / 16 % 16) + n / 16 / 16 % 16) + n / 16 % 16) +
      n % 16 = n := by
    omega
  simp only [Text.hexFixed, List.nil_append, List.cons_append, List.map_cons, List.map_nil,
    readFrom?_code, codeStep?, hd, Option.bind_eq_bind, Option.bind_some]
  simp only [Nat.reduceLeDiff, if_false, if_true, Nat.reduceSub, Option.pure_def,
    Option.bind_some, readFrom?_code, codeStep?, hd, hv, hc, Option.bind_eq_bind]

/-- A character has the code point from which it is made. -/
@[simp] theorem charOfCode?_toNat (c : Char) : charOfCode? c.toNat = some c := by
  have hv : c.toNat.isValidChar := c.valid
  rw [charOfCode?, if_pos hv, Char.ofNat_toNat]

/-- A character is read back from its written form, the quote and the line feed apart. -/
theorem readFrom?_escapedChar (hf : f.escapes = true) (hquote : c ≠ '"') (hline : c ≠ '\n') :
    readFrom? f .plain read (escapedChar c ++ cs) = readFrom? f .plain (c :: read) cs := by
  have hq : f.quote = '"' := by simp [Form.quote, hf]
  unfold escapedChar
  split_ifs with hb ht hff hr hbs hcode
  · subst hb
    exact readFrom?_backslash hf
  · subst ht
    exact readFrom?_backslash hf
  · subst hff
    exact readFrom?_backslash hf
  · subst hr
    exact readFrom?_backslash hf
  · subst hbs
    exact readFrom?_backslash hf
  · rw [List.append_assoc, List.cons_append, List.cons_append, List.nil_append,
      readFrom?_backslash hf]
    exact readFrom?_hexFixed (by omega) (charOfCode?_toNat c)
  · have htext : isTextChar c = true := by
      simp only [isTextChar, Bool.or_eq_true, Bool.and_eq_true, decide_eq_true_eq]
      omega
    rw [List.cons_append, List.nil_append, readFrom?_plain (by rwa [hq]), plainStep?,
      if_neg (fun h => hbs h.2), if_neg (fun h => hline h.2), if_neg (fun h => hr h.2),
      if_pos htext]
    rfl

/-- What is written for a character that is neither quote nor line feed begins with neither, and
with no carriage return. -/
theorem escapedChar_eq_cons (hquote : c ≠ '"') (hline : c ≠ '\n') :
    ∃ d ds, escapedChar c = d :: ds ∧ d ≠ '"' ∧ d ≠ '\n' ∧ d ≠ '\r' := by
  unfold escapedChar
  split_ifs with _ _ _ hr
  · exact ⟨_, _, rfl, by decide⟩
  · exact ⟨_, _, rfl, by decide⟩
  · exact ⟨_, _, rfl, by decide⟩
  · exact ⟨_, _, rfl, by decide⟩
  · exact ⟨_, _, rfl, by decide⟩
  · exact ⟨_, _, rfl, by decide⟩
  · exact ⟨_, _, rfl, hquote, hline, hr⟩

/-! ## Bodies of the five forms -/

/-- Between two double quotes every text is read back from its escaped characters. -/
theorem readFrom?_escapedChars (rest : List Char) :
    ∀ (cs read : List Char) (q : Nat),
      readFrom? ⟨true, false⟩ .plain read (escapedChars false q cs ++ '"' :: rest) =
        some (read.reverse ++ cs, rest)
  | [], read, q => by
    rw [escapedChars, List.nil_append, readFrom?]
    simp [Form.quote]
  | c :: cs, read, q => by
    have ih := readFrom?_escapedChars rest cs (c :: read) 0
    rw [List.reverse_cons, List.append_assoc, List.singleton_append] at ih
    rw [escapedChars]
    by_cases hquote : c = '"'
    · subst hquote
      rw [if_pos rfl, if_pos (Or.inl (by decide)), List.cons_append, List.cons_append,
        readFrom?_backslash rfl]
      exact ih
    by_cases hline : c = '\n'
    · subst hline
      rw [if_neg hquote, if_pos ⟨rfl, rfl⟩, List.cons_append, List.cons_append,
        readFrom?_backslash rfl]
      exact ih
    rw [if_neg hquote, if_neg (fun h => hline h.1), if_neg hline, List.append_assoc,
      readFrom?_escapedChar rfl hquote hline]
    exact ih

/-- Between three double quotes on each side every text is read back from its escaped characters,
also behind quotes that are pending. -/
theorem readFrom?_escapedChars_multiline {rest : List Char} (hrest : rest.head? ≠ some '"') :
    ∀ (cs read : List Char) (q : Nat), q ≤ 2 →
      readFrom? ⟨true, true⟩ (.pending q) read
          (escapedChars true q cs ++ (Form.delimiter ⟨true, true⟩ ++ rest)) =
        some (read.reverse ++ List.replicate q '"' ++ cs, rest)
  | [], read, q, hq => by
    rw [escapedChars, List.nil_append, readFrom?_pending_delimiter rfl hq hrest, List.append_nil]
    rfl
  | c :: cs, read, q, hq => by
    have ih := readFrom?_escapedChars_multiline hrest cs
      (c :: Form.withQuotes ⟨true, true⟩ q read) 0 (by omega)
    rw [List.reverse_cons, reverse_withQuotes, List.replicate_zero, List.append_nil,
      List.append_assoc _ [c], List.singleton_append] at ih
    rw [escapedChars]
    by_cases hquote : c = '"'
    · subst hquote
      by_cases hq2 : q = 2
      · rw [if_pos rfl, if_pos (Or.inr hq2), List.cons_append, List.cons_append,
          readFrom?_pending hq (by decide), readFrom?_backslash rfl]
        exact ih
      · have hone := readFrom?_escapedChars_multiline hrest cs read (q + 1) (by omega)
        rw [if_pos rfl, if_neg (by simp [hq2]), List.cons_append]
        refine (readFrom?_pending_quote (f := ⟨true, true⟩) rfl (by omega)).trans ?_
        rw [hone, List.replicate_succ']
        simp
    by_cases hline : c = '\n'
    · subst hline
      rw [if_neg hquote, if_neg (by simp), if_pos rfl, List.cons_append,
        readFrom?_pending hq (by decide), readFrom?_plain (by decide)]
      exact ih
    · obtain ⟨d, ds, hd, hne, -⟩ := escapedChar_eq_cons hquote hline
      rw [if_neg hquote, if_neg (fun h => hline h.1), if_neg hline, List.append_assoc, hd,
        List.cons_append, readFrom?_pending hq hne, ← List.cons_append, ← hd,
        readFrom?_escapedChar rfl hquote hline]
      exact ih

/-- Between two single quotes a text is read back that has characters of text only and no single
quote. -/
theorem readFrom?_literal (rest : List Char) :
    ∀ (cs read : List Char), (∀ c ∈ cs, isTextChar c = true ∧ c ≠ '\'') →
      readFrom? ⟨false, false⟩ .plain read (cs ++ '\'' :: rest) = some (read.reverse ++ cs, rest)
  | [], read, _ => by
    rw [List.nil_append, readFrom?]
    simp [Form.quote]
  | c :: cs, read, h => by
    obtain ⟨htext, hquote⟩ := h c (.head _)
    have ih := readFrom?_literal rest cs (c :: read) fun d hd => h d (.tail _ hd)
    rw [List.reverse_cons, List.append_assoc, List.singleton_append] at ih
    rw [List.cons_append, readFrom?_plain hquote, plainStep?, if_neg (by simp), if_neg (by simp),
      if_neg (by simp), if_pos htext]
    exact ih

/-- What was seen of a run counts. -/
theorem le_longestRun (c : Char) : ∀ (cs : List Char) (seen : Nat), seen ≤ longestRun c seen cs
  | [], seen => Nat.le_of_eq (longestRun.eq_1 c seen).symm
  | x :: xs, seen => by
    rw [longestRun]
    split
    · exact Nat.le_of_succ_le (le_longestRun c xs (seen + 1))
    · exact Nat.le_max_left _ _

/-- Between three single quotes on each side a text is read back that has characters of text and
line feeds only and at most two single quotes in a row, also behind quotes that are pending. -/
theorem readFrom?_literal_multiline {rest : List Char} (hrest : rest.head? ≠ some '\'') :
    ∀ (cs read : List Char) (q : Nat), longestRun '\'' q cs ≤ 2 →
      (∀ c ∈ cs, isTextChar c = true ∨ c = '\n') →
      readFrom? ⟨false, true⟩ (.pending q) read
          (cs ++ (Form.delimiter ⟨false, true⟩ ++ rest)) =
        some (read.reverse ++ List.replicate q '\'' ++ cs, rest)
  | [], read, q, hq, _ => by
    rw [longestRun] at hq
    rw [List.nil_append, readFrom?_pending_delimiter rfl hq hrest, List.append_nil]
    rfl
  | c :: cs, read, q, hq, h => by
    rw [longestRun] at hq
    by_cases hquote : c = '\''
    · subst hquote
      rw [if_pos rfl] at hq
      have hone := readFrom?_literal_multiline hrest cs read (q + 1) hq
        fun d hd => h d (.tail _ hd)
      have hle : q + 1 ≤ 2 := Nat.le_trans (le_longestRun '\'' cs (q + 1)) hq
      rw [List.cons_append]
      refine (readFrom?_pending_quote (f := ⟨false, true⟩) rfl (by omega)).trans ?_
      rw [hone, List.replicate_succ']
      simp
    · rw [if_neg hquote, Nat.max_le] at hq
      have ih := readFrom?_literal_multiline hrest cs
        (c :: Form.withQuotes ⟨false, true⟩ q read) 0 hq.2 fun d hd => h d (.tail _ hd)
      rw [List.reverse_cons, reverse_withQuotes, List.replicate_zero, List.append_nil,
        List.append_assoc _ [c], List.singleton_append] at ih
      rw [List.cons_append, readFrom?_pending hq.1 hquote, readFrom?_plain hquote, plainStep?,
        if_neg (by simp)]
      by_cases hline : c = '\n'
      · subst hline
        rw [if_pos ⟨rfl, rfl⟩]
        exact ih
      · have htext : isTextChar c = true := (h c (.head _)).resolve_right hline
        have hreturn : c ≠ '\r' := by
          rintro rfl
          exact absurd htext (by decide)
        rw [if_neg (fun h => hline h.2), if_neg (fun h => hreturn h.2), if_pos htext]
        exact ih

/-! ## Every text -/

/-- A text without hard controls has characters of text and line feeds only. -/
theorem isTextChar_of_not_isHardControl (h : isHardControl c = false) :
    isTextChar c = true ∨ c = '\n' := by
  simp only [isHardControl, Bool.or_eq_false_iff, Bool.and_eq_false_iff, decide_eq_false_iff_not,
    isTextChar, Bool.or_eq_true, Bool.and_eq_true, decide_eq_true_eq] at h ⊢
  by_cases ht : c = '\t'
  · exact .inl (.inl ht)
  by_cases hn : c = '\n'
  · exact .inr hn
  have hlow : ¬ c.toNat < 32 := by simpa [ht, hn] using h.1
  exact .inl (.inr ⟨by omega, h.2⟩)

/-- Two opening quotes are taken for one if a third does not follow. -/
theorem opening?_double {x : List Char} (h : ∀ y, x ≠ '"' :: '"' :: y) :
    opening? ('"' :: x) = some (⟨true, false⟩, x) := by
  unfold opening?
  split
  · rename_i heq
    exact absurd (List.cons.inj heq).2 (h _)
  · rename_i heq
    rw [(List.cons.inj heq).2]
  · rename_i heq
    exact absurd (List.cons.inj heq).1 (by decide)
  · rename_i heq
    exact absurd (List.cons.inj heq).1 (by decide)
  · rename_i hother _ _
    exact absurd rfl (hother x)

/-- Two opening single quotes are taken for one if a third does not follow. -/
theorem opening?_single {x : List Char} (h : ∀ y, x ≠ '\'' :: '\'' :: y) :
    opening? ('\'' :: x) = some (⟨false, false⟩, x) := by
  unfold opening?
  split
  · rename_i heq
    exact absurd (List.cons.inj heq).1 (by decide)
  · rename_i heq
    exact absurd (List.cons.inj heq).1 (by decide)
  · rename_i heq
    exact absurd (List.cons.inj heq).2 (h _)
  · rename_i heq
    rw [(List.cons.inj heq).2]
  · rename_i hother
    exact absurd rfl (hother x)

/-- What comes right behind the opening quotes stays if it is no line break. -/
theorem afterOpening_eq {x : List Char} (h : ∀ c ∈ x.head?, c ≠ '\n' ∧ c ≠ '\r') :
    afterOpening f x = x := by
  unfold afterOpening
  split
  · exact absurd rfl (h _ rfl).1
  · exact absurd rfl (h _ rfl).2
  · rfl

theorem afterOpening_of_not_multiline (hm : f.multiline = false) (x : List Char) :
    afterOpening f x = x := by
  unfold afterOpening
  split <;> simp [hm]

/-- A text between double quotes on one line is read back. -/
theorem readText?_double {s : String} {rest : List Char} (hrest : rest.head? ≠ some '"') :
    readText? ('"' :: (escapedChars false 0 s.toList ++ '"' :: rest)) = some (s, rest) := by
  have hopen : ∀ y, escapedChars false 0 s.toList ++ '"' :: rest ≠ '"' :: '"' :: y := by
    intro y
    cases hs : s.toList with
    | nil =>
      rw [escapedChars, List.nil_append]
      intro he
      exact hrest (by rw [(List.cons.inj he).2]; rfl)
    | cons c cs =>
      rw [escapedChars]
      by_cases hquote : c = '"'
      · simp [hquote]
      by_cases hline : c = '\n'
      · simp [hline]
      · obtain ⟨d, ds, hd, hne, -⟩ := escapedChar_eq_cons hquote hline
        simp [hquote, hline, hd, hne]
  rw [readText?, opening?_double hopen]
  simp only [Option.bind_eq_bind, Option.bind_some, afterOpening_of_not_multiline,
    readFrom?_escapedChars]
  simp

/-- A text between single quotes on one line is read back. -/
theorem readText?_single {s : String} {rest : List Char} (hrest : rest.head? ≠ some '\'')
    (hs : ∀ c ∈ s.toList, isTextChar c = true ∧ c ≠ '\'') :
    readText? ('\'' :: (s.toList ++ '\'' :: rest)) = some (s, rest) := by
  have hopen : ∀ y, s.toList ++ '\'' :: rest ≠ '\'' :: '\'' :: y := by
    intro y
    cases hc : s.toList with
    | nil =>
      intro he
      exact hrest (by rw [(List.cons.inj he).2]; rfl)
    | cons c cs =>
      intro he
      exact (hs c (by simp [hc])).2 (List.cons.inj he).1
  rw [readText?, opening?_single hopen]
  simp only [Option.bind_eq_bind, Option.bind_some, afterOpening_of_not_multiline,
    readFrom?_literal rest s.toList [] hs]
  simp

/-- The line break of a text that begins on a line of its own is passed over. -/
theorem afterOpening_break (hm : f.multiline = true) {newline : Bool} {x : List Char}
    (h : newline = false → ∀ c ∈ x.head?, c ≠ '\n' ∧ c ≠ '\r') :
    afterOpening f ((if newline then ['\n'] else []) ++ x) = x := by
  cases newline with
  | true => simp [afterOpening, hm]
  | false => exact afterOpening_eq (h rfl)

/-- A text between three double quotes on each side is read back. -/
theorem readText?_double_multiline {s : String} {rest : List Char}
    (hrest : rest.head? ≠ some '"') :
    readText? (Form.delimiter ⟨true, true⟩ ++
        ((if s.toList.contains '\n' then ['\n'] else []) ++
          (escapedChars true 0 s.toList ++ (Form.delimiter ⟨true, true⟩ ++ rest)))) =
      some (s, rest) := by
  have hhead : s.toList.contains '\n' = false →
      ∀ c ∈ (escapedChars true 0 s.toList ++ (Form.delimiter ⟨true, true⟩ ++ rest)).head?,
        c ≠ '\n' ∧ c ≠ '\r' := by
    intro hnl c hc
    cases hs : s.toList with
    | nil =>
      rw [hs] at hc
      obtain rfl := Option.some.inj hc
      decide
    | cons d ds =>
      rw [hs] at hc hnl
      rw [escapedChars] at hc
      have hline : d ≠ '\n' := by
        rintro rfl
        simp at hnl
      by_cases hquote : d = '"'
      · obtain rfl : '"' = c := by simpa [hquote] using hc
        decide
      · obtain ⟨e, es, he, -, hne⟩ := escapedChar_eq_cons hquote hline
        obtain rfl : e = c := by simpa [hquote, hline, he] using hc
        exact hne
  have hopen : ∀ x, opening? (Form.delimiter ⟨true, true⟩ ++ x) = some (⟨true, true⟩, x) :=
    fun _ => rfl
  have hbody := readFrom?_escapedChars_multiline hrest s.toList [] 0 (by omega)
  rw [readText?, hopen]
  simp only [Option.bind_eq_bind, Option.bind_some,
    afterOpening_break (f := ⟨true, true⟩) rfl hhead]
  rw [Mode.pending] at hbody
  rw [hbody]
  simp

/-- A text between three single quotes on each side is read back. -/
theorem readText?_single_multiline {s : String} {rest : List Char}
    (hrest : rest.head? ≠ some '\'') (hrun : longestRun '\'' 0 s.toList ≤ 2)
    (hs : ∀ c ∈ s.toList, isTextChar c = true ∨ c = '\n') :
    readText? (Form.delimiter ⟨false, true⟩ ++
        ((if s.toList.contains '\n' then ['\n'] else []) ++
          (s.toList ++ (Form.delimiter ⟨false, true⟩ ++ rest)))) =
      some (s, rest) := by
  have hhead : s.toList.contains '\n' = false →
      ∀ c ∈ (s.toList ++ (Form.delimiter ⟨false, true⟩ ++ rest)).head?, c ≠ '\n' ∧ c ≠ '\r' := by
    intro hnl c hc
    cases hd : s.toList with
    | nil =>
      rw [hd] at hc
      obtain rfl := Option.some.inj hc
      decide
    | cons d ds =>
      rw [hd] at hc hnl hs
      obtain rfl : d = c := Option.some.inj hc
      have hline : d ≠ '\n' := by
        rintro rfl
        simp at hnl
      refine ⟨hline, ?_⟩
      rintro rfl
      exact absurd ((hs _ (.head _)).resolve_right hline) (by decide)
  have hopen : ∀ x, opening? (Form.delimiter ⟨false, true⟩ ++ x) = some (⟨false, true⟩, x) :=
    fun _ => rfl
  have hbody := readFrom?_literal_multiline hrest s.toList [] 0 hrun hs
  rw [readText?, hopen]
  simp only [Option.bind_eq_bind, Option.bind_some,
    afterOpening_break (f := ⟨false, true⟩) rfl hhead]
  rw [Mode.pending] at hbody
  rw [hbody]
  simp

/-- A text without single quotes has no run of them. -/
theorem longestRun_eq_zero : ∀ {cs : List Char}, longestRun c 0 cs = 0 → c ∉ cs
  | [], _ => List.not_mem_nil
  | x :: xs, h => by
    rw [longestRun] at h
    split at h
    · have := le_longestRun c xs (0 + 1)
      omega
    · rename_i hx
      rw [Nat.max_eq_zero_iff] at h
      simp [Ne.symm hx, longestRun_eq_zero h.2]

/-- A text is written without escapes only if it is fit for the form. -/
theorem formOf_cases (cs : List Char) :
    formOf cs = ⟨true, false⟩ ∨ formOf cs = ⟨true, true⟩ ∨
      (formOf cs = ⟨false, false⟩ ∧ ∀ c ∈ cs, isTextChar c = true ∧ c ≠ '\'') ∨
      (formOf cs = ⟨false, true⟩ ∧ longestRun '\'' 0 cs ≤ 2 ∧
        ∀ c ∈ cs, isTextChar c = true ∨ c = '\n') := by
  have htext : cs.any isHardControl = false → ∀ c ∈ cs, isTextChar c = true ∨ c = '\n' := by
    intro h c hc
    exact isTextChar_of_not_isHardControl (by simpa using List.any_eq_false.1 h c hc)
  simp only [formOf]
  split_ifs with h1 h2 h3 h4
  · exact .inl rfl
  · simp only [Bool.and_eq_true, Bool.not_eq_true', decide_eq_true_eq] at h2
    obtain ⟨⟨hcontrol, hrun⟩, hnewline⟩ := h2
    refine .inr (.inr (.inl ⟨rfl, fun c hc => ⟨?_, ?_⟩⟩))
    · refine (htext hcontrol c hc).resolve_right ?_
      rintro rfl
      simp [hc] at hnewline
    · rintro rfl
      exact longestRun_eq_zero hrun hc
  · exact .inr (.inl rfl)
  · simp only [Bool.and_eq_true, Bool.not_eq_true', decide_eq_true_eq] at h4
    exact .inr (.inr (.inr ⟨rfl, h4.2, htext h4.1⟩))
  · cases hnl : cs.contains '\n' with
    | true => exact .inr (.inl rfl)
    | false => exact .inl rfl

/-- **A written text is read back**, whatever follows it except another quote. -/
theorem readText?_textChars (s : String) {rest : List Char}
    (hrest : ∀ c ∈ rest.head?, c ≠ '"' ∧ c ≠ '\'') :
    readText? (textChars s ++ rest) = some (s, rest) := by
  have hdouble : rest.head? ≠ some '"' := fun h => (hrest _ h).1 rfl
  have hsingle : rest.head? ≠ some '\'' := fun h => (hrest _ h).2 rfl
  rcases formOf_cases s.toList with hf | hf | ⟨hf, hs⟩ | ⟨hf, hrun, hs⟩
  · simpa [textChars, hf, Form.delimiter, Form.quote] using readText?_double hdouble
  · simpa [textChars, hf] using readText?_double_multiline hdouble
  · simpa [textChars, hf, Form.delimiter, Form.quote] using readText?_single hsingle hs
  · simpa [textChars, hf] using readText?_single_multiline hsingle hrun hs

end DocIdent.Toml
