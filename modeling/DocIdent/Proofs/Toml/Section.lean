import DocIdent.Proofs.Toml.Value
import DocIdent.Toml.Section

/-!
# Reading written sections

A text of sections is written line by line: empty lines, headers and pairs. `Toml.Reads` says what
the statements of a text are without the bound that the reader counts down, so that a text is built
up from its end, one line at a time (`Toml.Reads.line`). The sections come back from their text
unless the path of a header has too many keys: then nothing of the text is read
(`Toml.readSections?_sectionsChars`).
-/

namespace DocIdent.Toml

/-! ## Statements -/

/-- The path in a header; the whole document has none. -/
def Header.path : Header → List String
  | .document => []
  | .table path | .element path => path

/-- The end of a line is all that has to follow. -/
@[simp] theorem afterLine?_break (rest : List Char) : afterLine? ('\n' :: rest) = some rest := by
  rfl

/-- A line that begins like a key has a pair. -/
theorem readStatement?_key {c : Char} {cs : List Char} (h : isKeyChar c = true) :
    readStatement? (c :: cs) = (do
      let (path, cs) ← readPath? (c :: cs)
      let (d, cs) ← readValue? (skipSpaces (← after? '=' cs))
      return (some (.pair path d), ← afterLine? cs)) := by
  have hnot : ∀ x : Char, isKeyChar x = false → c ≠ x := by
    rintro x hx rfl
    simp [hx] at h
  rw [readStatement?, skipSpaces_cons h]
  split
  next heq => exact absurd (List.cons.inj heq).1 (hnot _ (by decide))
  next heq => exact absurd (List.cons.inj heq).1 (hnot _ (by decide))
  next heq => exact absurd (List.cons.inj heq).1 (hnot _ (by decide))
  next heq => exact absurd (List.cons.inj heq).1 (hnot _ (by decide))
  next => rfl

/-- A written pair is read back. -/
theorem readStatement?_pairLine {path : List String} {d : Document} (hne : path ≠ [])
    (hlen : path.length ≤ pathLimit) (hd : IsPlainValue d) (rest : List Char) :
    readStatement? (pairLine (path, d) ++ rest) = some (some (.pair path d), rest) := by
  have hpath : readPath? (pathChars path ++ (' ' :: '=' :: ' ' :: (valueChars d ++ '\n' :: rest))) =
      some (path, '=' :: ' ' :: (valueChars d ++ '\n' :: rest)) := by
    rw [readPath?_pathChars hne, if_pos hlen]
    · rfl
    · rintro c ⟨⟩
      decide
    · exact fun h => absurd (Option.some.inj h) (by decide)
  obtain ⟨c, cs, hchars, hc⟩ := pathChars_eq_cons hne
  obtain ⟨x, xs, hvalue, hx⟩ := valueChars_eq_cons hd
  have hskip : skipSpaces (' ' :: (valueChars d ++ '\n' :: rest)) =
      valueChars d ++ '\n' :: rest := by
    rw [skipSpaces, List.dropWhile_cons_of_pos (by decide), hvalue, List.cons_append,
      List.dropWhile_cons_of_neg (by simp [hx])]
  have hline : pairLine (path, d) ++ rest =
      pathChars path ++ (' ' :: '=' :: ' ' :: (valueChars d ++ '\n' :: rest)) := by
    simp [pairLine]
  rw [hline]
  rw [hchars, List.cons_append] at hpath ⊢
  rw [readStatement?_key hc, hpath]
  simp only [Option.bind_eq_bind, Option.bind_some, after?, if_true, hskip,
    readValue?_valueChars hd, afterLine?_break]
  rfl

/-- The path of a header is read up to the bracket behind it, if it has no more keys than a path may
have. -/
theorem readPath?_bracket {path : List String} (hne : path ≠ []) (rest : List Char) :
    readPath? (pathChars path ++ ']' :: rest) =
      if path.length ≤ pathLimit then some (path, ']' :: rest) else none := by
  rw [readPath?_pathChars hne]
  · rfl
  · rintro c ⟨⟩
    decide
  · exact fun h => absurd (Option.some.inj h) (by decide)

theorem readHeader?_table {path : List String} (hne : path ≠ []) (rest : List Char) :
    readHeader? (pathChars path ++ ']' :: '\n' :: rest) =
      if path.length ≤ pathLimit then some (.table path, rest) else none := by
  have hbracket : ∀ y, pathChars path ++ ']' :: '\n' :: rest ≠ '[' :: y := by
    intro y he
    obtain ⟨c, cs, hchars, hc⟩ := pathChars_eq_cons hne
    rw [hchars, List.cons_append] at he
    rw [(List.cons.inj he).1] at hc
    cases hc
  rw [readHeader?, readPath?_bracket hne]
  · split
    · rfl
    · rfl
  · exact fun y he => hbracket y he

theorem readHeader?_element {path : List String} (hne : path ≠ []) (rest : List Char) :
    readHeader? ('[' :: (pathChars path ++ ']' :: ']' :: '\n' :: rest)) =
      if path.length ≤ pathLimit then some (.element path, rest) else none := by
  rw [readHeader?, readPath?_bracket hne]
  split
  · rfl
  · rfl

/-- A written header is read back if its path has no more keys than a path may have, and is not
read otherwise. -/
theorem readStatement?_headerChars {h : Header} (hne : h.path ≠ []) (rest : List Char) :
    readStatement? (headerChars h ++ rest) =
      if h.path.length ≤ pathLimit then some (some (.header h), rest) else none := by
  have hopen : ∀ cs, readStatement? ('[' :: cs) =
      (readHeader? cs).map fun r => (some (.header r.1), r.2) := fun _ => rfl
  cases h with
  | document => exact absurd rfl hne
  | table path =>
    change path ≠ [] at hne
    change _ =
      if path.length ≤ pathLimit then some (some (Statement.header (.table path)), rest) else none
    have hline : headerChars (.table path) ++ rest =
        '[' :: (pathChars path ++ ']' :: '\n' :: rest) := by
      simp [headerChars]
    rw [hline, hopen, readHeader?_table hne]
    split_ifs
    · rfl
    · rfl
  | element path =>
    change path ≠ [] at hne
    change _ =
      if path.length ≤ pathLimit then some (some (Statement.header (.element path)), rest) else none
    have hline : headerChars (.element path) ++ rest =
        '[' :: '[' :: (pathChars path ++ ']' :: ']' :: '\n' :: rest) := by
      simp [headerChars]
    rw [hline, hopen, readHeader?_element hne]
    split_ifs
    · rfl
    · rfl

/-! ## Whole texts -/

/-- A text has statements, or cannot be read, whatever bound above its length is set on their
number. -/
def Reads (cs : List Char) (out : Option (List Statement)) : Prop :=
  ∀ fuel, cs.length < fuel → readStatements? fuel cs = out

variable {cs : List Char} {out : Option (List Statement)}

theorem reads_nil : Reads [] (some []) := by
  intro fuel hfuel
  cases fuel with
  | zero => cases hfuel
  | succ fuel => rfl

/-- A line whose statement is read stands before the rest. -/
theorem Reads.line {line : List Char} {s : Option Statement} (hline : line ≠ [])
    (hne : skipSpaces (line ++ cs) ≠ []) (hs : readStatement? (line ++ cs) = some (s, cs))
    (h : Reads cs out) : Reads (line ++ cs) (out.map (s.toList ++ ·)) := by
  intro fuel hfuel
  have hpos : 0 < line.length := List.length_pos_iff.2 hline
  rw [List.length_append] at hfuel
  cases fuel with
  | zero => cases hfuel
  | succ fuel =>
    rw [readStatements?, if_neg (by simpa using hne), hs]
    simp only [Option.bind_eq_bind, Option.bind_some, h fuel (by omega)]
    cases out <;> rfl

/-- A statement that cannot be read spoils the text. -/
theorem reads_none (hne : skipSpaces cs ≠ []) (hs : readStatement? cs = none) : Reads cs none := by
  intro fuel hfuel
  cases fuel with
  | zero => cases hfuel
  | succ fuel =>
    rw [readStatements?, if_neg (by simpa using hne), hs]
    rfl

/-- An empty line has no statement. -/
theorem Reads.blank (h : Reads cs out) : Reads ('\n' :: cs) out := by
  have hline : Reads (['\n'] ++ cs) (out.map (Option.toList none ++ ·)) :=
    h.line (by simp) (by simp [skipSpaces, isSpace]) rfl
  cases out <;> exact hline

/-- The statements of pairs. -/
def pairStatements (pairs : List (List String × Document)) : List Statement :=
  pairs.map fun p => .pair p.1 p.2

/-- The statements of a section: its header, if it has one, and its pairs. -/
def Section.statements (s : Section) : List Statement :=
  match s.header with
  | .document => pairStatements s.pairs
  | .table path => .header (.table path) :: pairStatements s.pairs
  | .element path => .header (.element path) :: pairStatements s.pairs

/-- Pairs that can be read back: each has a path that is not too long, and a plain value. -/
def PlainPairs (pairs : List (List String × Document)) : Prop :=
  ∀ p ∈ pairs, p.1 ≠ [] ∧ p.1.length ≤ pathLimit ∧ IsPlainValue p.2

/-- A key that begins a line is not skipped. -/
theorem skipSpaces_pairLine {path : List String} (hne : path ≠ []) (d : Document)
    (rest : List Char) : skipSpaces (pairLine (path, d) ++ rest) ≠ [] := by
  obtain ⟨c, cs, hchars, hc⟩ := pathChars_eq_cons hne
  simp only [pairLine, hchars, List.cons_append]
  rw [skipSpaces_cons hc]
  exact List.cons_ne_nil _ _

/-- Written pairs are read back. -/
theorem Reads.pairs : ∀ {pairs : List (List String × Document)}, PlainPairs pairs →
    Reads cs out → Reads (pairs.flatMap pairLine ++ cs) (out.map (pairStatements pairs ++ ·))
  | [], _, h => by cases out <;> exact h
  | (path, d) :: pairs, hpairs, h => by
    obtain ⟨hne, hlen, hd⟩ := hpairs (path, d) (.head _)
    have ih := Reads.pairs (fun p hp => hpairs p (.tail _ hp)) h
    have hline := ih.line (by simp [pairLine]) (skipSpaces_pairLine hne d _)
      (readStatement?_pairLine hne hlen hd _)
    rw [List.flatMap_cons, List.append_assoc]
    cases out <;> exact hline

/-- A header is written with a bracket first. -/
theorem headerChars_eq_cons {h : Header} (hne : h.path ≠ []) :
    ∃ cs, headerChars h = '[' :: cs := by
  cases h with
  | document => exact absurd rfl hne
  | table path => exact ⟨_, rfl⟩
  | element path => exact ⟨_, rfl⟩

/-- A written section with a header is read back if the path in its header is not too long, and
spoils the text otherwise. -/
theorem Reads.section {s : Section} (hne : s.header.path ≠ []) (hs : PlainPairs s.pairs)
    (h : Reads cs out) :
    Reads (sectionChars s ++ cs)
      (if s.header.path.length ≤ pathLimit then out.map (s.statements ++ ·) else none) := by
  have hpairs := Reads.pairs hs h
  have hstatement := readStatement?_headerChars hne (s.pairs.flatMap pairLine ++ cs)
  have hstatements : s.statements = .header s.header :: pairStatements s.pairs := by
    unfold Section.statements
    cases hh : s.header with
    | document => exact absurd (by rw [hh]; rfl) hne
    | table path => rfl
    | element path => rfl
  obtain ⟨x, hx⟩ := headerChars_eq_cons hne
  have hskip : ∀ rest, skipSpaces (headerChars s.header ++ rest) ≠ [] := by
    intro rest
    simp [hx, skipSpaces, isSpace]
  rw [sectionChars, List.append_assoc]
  split
  next hlen =>
    rw [if_pos hlen] at hstatement
    have hline := hpairs.line (by simp [hx]) (hskip _) hstatement
    rw [hstatements]
    cases out <;> exact hline
  next hlen =>
    rw [if_neg hlen] at hstatement
    exact reads_none (hskip _) hstatement

/-- Sections that can be read back if their headers are not too long: each has a header, and pairs
that can be read back. -/
def PlainSections (ss : List Section) : Prop :=
  ∀ s ∈ ss, s.header.path ≠ [] ∧ PlainPairs s.pairs

/-- No header has too many keys in its path. -/
def HeadersFit (ss : List Section) : Prop :=
  ∀ s ∈ ss, s.header.path.length ≤ pathLimit

instance (ss : List Section) : Decidable (HeadersFit ss) :=
  inferInstanceAs (Decidable (∀ s ∈ ss, s.header.path.length ≤ pathLimit))

@[simp] theorem headersFit_nil : HeadersFit [] :=
  List.forall_mem_nil _

@[simp] theorem headersFit_cons {s : Section} {ss : List Section} :
    HeadersFit (s :: ss) ↔ s.header.path.length ≤ pathLimit ∧ HeadersFit ss :=
  List.forall_mem_cons

theorem sectionsChars_cons (s s' : Section) (ss : List Section) :
    sectionsChars (s :: s' :: ss) = sectionChars s ++ '\n' :: sectionsChars (s' :: ss) := by
  simp [sectionsChars, List.intercalate]

/-- Written sections are read back if their headers are not too long, and are not read
otherwise. -/
theorem reads_sectionsChars : ∀ {ss : List Section}, PlainSections ss →
    Reads (sectionsChars ss)
      (if HeadersFit ss then some (ss.flatMap Section.statements) else none)
  | [], _ => by
    rw [if_pos headersFit_nil]
    exact reads_nil
  | [s], hss => by
    obtain ⟨hne, hs⟩ := hss s (.head _)
    have hone := Reads.section hne hs reads_nil
    have hchars : sectionsChars [s] = sectionChars s ++ [] := by
      simp [sectionsChars, List.intercalate]
    rw [hchars]
    by_cases hlen : s.header.path.length ≤ pathLimit
    · rw [if_pos (headersFit_cons.2 ⟨hlen, headersFit_nil⟩)]
      rw [if_pos hlen] at hone
      simpa using hone
    · rw [if_neg fun h => hlen (h s (.head _))]
      rwa [if_neg hlen] at hone
  | s :: s' :: ss, hss => by
    obtain ⟨hne, hs⟩ := hss s (.head _)
    have ih := reads_sectionsChars fun x hx => hss x (.tail _ hx)
    have hone := Reads.section hne hs ih.blank
    rw [sectionsChars_cons]
    by_cases hlen : s.header.path.length ≤ pathLimit
    · rw [if_pos hlen] at hone
      by_cases hfit : HeadersFit (s' :: ss)
      · rw [if_pos (headersFit_cons.2 ⟨hlen, hfit⟩)]
        rw [if_pos hfit] at hone
        simpa using hone
      · rw [if_neg fun h => hfit (headersFit_cons.1 h).2]
        rwa [if_neg hfit] at hone
    · rw [if_neg fun h => hlen (headersFit_cons.1 h).1]
      rwa [if_neg hlen] at hone

/-- Pairs go to the section that was begun last. -/
theorem sectionsOf_pairs (h : Header) (qs : List (List String × Document)) (rest : List Statement) :
    ∀ ps, sectionsOf h ps (pairStatements qs ++ rest) = sectionsOf h (qs.reverse ++ ps) rest := by
  induction qs with
  | nil => exact fun _ => rfl
  | cons q qs ih =>
    intro ps
    have hq := ih (q :: ps)
    rw [List.reverse_cons, List.append_assoc, List.singleton_append]
    exact hq

/-- Statements fall into the sections that they come from. -/
theorem sectionsOf_statements : ∀ {ss : List Section}, PlainSections ss →
    ∀ h ps, sectionsOf h ps (ss.flatMap Section.statements) = ⟨h, ps.reverse⟩ :: ss
  | [], _, _, _ => rfl
  | ⟨header, pairs⟩ :: ss, hss, h, ps => by
    have ih := sectionsOf_statements (fun x hx => hss x (.tail _ hx)) header pairs.reverse
    have hpairs := sectionsOf_pairs header pairs (ss.flatMap Section.statements) []
    rw [List.append_nil, ih, List.reverse_reverse] at hpairs
    cases header with
    | document => exact absurd rfl (hss _ (.head _)).1
    | table path => exact congrArg (⟨h, ps.reverse⟩ :: ·) hpairs
    | element path => exact congrArg (⟨h, ps.reverse⟩ :: ·) hpairs

/-- The section of a whole document, if it has pairs, with the sections that follow it. -/
def withDocumentSection (pairs : List (List String × Document)) (ss : List Section) :
    List Section :=
  (if pairs.isEmpty then [] else [⟨.document, pairs⟩]) ++ ss

/-- The statements of a written document are read back if no header is too long. -/
theorem reads_withDocumentSection {pairs : List (List String × Document)} {ss : List Section}
    (hpairs : PlainPairs pairs) (hss : PlainSections ss) :
    Reads (sectionsChars (withDocumentSection pairs ss))
      (if HeadersFit ss then some (pairStatements pairs ++ ss.flatMap Section.statements)
        else none) := by
  have hrest := reads_sectionsChars hss
  cases pairs with
  | nil => exact hrest
  | cons p ps =>
    cases ss with
    | nil =>
      have hone := Reads.pairs hpairs reads_nil
      rw [if_pos headersFit_nil]
      simpa [withDocumentSection, sectionsChars, sectionChars, headerChars, List.intercalate]
        using hone
    | cons s ss =>
      have hone := Reads.pairs hpairs hrest.blank
      have hchars : sectionsChars (withDocumentSection (p :: ps) (s :: ss)) =
          (p :: ps).flatMap pairLine ++ '\n' :: sectionsChars (s :: ss) := by
        simp [withDocumentSection, sectionsChars_cons, sectionChars, headerChars]
      rw [hchars]
      by_cases hfit : HeadersFit (s :: ss)
      · rw [if_pos hfit]
        rwa [if_pos hfit] at hone
      · rw [if_neg hfit]
        rwa [if_neg hfit] at hone

/-- **Written sections are read back** if no header has too many keys in its path; if one has, the
text cannot be read. -/
theorem readSections?_sectionsChars {pairs : List (List String × Document)} {ss : List Section}
    (hpairs : PlainPairs pairs) (hss : PlainSections ss) :
    readSections? (sectionsChars (withDocumentSection pairs ss)) =
      if HeadersFit ss then some (⟨.document, pairs⟩ :: ss) else none := by
  have hread := reads_withDocumentSection hpairs hss _ (Nat.lt_succ_self _)
  rw [readSections?, hread]
  split
  next =>
    have hsections := sectionsOf_pairs .document pairs (ss.flatMap Section.statements) []
    rw [sectionsOf_statements hss, List.append_nil, List.reverse_reverse] at hsections
    exact congrArg some hsections
  next => rfl

/-- No written text begins with a byte order mark. -/
theorem withoutMark_sectionsChars {pairs : List (List String × Document)} {ss : List Section}
    (hpairs : PlainPairs pairs) (hss : PlainSections ss) :
    withoutMark (sectionsChars (withDocumentSection pairs ss)) =
      sectionsChars (withDocumentSection pairs ss) := by
  have hhead : ∀ c ∈ (sectionsChars (withDocumentSection pairs ss)).head?, c ≠ '\uFEFF' := by
    intro c hc
    match pairs, ss with
    | [], [] => cases hc
    | [], s :: ss =>
      obtain ⟨x, hx⟩ := headerChars_eq_cons (hss s (.head _)).1
      cases ss with
      | nil =>
        obtain rfl : '[' = c := by
          simpa [withDocumentSection, sectionsChars, sectionChars, hx, List.intercalate] using hc
        decide
      | cons s' ss =>
        obtain rfl : '[' = c := by
          simpa [withDocumentSection, sectionsChars_cons, sectionChars, hx] using hc
        decide
    | (path, d) :: ps, ss =>
      obtain ⟨x, xs, hx, hkey⟩ := pathChars_eq_cons (hpairs (path, d) (.head _)).1
      have hne : x ≠ '\uFEFF' := by
        rintro rfl
        cases hkey
      cases ss with
      | nil =>
        obtain rfl : x = c := by
          simpa [withDocumentSection, sectionsChars, sectionChars, headerChars, pairLine, hx,
            List.intercalate] using hc
        exact hne
      | cons s ss =>
        obtain rfl : x = c := by
          simpa [withDocumentSection, sectionsChars_cons, sectionChars, headerChars, pairLine, hx]
            using hc
        exact hne
  unfold withoutMark
  split
  next heq => exact absurd rfl (hhead _ (by rw [heq]; rfl))
  next => rfl

end DocIdent.Toml
