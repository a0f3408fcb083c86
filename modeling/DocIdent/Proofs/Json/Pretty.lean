import DocIdent.Proofs.Json.Reader

/-!
# Documents on indented lines

White space between tokens spells nothing, so a document on indented lines spells the tokens that it
spells on one line (`Json.spells_prettyChars`), at whatever level its first line stands. It is read
back from there too, by every reader that goes as deep as it nests (`Json.readWithin?_pretty`).
-/

namespace DocIdent.Json

variable {cs : List Char} {ts : List Token} {limit level : Nat} {d : Document}

/-- A line break is white space. -/
theorem isSpace_of_mem_lineBreak (level : Nat) : ∀ c ∈ lineBreak level, isSpace c = true := by
  intro c hc
  rcases List.mem_cons.1 hc with rfl | hc
  · rfl
  · rw [List.eq_of_mem_replicate hc]
    rfl

/-- Parts on lines of their own spell what they spell, between the tokens of the two marks. -/
theorem spells_block {opening closing : Char} {t u : Token} {parts : List (List Char)}
    {spelled : List (List Token)} (h : List.Forall₂ Spells parts spelled)
    (ht : begin? opening = some ([t], .between)) (hu : begin? closing = some ([u], .between)) :
    Spells (block level opening closing parts) (t :: [.comma].intercalate spelled ++ [u]) := by
  have hclose : Spells (lineBreak level ++ [closing]) [u] :=
    (spells_nil.cons hu).spaced (isSpace_of_mem_lineBreak level)
  cases h with
  | nil => exact (spells_nil.cons hu).cons ht
  | cons hfirst hrest =>
    have hinner := spells_intercalate (isSpace_of_mem_lineBreak (level + 1)) (.cons hfirst hrest)
    have hall := ((hinner.spaced (isSpace_of_mem_lineBreak (level + 1))).append hclose
      (ends_mark rfl _)).cons ht
    rw [block, if_neg (by simp)]
    simpa using hall

mutual

/-- **A basic document spells its tokens** on indented lines. -/
theorem spells_prettyChars (level : Nat) :
    ∀ {d : Document}, d.IsBasic → Spells (prettyChars level d) (tokensOf d)
  | .text s, _ => by
    rw [prettyChars, tokensOf]
    exact spells_text s
  | .int i, h => by
    rw [prettyChars, tokensOf]
    exact spells_int h
  | .list items, h => by
    rw [prettyChars, tokensOf]
    exact spells_block (spells_prettyItems (level + 1) h) rfl rfl
  | .record fields, h => by
    rw [prettyChars, tokensOf]
    exact spells_block (spells_prettyFields (level + 1) h) rfl rfl

/-- Basic items spell their tokens, one by one. -/
theorem spells_prettyItems (level : Nat) : ∀ {items : List Document},
    Document.ItemsBasic items → List.Forall₂ Spells (prettyItems level items) (tokensOfItems items)
  | [], _ => .nil
  | _ :: _, ⟨hd, hds⟩ => .cons (spells_prettyChars level hd) (spells_prettyItems level hds)

/-- Basic fields spell their tokens, one by one. -/
theorem spells_prettyFields (level : Nat) : ∀ {fields : List (String × Document)},
    Document.FieldsBasic fields →
      List.Forall₂ Spells (prettyFields level fields) (tokensOfFields fields)
  | [], _ => .nil
  | (name, _) :: _, ⟨hd, hfs⟩ =>
    have hblank : ∀ c ∈ [' '], isSpace c = true := by simp [isSpace]
    have hvalue := (spells_prettyChars level hd).spaced hblank
    .cons ((spells_text name).append (hvalue.cons rfl) (ends_mark rfl _))
      (spells_prettyFields level hfs)

end

/-- **A basic document is read back** from indented lines, by a reader that goes as deep as it
nests. -/
theorem readWithin?_pretty (hd : d.IsBasic) (h : d.depth ≤ limit) :
    readWithin? limit (pretty d ++ "\n") = some d := by
  have hline : Spells ['\n'] [] := spells_nil.spaced (isSpace_of_mem_lineBreak 0)
  have hspells : Spells (prettyChars 0 d ++ ['\n']) (tokensOf d ++ []) :=
    (spells_prettyChars 0 hd).append hline (ends_mark rfl _)
  rw [List.append_nil] at hspells
  have hchars : (pretty d ++ "\n").toList = prettyChars 0 d ++ ['\n'] := by
    rw [String.toList_append, pretty, String.toList_ofList]
    rfl
  rw [readWithin?, hchars, hspells.tokens?]
  exact ofTokens?_tokensOf h

end DocIdent.Json
