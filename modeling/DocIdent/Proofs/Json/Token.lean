import DocIdent.Json.Token
import DocIdent.Json.Writer
import DocIdent.Proofs.Text
import Mathlib.Data.List.TakeWhile

/-!
# The tokens of a written text

A document written on one line spells its tokens (`Json.tokensOf`), and the tokens of the text are
these (`Json.tokens?_compactChars`). What is asked of the document is that it is basic: it is made
of texts, 32-bit words, lists and records (`Document.IsBasic`). The statements about parts of a text
say what the part spells whatever stands around it, as long as no number could go on behind it
(`Json.Spells`). A text is read back character by character (`Json.tokensFrom?_textChar`), and a
number is read back because a word is in the range of every notation (`Json.ofNumber?_decimal`).
-/

namespace DocIdent

namespace Document

mutual

/-- The document is made of texts, 32-bit words, lists and records. -/
def IsBasic : Document → Prop
  | .text _ => True
  | .int i => 0 ≤ i ∧ i < UInt32.size
  | .list items => ItemsBasic items
  | .record fields => FieldsBasic fields
  | .null | .bool _ | .real _ | .unreadable => False

/-- Every item is basic. -/
def ItemsBasic : List Document → Prop
  | [] => True
  | d :: ds => IsBasic d ∧ ItemsBasic ds

/-- The value of every field is basic. -/
def FieldsBasic : List (String × Document) → Prop
  | [] => True
  | (_, d) :: fs => IsBasic d ∧ FieldsBasic fs

end

theorem itemsBasic_iff (ds : List Document) : ItemsBasic ds ↔ ∀ d ∈ ds, IsBasic d := by
  induction ds with
  | nil => simp [ItemsBasic]
  | cons d ds ih => simp [ItemsBasic, ih]

theorem fieldsBasic_iff (fs : List (String × Document)) :
    FieldsBasic fs ↔ ∀ f ∈ fs, IsBasic f.2 := by
  induction fs with
  | nil => simp [FieldsBasic]
  | cons f fs ih => simp [FieldsBasic, ih]

theorem isBasic_word (n : UInt32) : IsBasic (word n) :=
  ⟨Int.natCast_nonneg _, Int.ofNat_lt.2 n.toNat_lt⟩

end Document

namespace Json

mutual

/-- The tokens that spell a document. -/
def tokensOf : Document → List Token
  | .list items => .openList :: [.comma].intercalate (tokensOfItems items) ++ [.closeList]
  | .record fields => .openRecord :: [.comma].intercalate (tokensOfFields fields) ++ [.closeRecord]
  | .text s => [.text (some s)]
  | d@(.null) | d@(.bool _) | d@(.int _) | d@(.real _) | d@(.unreadable) => [.scalar d]

/-- The tokens that spell each item. -/
def tokensOfItems : List Document → List (List Token)
  | [] => []
  | d :: ds => tokensOf d :: tokensOfItems ds

/-- The tokens that spell each field: its name, a colon and its value. -/
def tokensOfFields : List (String × Document) → List (List Token)
  | [] => []
  | (name, d) :: fs => (.text (some name) :: .colon :: tokensOf d) :: tokensOfFields fs

end

/-! ## Numbers -/

/-- Further digits make a number no smaller. -/
theorem le_ofDigitChars (cs : List Char) (value : Nat) : value ≤ Nat.ofDigitChars 10 cs value := by
  rw [Nat.ofDigitChars_eq_ofDigitChars_zero]
  exact Nat.le_add_right_of_le (Nat.le_mul_of_pos_left value (Nat.pow_pos (by omega)))

/-- The leading digits of a number that fits into 64 bits are all of its digits. -/
theorem leading64_of_lt {cs : List Char} {value : Nat}
    (h : Nat.ofDigitChars 10 cs value < 18446744073709551616) :
    Decimal.leading64 value cs = (Nat.ofDigitChars 10 cs value, 0) := by
  induction cs generalizing value with
  | nil => rfl
  | cons c cs ih =>
    rw [Nat.ofDigitChars_cons] at h ⊢
    have hnext := Nat.lt_of_le_of_lt (le_ofDigitChars cs _) h
    rw [Decimal.leading64]
    exact (if_pos hnext).trans (ih h)

/-- A number of at most 53 binary digits is not rounded. -/
theorem round53_of_lt {n : Nat} (hn : n < 9007199254740992) : Decimal.round53 n = n := by
  have hlog : n.log2 - 52 = 0 := by
    rcases Nat.eq_zero_or_pos n with rfl | hpos
    · rfl
    · have := (Nat.log2_lt (k := 53) (by omega)).2 hn
      omega
  have hone : n % 1 = 0 := Nat.mod_one n
  simp [Decimal.round53, hlog, hone]

/-- A 32-bit word is within the range of double precision. -/
theorem overflows_word {n : Nat} (hn : n < 4294967296) :
    Decimal.overflows ⟨false, n, 0⟩ = false := by
  have hvalue := Text.ofDigitChars_decimal n
  have hleading : Decimal.leading64 0 (Text.decimal n) = (n, 0) := by
    rw [leading64_of_lt (by omega), hvalue]
  have hbound : 4294967296 ≤ Decimal.beyondDouble := by decide +kernel
  have hround : Decimal.round53 n * Decimal.round53 1 < Decimal.beyondDouble := by
    rw [round53_of_lt (by omega), round53_of_lt (by decide)]
    omega
  simp only [Decimal.overflows, hleading]
  simp
  omega

/-- The digits of a 32-bit word are read as the word. -/
theorem ofNumber?_decimal {n : Nat} (hn : n < 4294967296) :
    ofNumber? (Text.decimal n) = some (.int n) := by
  have hdigits : ∀ c ∈ Text.decimal n, c.isDigit = true :=
    fun _ hc => Text.isDigit_of_mem_decimal hc
  have htake : (Text.decimal n).takeWhile Char.isDigit = Text.decimal n :=
    List.takeWhile_eq_self_iff.2 hdigits
  have hdrop : (Text.decimal n).dropWhile Char.isDigit = [] :=
    List.dropWhile_eq_nil_iff.2 hdigits
  have hzero : ¬ ((Text.decimal n).head? = some '0' ∧ Text.decimal n ≠ ['0']) := by
    rintro ⟨hhead, hne⟩
    rcases Nat.eq_zero_or_pos n with rfl | hpos
    · exact hne rfl
    · exact Text.decimal_head? n hpos hhead
  have hunsigned : unsigned? false (Text.decimal n) = some (.int n) := by
    rw [unsigned?, htake, hdrop, Text.readDecimal_decimal]
    simp only [Option.bind_eq_bind, Option.bind_some, if_neg hzero]
    simp [inRange, overflows_word hn]
  rw [ofNumber?]
  · exact hunsigned
  · intro cs he
    have hminus := hdigits '-' (he ▸ .head _)
    exact absurd hminus (by decide)

/-! ## What characters spell -/

/-- No number goes on with what follows. -/
def Ends (rest : List Char) : Prop :=
  ∀ c ∈ rest.head?, isNumberChar c = false

/-- The characters spell the tokens, whatever was read before them and whatever follows, as long as
no number goes on with it. -/
def Spells (cs : List Char) (ts : List Token) : Prop :=
  ∀ (before : List Token) (rest : List Char), Ends rest →
    tokensFrom? .between before (cs ++ rest) = tokensFrom? .between (ts.reverse ++ before) rest

theorem spells_nil : Spells [] [] := fun _ _ _ => rfl

variable {before ts us : List Token} {cs ds rest : List Char} {c : Char}

/-- One character is taken after the other. -/
theorem tokensFrom?_cons {mode mode' : Mode} (h : mode.step? c = some (ts, mode')) :
    tokensFrom? mode before (c :: cs) = tokensFrom? mode' (ts.reverse ++ before) cs := by
  rw [tokensFrom?, h]

/-- What follows what is spelled is spelled, if no number goes on with it. -/
theorem Spells.append (h : Spells cs ts) (h' : Spells ds us) (hds : Ends ds) :
    Spells (cs ++ ds) (ts ++ us) := by
  intro before rest hrest
  have hends : Ends (ds ++ rest) := by
    cases ds with
    | nil => exact hrest
    | cons d ds => exact hds
  rw [List.append_assoc, h before _ hends, h' _ rest hrest, List.reverse_append, List.append_assoc]

/-- A character that is a token spells it, before whatever is spelled. -/
theorem Spells.cons {t : Token} (hc : begin? c = some ([t], .between)) (h : Spells cs ts) :
    Spells (c :: cs) (t :: ts) := by
  intro before rest hrest
  have hstep : Mode.between.step? c = some ([t], .between) := hc
  rw [List.cons_append, tokensFrom?_cons hstep, h _ rest hrest]
  show tokensFrom? .between (ts.reverse ++ ([t] ++ before)) rest = _
  rw [← List.append_assoc, ← List.reverse_cons]

/-- White space before what is spelled spells nothing. -/
theorem Spells.spaced {blanks : List Char} (hblanks : ∀ c ∈ blanks, isSpace c = true)
    (h : Spells cs ts) : Spells (blanks ++ cs) ts := by
  induction blanks with
  | nil => exact h
  | cons c blanks ih =>
    intro before rest hrest
    have hstep : Mode.between.step? c = some ([], .between) :=
      if_pos (hblanks c (.head _))
    rw [List.cons_append, List.cons_append, tokensFrom?_cons hstep,
      ih (fun d hd => hblanks d (.tail _ hd)) _ rest hrest]
    rfl

/-- With a character that is a token no number goes on. -/
theorem ends_mark (h : isNumberChar c = false) (cs : List Char) : Ends (c :: cs) := by
  intro d hd
  obtain rfl := Option.some.inj hd
  exact h

/-! ### Numbers -/

/-- Characters of a number are kept while they come. -/
theorem tokensFrom?_number {read : List Char} (hds : ∀ d ∈ ds, isNumberChar d = true) :
    tokensFrom? (.number read) before (ds ++ rest) =
      tokensFrom? (.number (ds.reverse ++ read)) before rest := by
  induction ds generalizing read with
  | nil => rfl
  | cons d ds ih =>
    have hstep : (Mode.number read).step? d = some ([], .number (d :: read)) :=
      if_pos (hds d (.head _))
    rw [List.cons_append, tokensFrom?_cons hstep, List.reverse_nil, List.nil_append,
      ih fun e he => hds e (.tail _ he), List.reverse_cons, List.append_cons]

/-- A number is complete when no character of one follows. -/
theorem tokensFrom?_number_of_ends {read : List Char} {d : Document} (hrest : Ends rest)
    (h : ofNumber? read.reverse = some d) :
    tokensFrom? (.number read) before rest = tokensFrom? .between (.scalar d :: before) rest := by
  cases rest with
  | nil => simp [tokensFrom?, Mode.finish?, h]
  | cons c rest =>
    -- the character behind the number completes it and begins the next token in one step
    have hc : isNumberChar c = false := hrest c rfl
    have hstep : (Mode.number read).step? c =
        (begin? c).map fun begun => ([.scalar d] ++ begun.1, begun.2) := by
      rw [Mode.step?, if_neg (by simp [hc]), Mode.finish?, h]
      cases begin? c <;> rfl
    cases hbegin : begin? c with
    | none => rw [tokensFrom?, tokensFrom?, hstep, Mode.step?, hbegin, Option.map_none]
    | some begun =>
      have hbetween : Mode.between.step? c = some begun := hbegin
      rw [hbegin, Option.map_some] at hstep
      rw [tokensFrom?_cons hstep, tokensFrom?_cons hbetween, List.reverse_append, List.append_assoc]
      rfl

/-- A digit begins a number. -/
theorem begin?_digit (h : c.isDigit = true) : begin? c = some ([], .number [c]) := by
  have hne : ∀ d : Char, d.isDigit = false → c ≠ d := fun _ => Text.ne_of_isDigit h
  have hspace : isSpace c = false := by
    simp [isSpace, hne ' ' (by decide), hne '\t' (by decide), hne '\n' (by decide),
      hne '\r' (by decide)]
  simp [begin?, hspace, h, hne '[' (by decide), hne ']' (by decide), hne '\x7b' (by decide),
    hne '\x7d' (by decide), hne ',' (by decide), hne ':' (by decide), hne '"' (by decide)]

/-- The digits of a 32-bit word spell its number. -/
theorem spells_decimal {n : Nat} (hn : n < 4294967296) :
    Spells (Text.decimal n) [.scalar (.int n)] := by
  intro before rest hrest
  have hdigits : ∀ c ∈ Text.decimal n, c.isDigit = true :=
    fun _ hc => Text.isDigit_of_mem_decimal hc
  have hnumber := ofNumber?_decimal hn
  cases hds : Text.decimal n with
  | nil => exact absurd hds (Text.decimal_ne_nil n)
  | cons d ds =>
    rw [hds] at hdigits hnumber
    have hrun : ∀ e ∈ ds, isNumberChar e = true := by
      intro e he
      simp [isNumberChar, hdigits e (.tail _ he)]
    have hstep : Mode.between.step? d = some ([], .number [d]) :=
      begin?_digit (hdigits d (.head _))
    rw [List.cons_append, tokensFrom?_cons hstep, tokensFrom?_number hrun]
    refine tokensFrom?_number_of_ends hrest ?_
    rw [List.reverse_append, List.reverse_reverse]
    exact hnumber

/-- A basic whole number is spelled as it is written. -/
theorem spells_int {i : Int} (h : Document.IsBasic (.int i)) :
    Spells (scalarChars (.int i)) [.scalar (.int i)] := by
  obtain ⟨h0, h1⟩ := h
  obtain ⟨n, rfl⟩ := Int.eq_ofNat_of_zero_le h0
  rw [UInt32.size] at h1
  exact spells_decimal (by omega)

/-! ### Texts -/

/-- A hexadecimal digit in an escape: the fourth one completes the code. -/
theorem tokensFrom?_code {read : Option (List Char)} {high : Option Nat} {digits value d : Nat}
    (hd : d < 16) :
    tokensFrom? (.text read (.code high digits value)) before (Text.hexDigit d :: cs) =
      tokensFrom? (if digits < 3 then .text read (.code high (digits + 1) (16 * value + d))
        else completeCode read high (16 * value + d)) before cs := by
  have hstep : (Mode.text read (.code high digits value)).step? (Text.hexDigit d) =
      some ([], if digits < 3 then .text read (.code high (digits + 1) (16 * value + d))
        else completeCode read high (16 * value + d)) := by
    rw [Mode.step?, textStep?, Text.hexValue_hexDigit d hd, Option.bind_eq_bind, Option.bind_some]
    split <;> rfl
  exact tokensFrom?_cons hstep

/-- Four hexadecimal digits stand for the character that they number, if it is no half of a pair. -/
theorem tokensFrom?_hexFixed {read : Option (List Char)} {n : Nat} (hn : n < 0xD800) :
    tokensFrom? (.text read (.code none 0 0)) before (Text.hexFixed 4 n ++ cs) =
      tokensFrom? (textAfter read (Char.ofNat n)) before cs := by
  have hv : 16 * (16 * (16 * (16 * 0 + n / 16 / 16 / 16 % 16) + n / 16 / 16 % 16) + n / 16 % 16) +
      n % 16 = n := by
    omega
  have hd : ∀ m : Nat, m % 16 < 16 := fun m => Nat.mod_lt m (by decide)
  have hcomplete : completeCode read none n = textAfter read (Char.ofNat n) := by
    have hhigh : isHighHalf n = false := by
      simp only [isHighHalf, Bool.and_eq_false_iff, decide_eq_false_iff_not]
      omega
    have hlow : isLowHalf n = false := by
      simp only [isLowHalf, Bool.and_eq_false_iff, decide_eq_false_iff_not]
      omega
    simp [completeCode, hhigh, hlow]
  simp only [Text.hexFixed, List.nil_append, List.cons_append]
  rw [tokensFrom?_code (hd _), if_pos (by decide), tokensFrom?_code (hd _), if_pos (by decide),
    tokensFrom?_code (hd _), if_pos (by decide), tokensFrom?_code (hd _), if_neg (by decide), hv,
    hcomplete]

/-- **A character is read back** from its written form in a text. -/
theorem tokensFrom?_textChar (read : List Char) (c : Char) :
    tokensFrom? (.text (some read) .none) before (textChar c ++ cs) =
      tokensFrom? (.text (some (c :: read)) .none) before cs := by
  unfold textChar
  split_ifs with hquote hbackslash hb hf hn hr ht hcontrol
  · subst hquote
    rfl
  · subst hbackslash
    rfl
  · subst hb
    rfl
  · subst hf
    rfl
  · subst hn
    rfl
  · subst hr
    rfl
  · subst ht
    rfl
  · show tokensFrom? (.text (some read) (.code none 0 0)) before
      (Text.hexFixed 4 c.toNat ++ cs) = _
    rw [tokensFrom?_hexFixed (by omega), Char.ofNat_toNat]
    rfl
  · have hstep : (Mode.text (some read) .none).step? c = some ([], textAfter (some read) c) := by
      rw [Mode.step?, textStep?, plainStep?, if_neg hquote, if_neg hbackslash, if_neg hcontrol]
    exact tokensFrom?_cons hstep

/-- A text is read back up to its closing quote. -/
theorem tokensFrom?_textChars (read : List Char) (text : List Char) :
    tokensFrom? (.text (some read) .none) before (text.flatMap textChar ++ '"' :: cs) =
      tokensFrom? .between (.text (some (String.ofList (read.reverse ++ text))) :: before) cs := by
  induction text generalizing read with
  | nil =>
    rw [List.append_nil]
    rfl
  | cons c text ih =>
    rw [List.flatMap_cons, List.append_assoc, tokensFrom?_textChar, ih, List.reverse_cons,
      List.append_assoc]
    rfl

/-- A written text spells it. -/
theorem spells_text (s : String) : Spells (textChars s) [.text (some s)] := by
  intro before rest _
  have hchars : textChars s ++ rest = '"' :: (s.toList.flatMap textChar ++ '"' :: rest) := by
    simp [textChars]
  rw [hchars]
  show tokensFrom? (.text (some []) .none) before (s.toList.flatMap textChar ++ '"' :: rest) = _
  rw [tokensFrom?_textChars, List.reverse_nil, List.nil_append, String.ofList_toList]
  rfl

/-! ### Documents -/

/-- Pieces with commas between them, and white space behind each comma, spell what they spell with
commas between it. -/
theorem spells_intercalate {blanks : List Char} (hblanks : ∀ c ∈ blanks, isSpace c = true)
    {pieces : List (List Char)} {spelled : List (List Token)}
    (h : List.Forall₂ Spells pieces spelled) :
    Spells ((',' :: blanks).intercalate pieces) ([.comma].intercalate spelled) := by
  induction h with
  | nil => exact spells_nil
  | cons hfirst hrest ih =>
    cases hrest with
    | nil =>
      rw [List.intercalate_singleton, List.intercalate_singleton]
      exact hfirst
    | cons =>
      rw [List.intercalate_cons_cons, List.intercalate_cons_cons, List.append_assoc,
        List.append_assoc]
      exact hfirst.append ((ih.spaced hblanks).cons rfl) (ends_mark rfl _)

/-- What stands between an opening and a closing mark is spelled between their tokens. -/
theorem Spells.enclosed {opening closing : Char} {t u : Token} (h : Spells cs ts)
    (ht : begin? opening = some ([t], .between)) (hu : begin? closing = some ([u], .between))
    (hends : isNumberChar closing = false) :
    Spells (opening :: cs ++ [closing]) (t :: ts ++ [u]) :=
  (h.cons ht).append (spells_nil.cons hu) (ends_mark hends [])

mutual

/-- **A basic document spells its tokens** on one line. -/
theorem spells_compactChars : ∀ {d : Document}, d.IsBasic → Spells (compactChars d) (tokensOf d)
  | .text s, _ => by
    rw [compactChars, tokensOf]
    exact spells_text s
  | .int i, h => by
    rw [compactChars, tokensOf]
    exact spells_int h
  | .list items, h => by
    rw [compactChars, tokensOf]
    exact (spells_intercalate (List.forall_mem_nil _) (spells_compactItems h)).enclosed rfl rfl rfl
  | .record fields, h => by
    rw [compactChars, tokensOf]
    exact (spells_intercalate (List.forall_mem_nil _) (spells_compactFields h)).enclosed rfl rfl rfl

/-- Basic items spell their tokens, one by one. -/
theorem spells_compactItems : ∀ {items : List Document}, Document.ItemsBasic items →
    List.Forall₂ Spells (compactItems items) (tokensOfItems items)
  | [], _ => .nil
  | _ :: _, ⟨hd, hds⟩ => .cons (spells_compactChars hd) (spells_compactItems hds)

/-- Basic fields spell their tokens, one by one. -/
theorem spells_compactFields : ∀ {fields : List (String × Document)},
    Document.FieldsBasic fields →
      List.Forall₂ Spells (compactFields fields) (tokensOfFields fields)
  | [], _ => .nil
  | (name, _) :: _, ⟨hd, hfs⟩ =>
    .cons ((spells_text name).append ((spells_compactChars hd).cons rfl) (ends_mark rfl _))
      (spells_compactFields hfs)

end

/-- The tokens of a text are those that it spells. -/
theorem Spells.tokens? (h : Spells cs ts) : tokens? cs = some ts := by
  have hspells := h [] [] nofun
  rw [List.append_nil] at hspells
  rw [Json.tokens?, hspells, tokensFrom?, Mode.finish?, Option.map_some, List.append_nil,
    List.append_nil, List.reverse_reverse]

/-- **The tokens of a basic document** are those of its text. -/
theorem tokens?_compactChars {d : Document} (hd : d.IsBasic) :
    tokens? (compactChars d) = some (tokensOf d) :=
  (spells_compactChars hd).tokens?

end Json

end DocIdent
