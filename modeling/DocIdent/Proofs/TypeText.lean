import DocIdent.Proofs.Text
import DocIdent.TypeRef
import Mathlib.Logic.Function.Iterate

/-!
# Types and their canonical texts

A type's canonical text says which type it is, up to one pair of spellings: a constructor without
arguments is written like the class of its name, and `TypeRef.folded` puts the class in its place
everywhere. What is asked of the types is that their names are plain (`TypeRef.IsPlain`): a name
with a bracket, a separator or a question mark in it can imitate any other type.

The text of a type is not delimited, so the main statement `TypeRef.chars_append_inj` is about two
types in front of whatever may follow a type: the end, a separator or a closing bracket, which is
none of the characters that continue a type. Question marks come last in a text but outermost in
the type, so the statement carries those of the types around.
-/

namespace DocIdent

namespace TypeRef

/-! ## Plain types -/

/-- The characters that stand between and around the names in the text of an identifier. -/
def marks : List Char := ['/', '#', '[', ']', '(', ')', ',', '?', '^', '*', ' ']

/-- The name is not empty and has none of the marks. -/
def IsPlainName (name : String) : Prop :=
  name ≠ "" ∧ ∀ c ∈ name.toList, c ∉ marks

mutual

/-- Every name in the type is plain. -/
def IsPlain : TypeRef → Prop
  | .named name => IsPlainName name
  | .parameter bounds => AllPlain bounds
  | .applied name arguments => IsPlainName name ∧ AllPlain arguments
  | .recursive _ => True
  | .nullable wrapped => IsPlain wrapped
  | .star => True

/-- Every name in each of the types is plain. -/
def AllPlain : List TypeRef → Prop
  | [] => True
  | t :: ts => IsPlain t ∧ AllPlain ts

end

/-- `AllPlain` in the natural per-element form. -/
theorem allPlain_iff (ts : List TypeRef) : AllPlain ts ↔ ∀ t ∈ ts, t.IsPlain := by
  induction ts with
  | nil => simp [AllPlain]
  | cons t ts ih => simp [AllPlain, ih]

mutual

/-- The type with a class in the place of each constructor that has no arguments. -/
def folded : TypeRef → TypeRef
  | .named name => .named name
  | .parameter bounds => .parameter (foldedEach bounds)
  | .applied name [] => .named name
  | .applied name (t :: ts) => .applied name (folded t :: foldedEach ts)
  | .recursive rank => .recursive rank
  | .nullable wrapped => .nullable (folded wrapped)
  | .star => .star

/-- Each of the types with a class in the place of each constructor that has no arguments. -/
def foldedEach : List TypeRef → List TypeRef
  | [] => []
  | t :: ts => folded t :: foldedEach ts

end

/-- Folding each type of a list is folding one, at each place. -/
theorem foldedEach_eq_map (ts : List TypeRef) : foldedEach ts = ts.map folded := by
  induction ts with
  | nil => rfl
  | cons t ts ih => simp [foldedEach, ih]

mutual

/-- Folding does not change the text. -/
@[simp] theorem chars_folded : ∀ t : TypeRef, t.folded.chars = t.chars
  | .named _ | .recursive _ | .star => by simp only [folded]
  | .parameter bounds => by simp only [folded, chars, charsEach_foldedEach bounds]
  | .applied _ [] => by simp only [folded, chars]
  | .applied _ (t :: ts) => by simp only [folded, chars, chars_folded t, charsEach_foldedEach ts]
  | .nullable t => by simp only [folded, chars, chars_folded t]

/-- Folding does not change the texts. -/
@[simp] theorem charsEach_foldedEach : ∀ ts : List TypeRef, charsEach (foldedEach ts) = charsEach ts
  | [] => by simp only [foldedEach]
  | t :: ts => by simp only [foldedEach, charsEach, chars_folded t, charsEach_foldedEach ts]

end

/-! ## What may follow a type -/

/-- What may follow the text of a type that is not wrapped any further: nothing, a separator, or
what closes a list. -/
def Ends (r : List Char) : Prop :=
  ∀ c ∈ r.head?, c ∈ [',', ']', '#', '/']

/-- What may follow the text of a type: question marks, and then what ends it. -/
def Follows (z : List Char) : Prop :=
  ∀ c ∈ z.head?, c ∈ ['?', ',', ']', '#', '/']

theorem Ends.follows (m : Nat) {r : List Char} (h : Ends r) :
    Follows (List.replicate m '?' ++ r) := by
  cases m with
  | zero =>
    intro c hc
    have := h c (by simpa using hc)
    simp only [List.mem_cons] at this ⊢
    tauto
  | succ m =>
    intro c hc
    obtain rfl : '?' = c := by simpa [List.replicate_succ] using hc
    simp

/-! ## The name in front of a type

Up to its question marks, a type's text is a run of plain characters, which may be empty, and what
its kind puts after it.
-/

/-- The plain characters with which a text begins. -/
def lead : TypeRef → List Char
  | .named name | .applied name _ => name.toList
  | .parameter _ => ['T', 'y', 'p', 'e', 'P', 'a', 'r', 'a', 'm']
  | .recursive _ | .nullable _ | .star => []

/-- What stands after the lead of a type that is not nullable. -/
def body : TypeRef → List Char
  | .named _ | .applied _ [] | .nullable _ => []
  | .applied _ (t :: ts) => '[' :: [','].intercalate (charsEach (t :: ts)) ++ [']']
  | .parameter bounds =>
    ['(', 'b', 'o', 'u', 'n', 'd', 's', '=', '['] ++
      [',', ' '].intercalate (charsEach bounds) ++ [']', ')']
  | .recursive rank => List.replicate (rank.toNat + 1) '^'
  | .star => ['*']

/-- The character after the lead of a type that is not nullable, where the type has one. -/
def opening : TypeRef → Option Char
  | .named _ | .applied _ [] | .nullable _ => none
  | .applied _ (_ :: _) => some '['
  | .parameter _ => some '('
  | .recursive _ => some '^'
  | .star => some '*'

theorem boundsOpening_eq :
    boundsOpening = ['T', 'y', 'p', 'e', 'P', 'a', 'r', 'a', 'm'] ++
      ['(', 'b', 'o', 'u', 'n', 'd', 's', '=', '['] := by
  decide

/-- A text is its lead and what stands after it. -/
theorem chars_eq_lead_append (t : TypeRef) (h : ∀ u, t ≠ .nullable u) :
    t.chars = t.lead ++ t.body := by
  cases t with
  | named name => simp [chars, lead, body]
  | parameter bounds => simp only [chars, lead, body, boundsOpening_eq, List.append_assoc]
  | applied name arguments =>
    cases arguments with
    | nil => simp [chars, lead, body]
    | cons t ts => simp [chars, lead, body, charsEach]
  | recursive rank => simp [chars, lead, body]
  | nullable u => exact absurd rfl (h u)
  | star => simp [chars, lead, body]

/-- The lead of a plain type has no mark. -/
theorem IsPlain.lead {t : TypeRef} (h : t.IsPlain) : ∀ c ∈ t.lead, c ∉ marks := by
  cases t with
  | named name => exact h.2
  | applied name arguments => exact h.1.2
  | parameter bounds =>
    show ∀ c ∈ ['T', 'y', 'p', 'e', 'P', 'a', 'r', 'a', 'm'], c ∉ marks
    simp [marks]
  | recursive | nullable | star => exact fun _ hc => nomatch hc

/-- What stands after the lead begins with a mark: with the type's opening, or else with what
follows the type. -/
theorem head?_body_append (t : TypeRef) (z : List Char) :
    (t.body ++ z).head? = t.opening.or z.head? := by
  cases t with
  | applied name arguments => cases arguments <;> simp [body, opening]
  | recursive rank => simp [body, opening, List.replicate_succ]
  | named | parameter | nullable | star => simp [body, opening]

theorem mem_of_mem_opening {t : TypeRef} {c : Char} (h : c ∈ t.opening) :
    c ∈ ['[', '(', '^', '*'] := by
  cases t with
  | applied name arguments =>
    cases arguments with
    | nil => exact nomatch h
    | cons => obtain rfl := Option.some.inj h; decide
  | parameter | recursive | star => obtain rfl := Option.some.inj h; decide
  | named | nullable => exact nomatch h

/-- An opening never follows a type. -/
theorem opening_ne_head? {t : TypeRef} {c : Char} (h : c ∈ t.opening) {z : List Char}
    (hz : Follows z) : z.head? ≠ some c := by
  intro hc
  have hf : c ∈ ['?', ',', ']', '#', '/'] := hz c hc
  have ho := mem_of_mem_opening h
  simp only [List.mem_cons, List.not_mem_nil, or_false] at ho hf
  rcases ho with rfl | rfl | rfl | rfl <;> simp at hf

/-- What stands after the lead of a type begins with a mark. -/
theorem Follows.body_append {t : TypeRef} {z : List Char} (hz : Follows z) :
    ∀ c ∈ (t.body ++ z).head?, ¬ c ∉ marks := by
  intro c hc
  rw [head?_body_append] at hc
  rcases Option.or_eq_some_iff.1 hc with ho | ⟨-, hf⟩
  · have := mem_of_mem_opening ho
    simp only [marks, List.mem_cons] at this ⊢
    tauto
  · have := hz c hf
    simp only [marks, List.mem_cons] at this ⊢
    tauto

/-- Two types that are not nullable are of one kind if they have the same characters after the
lead. -/
theorem opening_eq {s t : TypeRef} {z z' : List Char} (hz : Follows z) (hz' : Follows z')
    (h : s.body ++ z = t.body ++ z') : s.opening = t.opening := by
  have hh : s.opening.or z.head? = t.opening.or z'.head? := by
    rw [← head?_body_append, ← head?_body_append, h]
  cases hs : s.opening with
  | some c =>
    cases ht : t.opening with
    | some d => simpa [hs, ht] using hh
    | none =>
      rw [hs, ht, Option.some_or, Option.none_or] at hh
      exact absurd hh.symm (opening_ne_head? hs hz')
  | none =>
    cases ht : t.opening with
    | some d =>
      rw [hs, ht, Option.some_or, Option.none_or] at hh
      exact absurd hh (opening_ne_head? ht hz)
    | none => rfl

/-! ## Lists of types -/

/-- In front of what ends a type, the two types are known by their characters. -/
def Distinguished (s t : TypeRef) : Prop :=
  ∀ {r r' : List Char}, Ends r → Ends r' → s.chars ++ r = t.chars ++ r' →
    s.folded = t.folded ∧ r = r'

/-- What may close a list whose separator begins with a character: it ends a type and is not taken
for the separator. -/
def Closes (c : Char) (z : List Char) : Prop :=
  Ends z ∧ ∀ d ∈ z.head?, d ≠ c

theorem Closes.ends_tail {c : Char} {sep z : List Char} (hc : c ∈ [',', '#']) (hz : Closes c z)
    (ts : List TypeRef) : Ends (ts.flatMap (fun t => c :: sep ++ t.chars) ++ z) := by
  cases ts with
  | nil => simpa using hz.1
  | cons t ts =>
    intro d hd
    obtain rfl : c = d := by simpa using hd
    simp only [List.mem_cons] at hc ⊢
    tauto

/-- The types after the first of a list are known by their characters, each with a separator before
it. -/
theorem tail_append_inj {c : Char} {sep z z' : List Char} (hc : c ∈ [',', '#'])
    (hz : Closes c z) (hz' : Closes c z') :
    ∀ {ts us : List TypeRef}, (∀ t ∈ ts, ∀ u ∈ us, Distinguished t u) →
      ts.flatMap (fun t => c :: sep ++ t.chars) ++ z =
        us.flatMap (fun u => c :: sep ++ u.chars) ++ z' →
      ts.map folded = us.map folded ∧ z = z'
  | [], [], _, h => ⟨rfl, h⟩
  | [], u :: us, _, h => by
    rw [List.flatMap_nil, List.nil_append] at h
    subst h
    exact absurd rfl (hz.2 c (by simp))
  | t :: ts, [], _, h => by
    rw [List.flatMap_nil, List.nil_append] at h
    subst h
    exact absurd rfl (hz'.2 c (by simp))
  | t :: ts, u :: us, hd, h => by
    simp only [List.flatMap_cons, List.append_assoc] at h
    obtain ⟨htu, hrest⟩ := hd t (.head _) u (.head _) (hz.ends_tail hc ts) (hz'.ends_tail hc us)
      (List.append_cancel_left h)
    obtain ⟨htail, rfl⟩ := tail_append_inj hc hz hz'
      (fun t ht u hu => hd t (.tail _ ht) u (.tail _ hu)) hrest
    exact ⟨by rw [List.map_cons, List.map_cons, htu, htail], rfl⟩

/-- A plain name begins with a character that is no mark. -/
theorem IsPlainName.toList_eq_cons {name : String} (h : IsPlainName name) :
    ∃ c cs, name.toList = c :: cs ∧ c ∉ marks := by
  cases hn : name.toList with
  | nil => exact absurd (String.toList_eq_nil_iff.1 hn) h.1
  | cons c cs => exact ⟨c, cs, rfl, h.2 c (by simp [hn])⟩

/-- A character that is no mark ends no type. -/
theorem not_mem_of_not_mem_marks {c : Char} (h : c ∉ marks) : c ∉ [',', ']', '#', '/'] := by
  simp only [marks, List.mem_cons] at h ⊢
  tauto

/-- A plain type begins with a character that never ends one. -/
theorem IsPlain.chars_eq_cons :
    ∀ {t : TypeRef}, t.IsPlain → ∃ c cs, t.chars = c :: cs ∧ c ∉ [',', ']', '#', '/']
  | .named _, h => by
    obtain ⟨c, cs, hn, hc⟩ := IsPlainName.toList_eq_cons h
    exact ⟨c, cs, by rw [chars, hn], not_mem_of_not_mem_marks hc⟩
  | .applied _ [], h => by
    obtain ⟨c, cs, hn, hc⟩ := h.1.toList_eq_cons
    exact ⟨c, cs, by rw [chars, hn], not_mem_of_not_mem_marks hc⟩
  | .applied _ (t :: ts), h => by
    obtain ⟨c, cs, hn, hc⟩ := h.1.toList_eq_cons
    exact ⟨c, _, by rw [chars, hn]; rfl, not_mem_of_not_mem_marks hc⟩
  | .parameter _, _ => ⟨'T', _, by rw [chars, boundsOpening_eq]; rfl, by decide⟩
  | .recursive _, _ => ⟨'^', _, by rw [chars, List.replicate_succ], by decide⟩
  | .nullable u, h => by
    obtain ⟨c, cs, hu, hc⟩ := chars_eq_cons (t := u) h
    exact ⟨c, cs ++ ['?'], by rw [chars, hu, List.cons_append], hc⟩
  | .star, _ => ⟨'*', [], by rw [chars], by decide⟩

/-- What ends a type does not begin one. -/
theorem IsPlain.ne_of_ends {t : TypeRef} (h : t.IsPlain) {r z : List Char} (hz : Ends z) :
    t.chars ++ r ≠ z := by
  rintro rfl
  obtain ⟨c, cs, ht, hc⟩ := h.chars_eq_cons
  exact hc (hz c (by simp [ht]))

/-- A list of plain types with separators is known by its characters. -/
theorem list_append_inj {c : Char} {sep z z' : List Char} (hc : c ∈ [',', '#'])
    (hz : Closes c z) (hz' : Closes c z') {ts us : List TypeRef} (hts : ∀ t ∈ ts, t.IsPlain)
    (hus : ∀ u ∈ us, u.IsPlain) (hd : ∀ t ∈ ts, ∀ u ∈ us, Distinguished t u)
    (h : (c :: sep).intercalate (ts.map chars) ++ z = (c :: sep).intercalate (us.map chars) ++ z') :
    ts.map folded = us.map folded ∧ z = z' := by
  cases ts with
  | nil =>
    cases us with
    | nil => exact ⟨rfl, by simpa using h⟩
    | cons u us =>
      rw [List.map_cons, Text.intercalate_cons_eq_flatMap, List.append_assoc] at h
      exact absurd h.symm ((hus u (.head _)).ne_of_ends hz.1)
  | cons t ts =>
    cases us with
    | nil =>
      rw [List.map_cons, Text.intercalate_cons_eq_flatMap, List.append_assoc] at h
      exact absurd h ((hts t (.head _)).ne_of_ends hz'.1)
    | cons u us =>
      rw [List.map_cons, List.map_cons, Text.intercalate_cons_eq_flatMap,
        Text.intercalate_cons_eq_flatMap, List.flatMap_map, List.flatMap_map, List.append_assoc,
        List.append_assoc] at h
      obtain ⟨htu, hrest⟩ := hd t (.head _) u (.head _) (hz.ends_tail hc ts) (hz'.ends_tail hc us) h
      obtain ⟨htail, rfl⟩ := tail_append_inj hc hz hz'
        (fun t ht u hu => hd t (.tail _ ht) u (.tail _ hu)) hrest
      exact ⟨by rw [List.map_cons, List.map_cons, htu, htail], rfl⟩

/-- A bracket closes a list. -/
theorem closes_bracket (z : List Char) : Closes ',' (']' :: z) := by
  refine ⟨fun c hc => ?_, fun c hc => ?_⟩ <;> obtain rfl := Option.some.inj hc <;> decide

/-! ## The main statement -/

/-- Two types that are not nullable, in front of what may follow a type, are known by their
characters up to folding, if their parts are. -/
theorem chars_append_inj_of_parts {s t : TypeRef} (hs : s.IsPlain) (ht : t.IsPlain)
    (hsn : ∀ u, s ≠ .nullable u) (htn : ∀ u, t ≠ .nullable u)
    (ih : ∀ u v, sizeOf u < sizeOf s → sizeOf v < sizeOf t → u.IsPlain → v.IsPlain →
      Distinguished u v)
    {z z' : List Char} (hz : Follows z) (hz' : Follows z') (h : s.chars ++ z = t.chars ++ z') :
    s.folded = t.folded ∧ z = z' := by
  rw [chars_eq_lead_append s hsn, chars_eq_lead_append t htn, List.append_assoc,
    List.append_assoc] at h
  obtain ⟨hlead, hbody⟩ := Text.run_append_inj hs.lead ht.lead hz.body_append hz'.body_append h
  have hopen : s.opening = t.opening := opening_eq hz hz' hbody
  have hchild : ∀ {ss ts : List TypeRef}, sizeOf ss < sizeOf s → sizeOf ts < sizeOf t →
      (∀ u ∈ ss, u.IsPlain) → (∀ v ∈ ts, v.IsPlain) → ∀ u ∈ ss, ∀ v ∈ ts, Distinguished u v := by
    intro ss ts hss hts hps hpt u hu v hv
    exact ih u v (Nat.lt_trans (List.sizeOf_lt_of_mem hu) hss)
      (Nat.lt_trans (List.sizeOf_lt_of_mem hv) hts) (hps u hu) (hpt v hv)
  match s, t with
  | .nullable u, _ => exact absurd rfl (hsn u)
  | _, .nullable u => exact absurd rfl (htn u)
  | .named m, .named n | .named m, .applied n [] | .applied m [], .named n
  | .applied m [], .applied n [] =>
    obtain rfl : m = n := String.toList_inj.1 hlead
    exact ⟨rfl, hbody⟩
  | .applied m (s :: ss), .applied n (t :: ts) =>
    obtain rfl : m = n := String.toList_inj.1 hlead
    have hss := (allPlain_iff _).1 hs.2
    have hts := (allPlain_iff _).1 ht.2
    simp only [body, charsEach_eq_map, List.cons_append, List.append_assoc, List.nil_append,
      List.cons.injEq, true_and] at hbody
    have hsize : ∀ (name : String) (us : List TypeRef), sizeOf us < sizeOf (applied name us) := by
      intro name us
      rw [applied.sizeOf_spec]
      omega
    obtain ⟨hmap, hrest⟩ := list_append_inj (by decide) (closes_bracket z) (closes_bracket z')
      hss hts (hchild (hsize m _) (hsize m _) hss hts) hbody
    rw [← foldedEach_eq_map, ← foldedEach_eq_map, foldedEach, foldedEach] at hmap
    exact ⟨by rw [folded, folded, hmap], (List.cons.inj hrest).2⟩
  | .parameter bs, .parameter cs =>
    have hbs := (allPlain_iff _).1 hs
    have hcs := (allPlain_iff _).1 ht
    simp only [body, charsEach_eq_map, List.cons_append, List.append_assoc, List.nil_append,
      List.cons.injEq, true_and] at hbody
    obtain ⟨hmap, hrest⟩ := list_append_inj (by decide) (closes_bracket _) (closes_bracket _)
      hbs hcs (hchild (by simp) (by simp) hbs hcs) hbody
    rw [← foldedEach_eq_map, ← foldedEach_eq_map] at hmap
    exact ⟨by rw [folded, folded, hmap], by simpa using hrest⟩
  | .recursive m, .recursive n =>
    have hcaret : ∀ {y : List Char}, Follows y → ∀ c ∈ y.head?, c ≠ '^' := by
      rintro y hy c hc rfl
      exact absurd (hy _ hc) (by decide)
    obtain ⟨hcount, hrest⟩ := Text.replicate_append_inj (hcaret hz) (hcaret hz') hbody
    have hrank : m = n := UInt32.toNat_inj.1 (Nat.add_right_cancel hcount)
    exact ⟨by rw [hrank], hrest⟩
  | .star, .star => exact ⟨rfl, (List.cons.inj hbody).2⟩
  | .named _, .applied _ (_ :: _) | .named _, .parameter _ | .named _, .recursive _
  | .named _, .star | .applied _ [], .applied _ (_ :: _) | .applied _ [], .parameter _
  | .applied _ [], .recursive _ | .applied _ [], .star | .applied _ (_ :: _), .named _
  | .applied _ (_ :: _), .applied _ [] | .applied _ (_ :: _), .parameter _
  | .applied _ (_ :: _), .recursive _ | .applied _ (_ :: _), .star
  | .parameter _, .named _ | .parameter _, .applied _ [] | .parameter _, .applied _ (_ :: _)
  | .parameter _, .recursive _ | .parameter _, .star | .recursive _, .named _
  | .recursive _, .applied _ [] | .recursive _, .applied _ (_ :: _) | .recursive _, .parameter _
  | .recursive _, .star | .star, .named _ | .star, .applied _ [] | .star, .applied _ (_ :: _)
  | .star, .parameter _ | .star, .recursive _ => simp [opening] at hopen

/-- Question marks in front of what ends a type are counted. -/
theorem marks_append_inj {m n : Nat} {r r' : List Char} (hr : Ends r) (hr' : Ends r')
    (h : List.replicate m '?' ++ r = List.replicate n '?' ++ r') : m = n ∧ r = r' := by
  have hmark : ∀ {y : List Char}, Ends y → ∀ c ∈ y.head?, c ≠ '?' := by
    rintro y hy c hc rfl
    exact absurd (hy _ hc) (by decide)
  exact Text.replicate_append_inj (hmark hr) (hmark hr') h

/-- Two plain types, each with question marks after it and in front of what ends a type, are known
by their characters up to folding. -/
theorem chars_append_inj (s t : TypeRef) (m n : Nat) {r r' : List Char} (hs : s.IsPlain)
    (ht : t.IsPlain) (hr : Ends r) (hr' : Ends r')
    (h : s.chars ++ (List.replicate m '?' ++ r) = t.chars ++ (List.replicate n '?' ++ r')) :
    nullable^[m] s.folded = nullable^[n] t.folded ∧ r = r' := by
  by_cases hsn : ∃ u, s = .nullable u
  · obtain ⟨u, hu⟩ := hsn
    have hlt : sizeOf u < sizeOf s := by simp [hu]
    have hinner := chars_append_inj u t (m + 1) n (by rwa [hu] at hs) ht hr hr'
      (by simpa [hu, chars, List.replicate_succ] using h)
    rwa [hu]
  by_cases htn : ∃ u, t = .nullable u
  · obtain ⟨u, hu⟩ := htn
    have hlt : sizeOf u < sizeOf t := by simp [hu]
    have hinner := chars_append_inj s u m (n + 1) hs (by rwa [hu] at ht) hr hr'
      (by simpa [hu, chars, List.replicate_succ] using h)
    rwa [hu]
  have hparts : ∀ u v, sizeOf u < sizeOf s → sizeOf v < sizeOf t → u.IsPlain → v.IsPlain →
      Distinguished u v := by
    intro u v hu hv hup hvp y y' hy hy' huv
    exact chars_append_inj u v 0 0 hup hvp hy hy' (by simpa using huv)
  obtain ⟨hfold, hrest⟩ := chars_append_inj_of_parts hs ht (fun u hu => hsn ⟨u, hu⟩)
    (fun u hu => htn ⟨u, hu⟩) hparts (hr.follows m) (hr'.follows n) h
  obtain ⟨rfl, rfl⟩ := marks_append_inj hr hr' hrest
  exact ⟨by rw [hfold], rfl⟩
termination_by sizeOf s + sizeOf t

/-- Two plain types are known by their characters up to folding. -/
theorem IsPlain.distinguished {s t : TypeRef} (hs : s.IsPlain) (ht : t.IsPlain) :
    Distinguished s t := by
  intro r r' hr hr' h
  exact chars_append_inj s t 0 0 hs ht hr hr' (by simpa using h)

end TypeRef

end DocIdent
