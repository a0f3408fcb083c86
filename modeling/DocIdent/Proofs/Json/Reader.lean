import DocIdent.Json.Reader
import DocIdent.Proofs.Json.Token

/-!
# The document of a written text

A reader that is fed the tokens of a document comes to be where the document is complete
(`Json.Reader.foldlM_tokensOf`), as long as the lists and records around the document leave room for
those in it. The induction is on the document, with an item or a field fed after a comma to a list
or record that holds those before it. With the tokens of the text this makes a basic document come
back from its text (`Json.read?_compact`).
-/

namespace DocIdent.Json

namespace Reader

variable {limit : Nat} {frames : List Frame} {r r' : Reader} {t : Token} {ts us : List Token}

/-- What does not nest too deep is left as it is. -/
theorem within_of_lt (h : frames.length < limit) (d : Document) : within limit frames d = d := by
  have hlength : (frames.take limit).length < limit := by
    rw [List.length_take]
    omega
  exact if_pos hlength

/-- Fields that all have names make up a record. -/
@[simp] theorem recordOf_map (fs : List (String × Document)) :
    recordOf (fs.map fun f => (some f.1, f.2)) = .record fs := by
  have hfields : ∀ fs : List (String × Document),
      (fs.map fun f => (some f.1, f.2)).mapM (fun f : Option String × Document =>
        f.1.map fun name => (name, f.2)) = some fs := by
    intro fs
    induction fs with
    | nil => rfl
    | cons f fs ih =>
      rw [List.map_cons, List.mapM_cons, ih]
      rfl
  rw [recordOf, hfields]

/-- The end of a list of items that have been taken in. -/
theorem endList?_reverse (h : frames.length < limit) (items : List Document) :
    endList? limit (.list items.reverse :: frames) = complete? (.list items) frames := by
  rw [endList?, List.reverse_reverse, within_of_lt h]

/-- The end of a record of fields that have been taken in. -/
theorem endRecord?_reverse (h : frames.length < limit) (fs : List (String × Document)) :
    endRecord? limit (.record (fs.map fun f => (some f.1, f.2)).reverse :: frames) =
      complete? (.record fs) frames := by
  rw [endRecord?, List.reverse_reverse, within_of_lt h, recordOf_map]

/-- One token is taken after the other. -/
theorem foldlM_cons_of (h : feed? limit r t = some r') :
    (t :: ts).foldlM (feed? limit) r = ts.foldlM (feed? limit) r' := by
  rw [List.foldlM_cons, h]
  rfl

/-- Some tokens are taken after others. -/
theorem foldlM_append_of (h : ts.foldlM (feed? limit) r = some r') :
    (ts ++ us).foldlM (feed? limit) r = us.foldlM (feed? limit) r' := by
  rw [List.foldlM_append, h]
  rfl

/-- A last token. -/
theorem foldlM_singleton (limit : Nat) (r : Reader) (t : Token) :
    [t].foldlM (feed? limit) r = feed? limit r t := by
  rw [List.foldlM_cons]
  exact bind_pure _

/-- The name of a field and its colon take the reader to where the field's value comes next. -/
theorem foldlM_name (done : List (Option String × Document)) (name : String) (orEnd : Bool) :
    (.text (some name) :: .colon :: ts).foldlM (feed? limit) ⟨.record done :: frames, .name orEnd⟩ =
      ts.foldlM (feed? limit) ⟨.field done (some name) :: frames, .value false⟩ := by
  have hname : feed? limit ⟨.record done :: frames, .name orEnd⟩ (.text (some name)) =
      some ⟨.field done (some name) :: frames, .colon⟩ := by
    cases orEnd <;> rfl
  have hcolon : feed? limit ⟨.field done (some name) :: frames, .colon⟩ .colon =
      some ⟨.field done (some name) :: frames, .value false⟩ := rfl
  rw [foldlM_cons_of hname, foldlM_cons_of hcolon]

mutual

/-- **The tokens of a document** take the reader to where the document is complete. -/
theorem foldlM_tokensOf : ∀ (d : Document) (frames : List Frame) (orEnd : Bool),
    d.depth + frames.length ≤ limit →
      (tokensOf d).foldlM (feed? limit) ⟨frames, .value orEnd⟩ = complete? d frames
  | .null, _, _, _ | .bool _, _, _, _ | .int _, _, _, _ | .real _, _, _, _ | .text _, _, _, _
  | .unreadable, _, _, _ => by
    rw [tokensOf, foldlM_singleton]
    rfl
  | .list items, frames, orEnd, h => by
    rw [Document.depth] at h
    have hroom : frames.length < limit := by omega
    have hopen : feed? limit ⟨frames, .value orEnd⟩ .openList =
        some ⟨.list [] :: frames, .value true⟩ := rfl
    rw [tokensOf, List.cons_append, foldlM_cons_of hopen]
    cases items with
    | nil =>
      rw [tokensOfItems, List.intercalate_nil, List.nil_append, foldlM_singleton]
      exact endList?_reverse hroom []
    | cons d ds =>
      -- no comma comes before the first item, so it is fed apart from the others
      rw [Document.depthOfItems] at h
      have hd := foldlM_tokensOf d (.list [] :: frames) true (by rw [List.length_cons]; omega)
      have hds := foldlM_tokensOfItems ds [d] frames (by omega)
      rw [tokensOfItems, Text.intercalate_cons_eq_flatMap, List.append_assoc, foldlM_append_of hd,
        foldlM_append_of hds, foldlM_singleton, ← List.reverse_cons]
      exact endList?_reverse hroom (d :: ds)
  | .record fields, frames, orEnd, h => by
    rw [Document.depth] at h
    have hroom : frames.length < limit := by omega
    have hopen : feed? limit ⟨frames, .value orEnd⟩ .openRecord =
        some ⟨.record [] :: frames, .name true⟩ := rfl
    rw [tokensOf, List.cons_append, foldlM_cons_of hopen]
    cases fields with
    | nil =>
      rw [tokensOfFields, List.intercalate_nil, List.nil_append, foldlM_singleton]
      exact endRecord?_reverse hroom []
    | cons f fs =>
      obtain ⟨name, d⟩ := f
      rw [Document.depthOfFields] at h
      have hd := foldlM_tokensOf d (.field [] (some name) :: frames) false
        (by rw [List.length_cons]; omega)
      have hfs := foldlM_tokensOfFields fs [(some name, d)] frames (by omega)
      rw [tokensOfFields, Text.intercalate_cons_eq_flatMap, List.append_assoc, List.cons_append,
        List.cons_append, foldlM_name, foldlM_append_of hd, foldlM_append_of hfs,
        foldlM_singleton, ← List.reverse_cons]
      exact endRecord?_reverse hroom ((name, d) :: fs)

/-- Items, each after a comma, are taken into the innermost list. -/
theorem foldlM_tokensOfItems : ∀ (ds done : List Document) (frames : List Frame),
    Document.depthOfItems ds + (frames.length + 1) ≤ limit →
      ((tokensOfItems ds).flatMap ([.comma] ++ ·)).foldlM (feed? limit)
        ⟨.list done :: frames, .commaOrEnd⟩ =
      some ⟨.list (ds.reverse ++ done) :: frames, .commaOrEnd⟩
  | [], _, _, _ => rfl
  | d :: ds, done, frames, h => by
    rw [Document.depthOfItems] at h
    have hcomma : feed? limit ⟨.list done :: frames, .commaOrEnd⟩ .comma =
        some ⟨.list done :: frames, .value false⟩ := rfl
    have hd := foldlM_tokensOf d (.list done :: frames) false (by rw [List.length_cons]; omega)
    have hds := foldlM_tokensOfItems ds (d :: done) frames (by omega)
    rw [tokensOfItems, List.flatMap_cons, List.append_assoc, List.singleton_append,
      foldlM_cons_of hcomma, foldlM_append_of hd, hds, List.reverse_cons, List.append_assoc]
    rfl

/-- Fields, each after a comma, are taken into the innermost record. -/
theorem foldlM_tokensOfFields : ∀ (fs : List (String × Document))
    (done : List (Option String × Document)) (frames : List Frame),
    Document.depthOfFields fs + (frames.length + 1) ≤ limit →
      ((tokensOfFields fs).flatMap ([.comma] ++ ·)).foldlM (feed? limit)
        ⟨.record done :: frames, .commaOrEnd⟩ =
      some ⟨.record ((fs.map fun f => (some f.1, f.2)).reverse ++ done) :: frames, .commaOrEnd⟩
  | [], _, _, _ => rfl
  | (name, d) :: fs, done, frames, h => by
    rw [Document.depthOfFields] at h
    have hcomma : feed? limit ⟨.record done :: frames, .commaOrEnd⟩ .comma =
        some ⟨.record done :: frames, .name false⟩ := rfl
    have hd := foldlM_tokensOf d (.field done (some name) :: frames) false
      (by rw [List.length_cons]; omega)
    have hfs := foldlM_tokensOfFields fs ((some name, d) :: done) frames (by omega)
    rw [tokensOfFields, List.flatMap_cons, List.append_assoc, List.singleton_append,
      foldlM_cons_of hcomma, List.cons_append, List.cons_append, foldlM_name, foldlM_append_of hd,
      hfs, List.map_cons, List.reverse_cons, List.append_assoc]
    rfl

end

end Reader

/-- The tokens of a document make it up, if it does not nest too deep. -/
theorem ofTokens?_tokensOf {limit : Nat} {d : Document} (h : d.depth ≤ limit) :
    ofTokens? limit (tokensOf d) = some d := by
  rw [ofTokens?, Reader.start, Reader.foldlM_tokensOf d [] false h]
  rfl

/-- **A basic document is read back** from its text, if it does not nest too deep. -/
theorem read?_compact {d : Document} (hd : d.IsBasic) (h : d.depth ≤ nestingLimit) :
    read? (compact d) = some d := by
  rw [read?, readWithin?, compact, String.toList_ofList, tokens?_compactChars hd]
  exact ofTokens?_tokensOf h

end DocIdent.Json
