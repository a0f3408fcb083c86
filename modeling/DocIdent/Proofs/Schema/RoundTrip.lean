import DocIdent.Proofs.Steps
import DocIdent.Schema.Identifier
import Mathlib.Data.List.Basic

/-!
# Values read back from their documents

Types, targets, callables, identifiers and locks are read back from the documents that lay them out,
in any notation. A type takes its depth along: the document nests deep enough to bound the reading
(`TypeRef.ofDocumentWithin?_toDocument`). Records are read by the names of their fields
(`Document.fields?_record`), so their order does not matter (`Document.fields?_perm`); what a
callable or an identifier is read from is therefore said of any record that has its fields in some
order.
-/

namespace DocIdent

/-! ## Documents -/

namespace Document

variable {α : Type} {read : Document → Option α} {dialect : Dialect}

@[simp] theorem word?_word (n : UInt32) : (word n).word? = some n := by
  have hlt : n.toNat < 4294967296 := n.toNat_lt
  have hlt' : (n.toNat : Int) < 4294967296 := by omega
  simp [word, word?, UInt32.size, hlt']

/-- A field that there is or not is found by its name. -/
theorem uniqueField?_of_filter {name : String} {d : Option Document}
    {fs : List (String × Document)} (h : fs.filter (·.1 = name) = optionalField name d) :
    uniqueField? name fs = some d := by
  rw [uniqueField?, h]
  cases d <;> rfl

theorem filter_optionalField (n name : String) (d : Option Document) :
    (optionalField n d).filter (·.1 = name) = if n = name then optionalField n d else [] := by
  cases d with
  | none => simp [optionalField]
  | some d => by_cases h : n = name <;> simp [optionalField, field, h]

/-- What stands in an optional field is what was put there. -/
theorem eq_some_of_mem_optionalField {name : String} {d : Option Document}
    {f : String × Document} (hf : f ∈ optionalField name d) : d = some f.2 := by
  cases d with
  | none => cases hf
  | some d => rw [List.mem_singleton.1 hf]

/-- A field stands as often in a record as in one with the fields in another order. -/
theorem uniqueField?_perm {fs gs : List (String × Document)} (h : fs.Perm gs) (name : String) :
    uniqueField? name fs = uniqueField? name gs := by
  have hfilter := h.filter (·.1 = name)
  unfold uniqueField?
  generalize fs.filter (·.1 = name) = xs at hfilter
  generalize gs.filter (·.1 = name) = ys at hfilter
  match xs, ys, hfilter.length_eq with
  | [], [], _ => rfl
  | [x], [y], _ =>
    rw [List.perm_singleton] at hfilter
    rw [(List.cons.inj hfilter).1]
  | _ :: _ :: _, _ :: _ :: _, _ => rfl

/-- A field is found by its name if no other field has the name. -/
theorem uniqueField?_of_mem {f : String × Document} {fs : List (String × Document)}
    (hnames : (fs.map (·.1)).Nodup) (hf : f ∈ fs) : uniqueField? f.1 fs = some (some f.2) := by
  refine uniqueField?_of_filter ?_
  show fs.filter (·.1 = f.1) = [f]
  induction fs with
  | nil => cases hf
  | cons g gs ih =>
    obtain ⟨hg, hgs⟩ := List.nodup_cons.1 hnames
    rcases List.mem_cons.1 hf with rfl | hf
    · rw [List.filter_cons_of_pos (by simp), List.filter_eq_nil_iff.2]
      intro g hmem
      have hne : g.1 ≠ f.1 := fun he => hg (List.mem_map.2 ⟨g, hmem, he⟩)
      simpa using hne
    · have hne : g.1 ≠ f.1 := fun he => hg (List.mem_map.2 ⟨f, hf, he.symm⟩)
      rw [List.filter_cons_of_neg (by simpa using hne), ih hgs hf]

/-- The fields of a record are read if no two have one name. -/
theorem fields?_record (fs : List (String × Document)) (hnames : (fs.map (·.1)).Nodup) :
    fields? dialect (fs.map (·.1)) (.record fs) = some (fs.map fun f => some f.2) := by
  have hfields : ∀ gs : List (String × Document), gs ⊆ fs →
      namedFields? (gs.map (·.1)) fs = some (gs.map fun g => some g.2) := by
    intro gs hgs
    induction gs with
    | nil => rfl
    | cons g gs ih =>
      obtain ⟨hg, hgs⟩ := List.cons_subset.1 hgs
      have hrest := ih hgs
      rw [namedFields?] at hrest ⊢
      rw [List.map_cons, List.mapM_cons, uniqueField?_of_mem hnames hg, hrest]
      rfl
  exact hfields fs (List.Subset.refl fs)

/-- A record that stands in an optional field is read like any other. -/
@[simp] theorem optional?_record (fs : List (String × Document)) :
    optional? read (some (.record fs)) = (read (.record fs)).map some :=
  rfl

/-- Fields are read by name, whatever their order. -/
theorem fields?_perm {fs gs : List (String × Document)} (h : fs.Perm gs) (names : List String) :
    fields? dialect names (.record fs) = fields? dialect names (.record gs) := by
  have huniq : (uniqueField? · fs) = (uniqueField? · gs) :=
    funext fun name => uniqueField?_perm h name
  simp only [fields?, namedFields?, huniq]

/-- The variant of a readable record is found by the field that names it. -/
theorem variant?_record {nested : Bool} {fs : List (String × Document)} {variants : List Variant}
    {v : Variant} {values : List (Option Document)} (hreadable : isReadable (.record fs) = true)
    (hkind : uniqueField? "kind" fs = some (some (.text v.name)))
    (hv : variants.find? (·.name = v.name) = some v)
    (hvalues : namedFields? v.fields fs = some values) :
    variant? dialect nested variants (.record fs) = some (v.name, values) := by
  rw [variant?, if_neg (by simp [hreadable])]
  simp only [hkind, Option.bind_eq_bind, Option.bind_some, taggedVariant?, hv, hvalues]
  rfl

end Document

/-! ## Types -/

namespace TypeRef

variable {dialect : Dialect}

/-- The document of a type is a record. -/
theorem toDocument_eq_record (t : TypeRef) : ∃ fs, toDocument t = .record fs := by
  cases t <;> exact ⟨_, rfl⟩

mutual

/-- Nothing of a type's document is unreadable. -/
@[simp] theorem isReadable_toDocument : ∀ t : TypeRef, (toDocument t).isReadable = true
  | .named _ | .recursive _ | .star => rfl
  | .parameter bounds => by
    simp [toDocument, Document.isReadable, Document.fieldsReadable,
      itemsReadable_toDocuments bounds]
  | .applied _ arguments => by
    simp [toDocument, Document.isReadable, Document.fieldsReadable,
      itemsReadable_toDocuments arguments]
  | .nullable wrapped => by
    simp [toDocument, Document.isReadable, Document.fieldsReadable, isReadable_toDocument wrapped]

@[simp] theorem itemsReadable_toDocuments : ∀ ts : List TypeRef,
    Document.itemsReadable (toDocuments ts) = true
  | [] => rfl
  | t :: ts => by
    simp [toDocuments, Document.itemsReadable, isReadable_toDocument t,
      itemsReadable_toDocuments ts]

end

mutual

/-- A type is read back from its document within any bound on its depth. -/
theorem ofDocumentWithin?_toDocument : ∀ (t : TypeRef) (bound : Nat) (nested : Bool),
    (toDocument t).depth < bound → ofDocumentWithin? dialect bound nested (toDocument t) = some t
  | t, 0, _, h => absurd h (Nat.not_lt_zero _)
  | .named name, bound + 1, nested, _ => by
    have hvariant : Document.variant? dialect nested variants (toDocument (.named name)) =
        some ("class", [some (.text name)]) :=
      Document.variant?_record (v := ⟨"class", ["name"]⟩) rfl (by simp [Document.uniqueField?])
        (by simp [variants]) (by simp [Document.namedFields?, Document.uniqueField?])
    rw [ofDocumentWithin?, hvariant]
    rfl
  | .parameter bounds, bound + 1, nested, h => by
    have hvariant : Document.variant? dialect nested variants (toDocument (.parameter bounds)) =
        some ("type_param", [some (.list (toDocuments bounds))]) :=
      Document.variant?_record (v := ⟨"type_param", ["bounds"]⟩)
        (isReadable_toDocument (.parameter bounds)) (by simp [Document.uniqueField?])
        (by simp [variants]) (by simp [Document.namedFields?, Document.uniqueField?])
    have hdepth : Document.depthOfItems (toDocuments bounds) < bound := by
      simp only [toDocument, Document.depth, Document.depthOfFields] at h
      omega
    have hbounds := mapM_ofDocumentWithin?_toDocuments bounds bound hdepth
    rw [ofDocumentWithin?, hvariant, Option.bind_eq_bind, Option.bind_some]
    exact congrArg (Option.map TypeRef.parameter) hbounds
  | .applied name arguments, bound + 1, nested, h => by
    have hvariant : Document.variant? dialect nested variants
        (toDocument (.applied name arguments)) =
          some ("constructor", [some (.text name), some (.list (toDocuments arguments))]) :=
      Document.variant?_record (v := ⟨"constructor", ["fully_qualified_name", "params"]⟩)
        (isReadable_toDocument (.applied name arguments)) (by simp [Document.uniqueField?])
        (by simp [variants]) (by simp [Document.namedFields?, Document.uniqueField?])
    have hdepth : Document.depthOfItems (toDocuments arguments) < bound := by
      simp only [toDocument, Document.depth, Document.depthOfFields] at h
      omega
    have harguments := mapM_ofDocumentWithin?_toDocuments arguments bound hdepth
    rw [ofDocumentWithin?, hvariant, Option.bind_eq_bind, Option.bind_some]
    exact congrArg (fun ts => ts.bind fun ts => some (TypeRef.applied name ts)) harguments
  | .recursive rank, bound + 1, nested, _ => by
    have hvariant : Document.variant? dialect nested variants (toDocument (.recursive rank)) =
        some ("recursive", [some (.word rank)]) :=
      Document.variant?_record (v := ⟨"recursive", ["rank"]⟩) rfl
        (by simp [Document.uniqueField?]) (by simp [variants])
        (by simp [Document.namedFields?, Document.uniqueField?])
    rw [ofDocumentWithin?, hvariant, Option.bind_eq_bind, Option.bind_some]
    exact congrArg (Option.map TypeRef.recursive) (Document.word?_word rank)
  | .nullable wrapped, bound + 1, nested, h => by
    have hvariant : Document.variant? dialect nested variants (toDocument (.nullable wrapped)) =
        some ("nullable", [some (toDocument wrapped)]) :=
      Document.variant?_record (v := ⟨"nullable", ["wrapped"]⟩)
        (isReadable_toDocument (.nullable wrapped)) (by simp [Document.uniqueField?])
        (by simp [variants]) (by simp [Document.namedFields?, Document.uniqueField?])
    have hdepth : (toDocument wrapped).depth < bound := by
      simp only [toDocument, Document.depth, Document.depthOfFields] at h
      omega
    have hwrapped := ofDocumentWithin?_toDocument wrapped bound true hdepth
    rw [ofDocumentWithin?, hvariant, Option.bind_eq_bind, Option.bind_some]
    exact congrArg (Option.map TypeRef.nullable) hwrapped
  | .star, bound + 1, nested, _ => by
    have hvariant : Document.variant? dialect nested variants (toDocument .star) =
        some ("star", []) :=
      Document.variant?_record (v := ⟨"star", []⟩) rfl (by simp [Document.uniqueField?])
        (by simp [variants]) (by simp [Document.namedFields?])
    rw [ofDocumentWithin?, hvariant]
    rfl

theorem mapM_ofDocumentWithin?_toDocuments : ∀ (ts : List TypeRef) (bound : Nat),
    Document.depthOfItems (toDocuments ts) < bound →
      (toDocuments ts).mapM (ofDocumentWithin? dialect bound true) = some ts
  | [], _, _ => rfl
  | t :: ts, bound, h => by
    rw [toDocuments, Document.depthOfItems, Nat.max_lt] at h
    rw [toDocuments, List.mapM_cons, ofDocumentWithin?_toDocument t bound true h.1,
      mapM_ofDocumentWithin?_toDocuments ts bound h.2]
    rfl

end

/-- **A type is read back** from its document. -/
@[simp] theorem ofDocument?_toDocument (t : TypeRef) : ofDocument? dialect t.toDocument = some t :=
  ofDocumentWithin?_toDocument t _ false (Nat.lt_succ_self _)

/-- Types are read back from the list of their documents. -/
@[simp] theorem listOf?_toDocuments (ts : List TypeRef) :
    (Document.list (toDocuments ts)).listOf? (ofDocument? dialect) = some ts := by
  rw [Document.listOf?, Document.items?, toDocuments_eq_map]
  exact mapM_map_eq_some fun t _ => ofDocument?_toDocument t

end TypeRef

/-! ## Targets and callables -/

variable {dialect : Dialect}

/-- **A target is read back** from its document. -/
@[simp] theorem Target.ofDocument?_toDocument (t : Target) :
    ofDocument? dialect t.toDocument = some t := by
  cases t with
  | declaration =>
    have hvariant : Document.variant? dialect false variants (toDocument .declaration) =
        some ("declaration", []) :=
      Document.variant?_record (v := ⟨"declaration", []⟩) rfl (by simp [Document.uniqueField?])
        (by simp [variants]) (by simp [Document.namedFields?])
    rw [ofDocument?, hvariant]
    rfl
  | genericParameter index =>
    have hvariant : Document.variant? dialect false variants
        (toDocument (.genericParameter index)) =
          some ("generic_parameter", [some (.word index)]) :=
      Document.variant?_record (v := ⟨"generic_parameter", ["index"]⟩) rfl
        (by simp [Document.uniqueField?]) (by simp [variants])
        (by simp [Document.namedFields?, Document.uniqueField?])
    rw [ofDocument?, hvariant, Option.bind_eq_bind, Option.bind_some]
    exact congrArg (Option.map Target.genericParameter) (Document.word?_word index)
  | callableParameter index =>
    have hvariant : Document.variant? dialect false variants
        (toDocument (.callableParameter index)) =
          some ("callable_parameter", [some (.word index)]) :=
      Document.variant?_record (v := ⟨"callable_parameter", ["index"]⟩) rfl
        (by simp [Document.uniqueField?]) (by simp [variants])
        (by simp [Document.namedFields?, Document.uniqueField?])
    rw [ofDocument?, hvariant, Option.bind_eq_bind, Option.bind_some]
    exact congrArg (Option.map Target.callableParameter) (Document.word?_word index)

namespace Callable

/-- The fields of a callable's document. -/
def fields (c : Callable) : List (String × Document) :=
  Document.field "name" (.text c.name) ++
    Document.optionalField "receiver" (c.receiver.map TypeRef.toDocument) ++
    Document.field "params" (.list (TypeRef.toDocuments c.parameters))

/-- What holds of its name, of any type and of its parameters holds of every field of a callable. -/
theorem forall_mem_fields {P : Document → Prop} (c : Callable) (hname : P (.text c.name))
    (htype : ∀ t : TypeRef, P t.toDocument)
    (hparameters : P (.list (TypeRef.toDocuments c.parameters))) : ∀ f ∈ c.fields, P f.2 := by
  intro f hf
  rw [fields, List.mem_append, List.mem_append] at hf
  rcases hf with (hf | hf) | hf
  · rw [List.mem_singleton.1 hf]
    exact hname
  · obtain ⟨t, -, ht⟩ := Option.map_eq_some_iff.1 (Document.eq_some_of_mem_optionalField hf)
    rw [← ht]
    exact htype t
  · rw [List.mem_singleton.1 hf]
    exact hparameters

/-- A field that is there or not is read back if its value is. -/
@[simp] theorem optional?_map_toDocument (receiver : Option TypeRef) :
    Document.optional? (TypeRef.ofDocument? dialect) (receiver.map TypeRef.toDocument) =
      some receiver := by
  cases receiver with
  | none => rfl
  | some t =>
    obtain ⟨fs, hfs⟩ := t.toDocument_eq_record
    have ht : TypeRef.ofDocument? dialect t.toDocument = some t := TypeRef.ofDocument?_toDocument t
    rw [hfs] at ht
    rw [Option.map_some, hfs, Document.optional?_record, ht]
    rfl

/-- **A callable is read back** from its fields, in whatever order they stand. -/
theorem ofDocument?_of_perm (c : Callable) {fs : List (String × Document)}
    (h : fs.Perm c.fields) : ofDocument? dialect (.record fs) = some c := by
  have hfields : Document.fields? dialect ["name", "receiver", "params"] (.record c.fields) =
      some [some (.text c.name), c.receiver.map TypeRef.toDocument,
        some (.list (TypeRef.toDocuments c.parameters))] := by
    obtain ⟨name, receiver, parameters⟩ := c
    cases receiver <;> rfl
  rw [ofDocument?, Document.fields?_perm h, hfields]
  simp only [Document.text?, optional?_map_toDocument, Document.orDefault?,
    TypeRef.listOf?_toDocuments, Option.bind_eq_bind, Option.bind_some]
  rfl

@[simp] theorem ofDocument?_toDocument (c : Callable) : ofDocument? dialect c.toDocument = some c :=
  c.ofDocument?_of_perm (.refl c.fields)

end Callable

/-! ## Identifiers and locks -/

namespace Identifier

/-- The fields of an identifier's document, with the document of its callable left open. -/
def fieldsWith (d : Identifier) (callable : Option Document) : List (String × Document) :=
  Document.optionalField "package_name" (textDocument d.package) ++
    Document.optionalField "class_names" (textDocument d.classPath) ++
    Document.optionalField "extra" (textDocument d.metadata) ++
    Document.optionalField "callable" callable ++
    Document.optionalField "target"
      (if d.target.isDeclaration then none else some d.target.toDocument)

/-- What holds of texts, of its callable and of its target holds of every field of an
identifier. -/
theorem forall_mem_fieldsWith {P : Document → Prop} {d : Identifier} {callable : Option Document}
    (htext : ∀ s, P (.text s)) (hcallable : ∀ x ∈ callable, P x)
    (htarget : P d.target.toDocument) : ∀ f ∈ d.fieldsWith callable, P f.2 := by
  have htexts : ∀ (name : String) (s : Option String),
      ∀ f ∈ Document.optionalField name (textDocument s), P f.2 := by
    intro name s f hf
    obtain ⟨s, -, hs⟩ := Option.map_eq_some_iff.1 (Document.eq_some_of_mem_optionalField hf)
    rw [← hs]
    exact htext s
  intro f hf
  rw [fieldsWith, List.mem_append, List.mem_append, List.mem_append, List.mem_append] at hf
  rcases hf with (((hf | hf) | hf) | hf) | hf
  · exact htexts _ _ f hf
  · exact htexts _ _ f hf
  · exact htexts _ _ f hf
  · exact hcallable _ (Document.eq_some_of_mem_optionalField hf)
  · have hsome := Document.eq_some_of_mem_optionalField hf
    split at hsome
    · cases hsome
    · rw [← Option.some.inj hsome]
      exact htarget

/-- A text that is not empty is read back, and so is an absent one. -/
theorem presentText?_textDocument {s : Option String} (h : s ≠ some "") :
    presentText? (textDocument s) = some s := by
  cases s with
  | none => rfl
  | some s =>
    have hs : s ≠ "" := fun he => h (by rw [he])
    simp [presentText?, textDocument, Document.optional?, Document.text?, present, hs]

/-- The target is read back whether it stands or is left out. -/
@[simp] theorem orDefault?_target (t : Target) :
    Document.orDefault? .declaration (Target.ofDocument? dialect)
      (if t.isDeclaration then none else some t.toDocument) = some t := by
  cases t with
  | declaration => rfl
  | genericParameter index =>
    rw [if_neg (by simp [Target.isDeclaration]), Document.orDefault?]
    exact Target.ofDocument?_toDocument (.genericParameter index)
  | callableParameter index =>
    rw [if_neg (by simp [Target.isDeclaration]), Document.orDefault?]
    exact Target.ofDocument?_toDocument (.callableParameter index)

/-- **An identifier is read back** from its fields, if its callable is read back from its own. -/
theorem ofDocument?_fieldsWith {d : Identifier} (hd : d.WellFormed) {callable : Option Document}
    (hcallable : Document.optional? (Callable.ofDocument? dialect) callable = some d.callable) :
    ofDocument? dialect (.record (d.fieldsWith callable)) = some d := by
  have hfields : Document.fields? dialect
      ["package_name", "class_names", "extra", "callable", "target"]
      (.record (d.fieldsWith callable)) =
        some [textDocument d.package, textDocument d.classPath, textDocument d.metadata, callable,
          if d.target.isDeclaration then none else some d.target.toDocument] := by
    have hfield : ∀ (name : String) (o : Option Document),
        (d.fieldsWith callable).filter (·.1 = name) = Document.optionalField name o →
          Document.uniqueField? name (d.fieldsWith callable) = some o :=
      fun _ _ h => Document.uniqueField?_of_filter h
    have hpackage := hfield "package_name" (textDocument d.package)
      (by simp [fieldsWith, Document.filter_optionalField])
    have hclassPath := hfield "class_names" (textDocument d.classPath)
      (by simp [fieldsWith, Document.filter_optionalField])
    have hmetadata := hfield "extra" (textDocument d.metadata)
      (by simp [fieldsWith, Document.filter_optionalField])
    have hcallable := hfield "callable" callable
      (by simp [fieldsWith, Document.filter_optionalField])
    have htarget := hfield "target"
      (if d.target.isDeclaration then none else some d.target.toDocument)
      (by simp [fieldsWith, Document.filter_optionalField])
    simp only [Document.fields?, Document.namedFields?, List.mapM_cons, List.mapM_nil, hpackage,
      hclassPath, hmetadata, hcallable, htarget, Option.bind_eq_bind, Option.bind_some]
    rfl
  rw [ofDocument?, hfields]
  simp only [presentText?_textDocument hd.package, presentText?_textDocument hd.classPath,
    presentText?_textDocument hd.metadata, hcallable, orDefault?_target, Option.bind_eq_bind,
    Option.bind_some]
  rfl

/-- **An identifier is read back** from its document. -/
@[simp] theorem ofDocument?_toDocument {d : Identifier} (hd : d.WellFormed) :
    ofDocument? dialect d.toDocument = some d := by
  have hcallable : Document.optional? (Callable.ofDocument? dialect)
      (d.callable.map Callable.toDocument) = some d.callable := by
    cases d.callable with
    | none => rfl
    | some c => exact congrArg (Option.map some) c.ofDocument?_toDocument
  exact ofDocument?_fieldsWith hd hcallable

end Identifier

/-- A lock entry is read back if its identifier is. -/
theorem LockEntry.ofDocument?_record {e : LockEntry} {d : Document}
    (h : Identifier.ofDocument? dialect d = some e.identifier) :
    ofDocument? dialect (.record [("key", .text e.key), ("dri", d)]) = some e := by
  have hfields : Document.fields? dialect ["key", "dri"]
      (.record [("key", .text e.key), ("dri", d)]) = some [some (.text e.key), some d] :=
    Document.fields?_record [("key", .text e.key), ("dri", d)] (by simp)
  rw [ofDocument?, hfields]
  simp only [Document.text?, h, Option.bind_eq_bind, Option.bind_some]
  rfl

/-- **A lock entry is read back** from its document. -/
theorem LockEntry.ofDocument?_toDocument {e : LockEntry} (he : e.identifier.WellFormed) :
    ofDocument? dialect e.toDocument = some e :=
  LockEntry.ofDocument?_record (Identifier.ofDocument?_toDocument he)

/-- The entries of a lock are read back if each of them is. -/
theorem Lock.entriesOfDocument?_record {es : List LockEntry} {f : LockEntry → Document}
    (h : ∀ e ∈ es, LockEntry.ofDocument? dialect (f e) = some e) :
    entriesOfDocument? dialect (.record [("entries", .list (es.map f))]) = some es := by
  have hfields : Document.fields? dialect ["entries"]
      (.record [("entries", .list (es.map f))]) = some [some (.list (es.map f))] :=
    Document.fields?_record [("entries", .list (es.map f))] (by simp)
  rw [entriesOfDocument?, hfields]
  exact mapM_map_eq_some h

end DocIdent
