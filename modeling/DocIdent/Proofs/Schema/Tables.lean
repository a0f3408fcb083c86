import DocIdent.Proofs.Key
import DocIdent.Proofs.Schema.RoundTrip
import DocIdent.Proofs.Toml.Table

/-!
# Documents as tables

The document of a lock is made of tables (`Toml.isTabular_lock`), and written as such it changes in
one point only, the order of a callable's fields (`Toml.tidied_callable`, `Toml.tidied_lock`). Each
level of a type (`TypeRef.nesting`) takes one more key in the path of a header, and the number of
those is limited: the sections of a lock fit if no type in it has more than
`TypeRef.nestingLimit` levels (`Identifier.FitsLock`, `Toml.headersFit_lock`).
-/

namespace DocIdent

/-! ## Levels of a type -/

namespace TypeRef

mutual

/-- How many types are around the innermost part of a type. -/
def nesting : TypeRef → Nat
  | .named _ | .recursive _ | .star => 0
  | .parameter bounds => nestingEach bounds
  | .applied _ arguments => nestingEach arguments
  | .nullable wrapped => nesting wrapped + 1

/-- How many types are around the innermost part of some types, with the one that lists them. -/
def nestingEach : List TypeRef → Nat
  | [] => 0
  | t :: ts => max (nesting t + 1) (nestingEach ts)

end

theorem nestingEach_le_iff {ts : List TypeRef} {n : Nat} :
    nestingEach ts ≤ n ↔ ∀ t ∈ ts, nesting t + 1 ≤ n := by
  induction ts with
  | nil => simp [nestingEach]
  | cons t ts ih => rw [nestingEach, Nat.max_le, ih, List.forall_mem_cons]

/-- The most levels that a lock can hold. -/
def nestingLimit : Nat := 75

end TypeRef

namespace Toml

open TypeRef (nesting nestingEach nestingLimit)

/-! ## The tables of a lock -/

@[simp] theorem isRecord_toDocument (t : TypeRef) : isRecord t.toDocument = true := by
  cases t <;> rfl

/-- A list of types gets sections of its own if there is a type in it. -/
@[simp] theorem hasSections_toDocuments (ts : List TypeRef) :
    hasSections (.list (TypeRef.toDocuments ts)) = !ts.isEmpty := by
  rw [hasSections, TypeRef.toDocuments_eq_map, List.isEmpty_map]
  have hall : (ts.map TypeRef.toDocument).all isRecord = true := by
    simp
  rw [hall, Bool.and_true]

@[simp] theorem hasSections_toDocument (t : TypeRef) : hasSections t.toDocument = true := by
  cases t <;> rfl

/-- A 32-bit word is a plain value. -/
theorem isPlainValue_word (n : UInt32) : IsPlainValue (.word n) := by
  have hlt : n.toNat < 4294967296 := n.toNat_lt
  show 0 ≤ (n.toNat : Int) ∧ (n.toNat : Int) ≤ 9223372036854775807
  omega

mutual

/-- Types are laid out as tables. -/
@[simp] theorem isTabular_toDocument : ∀ t : TypeRef, IsTabular t.toDocument
  | .named _ => by simp [TypeRef.toDocument, IsTabular, FieldsTabular, IsPlainValue]
  | .parameter bounds => by
    simp [TypeRef.toDocument, IsTabular, FieldsTabular, IsPlainValue,
      itemsTabular_toDocuments bounds]
  | .applied _ arguments => by
    simp [TypeRef.toDocument, IsTabular, FieldsTabular, IsPlainValue,
      itemsTabular_toDocuments arguments]
  | .recursive rank => by
    have hrank : IsTabular (.word rank) := isPlainValue_word rank
    simp [TypeRef.toDocument, IsTabular, FieldsTabular, IsPlainValue, hrank]
  | .nullable wrapped => by
    simp [TypeRef.toDocument, IsTabular, FieldsTabular, IsPlainValue, isTabular_toDocument wrapped]
  | .star => by simp [TypeRef.toDocument, IsTabular, FieldsTabular, IsPlainValue]

@[simp]
theorem itemsTabular_toDocuments : ∀ ts : List TypeRef, ItemsTabular (TypeRef.toDocuments ts)
  | [] => trivial
  | t :: ts => ⟨isRecord_toDocument t, isTabular_toDocument t, itemsTabular_toDocuments ts⟩

end

/-- An optional field has its name or none. -/
theorem keys_optionalField (name : String) (d : Option Document) :
    ((Document.optionalField name d).map (·.1)).Sublist [name] := by
  cases d with
  | none => exact List.nil_sublist _
  | some d => exact List.Sublist.refl _

/-- Callables are laid out as tables. -/
theorem isTabular_callable (c : Callable) : IsTabular c.toDocument := by
  have hkeys : (c.fields.map (·.1)).Nodup := by
    have hnames : ["name", "receiver", "params"].Nodup := by decide
    rw [Callable.fields, List.map_append, List.map_append]
    exact (((List.Sublist.refl _).append (keys_optionalField _ _)).append
      (List.Sublist.refl _)).nodup hnames
  exact ⟨hkeys, (fieldsTabular_iff _).2 (c.forall_mem_fields trivial isTabular_toDocument
    (itemsTabular_toDocuments c.parameters))⟩

/-- Targets are laid out as tables. -/
theorem isTabular_target (t : Target) : IsTabular t.toDocument := by
  have hindex : ∀ index : UInt32, IsTabular (.word index) := isPlainValue_word
  cases t with
  | declaration => exact ⟨by simp, trivial, trivial⟩
  | genericParameter index => exact ⟨by simp, trivial, hindex index, trivial⟩
  | callableParameter index => exact ⟨by simp, trivial, hindex index, trivial⟩

/-- Identifiers are laid out as tables. -/
theorem isTabular_identifier (d : Identifier) : IsTabular d.toDocument := by
  have hkeys : ((d.fieldsWith (d.callable.map Callable.toDocument)).map (·.1)).Nodup := by
    have hnames : ["package_name", "class_names", "extra", "callable", "target"].Nodup := by decide
    simp only [Identifier.fieldsWith, List.map_append]
    exact List.Sublist.nodup ((((keys_optionalField _ _).append (keys_optionalField _ _)).append
      (keys_optionalField _ _)).append (keys_optionalField _ _) |>.append
        (keys_optionalField _ _)) hnames
  have hcallable : ∀ x ∈ d.callable.map Callable.toDocument, IsTabular x := by
    intro x hx
    obtain ⟨c, -, rfl⟩ := Option.map_eq_some_iff.1 hx
    exact isTabular_callable c
  exact ⟨hkeys, (fieldsTabular_iff _).2 (Identifier.forall_mem_fieldsWith (fun _ => trivial)
    hcallable (isTabular_target d.target))⟩

/-- **Locks are laid out as tables.** -/
theorem isTabular_lock (lock : Lock) : IsTabular lock.toDocument := by
  have hitems : ItemsTabular (lock.entries.map LockEntry.toDocument) := by
    rw [itemsTabular_iff]
    intro d hd
    obtain ⟨e, -, rfl⟩ := List.mem_map.1 hd
    exact ⟨rfl, by simp, trivial, isTabular_identifier e.identifier, trivial⟩
  exact ⟨by simp, hitems, trivial⟩

/-! ## The order of fields -/

/-- A record whose plain fields come first keeps the order of its fields. -/
theorem tidied_record (own tables : List (String × Document))
    (hown : ∀ f ∈ own, hasSections f.2 = false) (htables : ∀ f ∈ tables, hasSections f.2 = true) :
    tidied (.record (own ++ tables)) =
      .record (own ++ tables.map fun f => (f.1, tidied f.2)) := by
  have hownAll : own.filter (fun f => !hasSections f.2) = own :=
    List.filter_eq_self.2 fun f hf => by simp [hown f hf]
  have hownNone : own.filter (fun f => hasSections f.2) = [] :=
    List.filter_eq_nil_iff.2 fun f hf => by simp [hown f hf]
  have htablesAll : tables.filter (fun f => hasSections f.2) = tables :=
    List.filter_eq_self.2 htables
  have htablesNone : tables.filter (fun f => !hasSections f.2) = [] :=
    List.filter_eq_nil_iff.2 fun f hf => by simp [htables f hf]
  rw [tidied, tableFields_eq_map, List.filter_append, List.filter_append, hownAll, hownNone,
    htablesAll, htablesNone, List.append_nil, List.nil_append]

/-- Apart from the order of its fields a record stays the same if its tables do. -/
theorem tidied_record_perm {fs : List (String × Document)}
    (h : ∀ f ∈ fs, hasSections f.2 = true → tidied f.2 = f.2) :
    ∃ gs, tidied (.record fs) = .record gs ∧ gs.Perm fs := by
  have hmap : ((fs.filter fun f => hasSections f.2).map fun f => (f.1, tidied f.2)) =
      fs.filter fun f => hasSections f.2 := by
    refine (List.map_congr_left fun f hf => ?_).trans (List.map_id _)
    obtain ⟨hf, hsec⟩ := List.mem_filter.1 hf
    rw [h f hf hsec]
    rfl
  refine ⟨_, rfl, ?_⟩
  rw [tableFields_eq_map, hmap]
  exact List.perm_append_comm.trans (List.filter_append_perm _ _)

mutual

/-- The document of a type keeps the order of its fields. -/
@[simp] theorem tidied_toDocument : ∀ t : TypeRef, tidied t.toDocument = t.toDocument
  | .named _ | .recursive _ | .star => rfl
  | .parameter [] | .applied _ [] => rfl
  | .parameter (t :: ts) => by
    have hlist : tidied (.list (TypeRef.toDocuments (t :: ts))) =
        .list (TypeRef.toDocuments (t :: ts)) := by
      rw [tidied, tidiedEach_toDocuments (t :: ts)]
    have hrecord := tidied_record [("kind", .text "type_param")]
      [("bounds", .list (TypeRef.toDocuments (t :: ts)))] (by simp [hasSections])
      (by simp)
    rw [List.map_singleton, hlist] at hrecord
    exact hrecord
  | .applied name (t :: ts) => by
    have hlist : tidied (.list (TypeRef.toDocuments (t :: ts))) =
        .list (TypeRef.toDocuments (t :: ts)) := by
      rw [tidied, tidiedEach_toDocuments (t :: ts)]
    have hrecord := tidied_record
      [("kind", .text "constructor"), ("fully_qualified_name", .text name)]
      [("params", .list (TypeRef.toDocuments (t :: ts)))] (by simp [hasSections])
      (by simp)
    rw [List.map_singleton, hlist] at hrecord
    exact hrecord
  | .nullable wrapped => by
    have hrecord := tidied_record [("kind", .text "nullable")] [("wrapped", wrapped.toDocument)]
      (by simp [hasSections]) (by simp [hasSections_toDocument])
    rw [List.map_singleton, tidied_toDocument wrapped] at hrecord
    exact hrecord

@[simp] theorem tidiedEach_toDocuments : ∀ ts : List TypeRef,
    tidiedEach (TypeRef.toDocuments ts) = TypeRef.toDocuments ts
  | [] => rfl
  | t :: ts => by
    rw [TypeRef.toDocuments, tidiedEach, tidied_toDocument t, tidiedEach_toDocuments ts]

end

/-- The fields of a callable's document may change their order. -/
theorem tidied_callable (c : Callable) :
    ∃ fs, tidied c.toDocument = .record fs ∧ fs.Perm c.fields := by
  have hparameters : tidied (.list (TypeRef.toDocuments c.parameters)) =
      .list (TypeRef.toDocuments c.parameters) := by
    rw [tidied, tidiedEach_toDocuments]
  exact tidied_record_perm fun f hf _ =>
    c.forall_mem_fields (P := fun x => tidied x = x) rfl tidied_toDocument hparameters f hf

theorem map_optionalField (f : Document → Document) (name : String) (d : Option Document) :
    (Document.optionalField name d).map (fun x => (x.1, f x.2)) =
      Document.optionalField name (d.map f) := by
  cases d <;> rfl

/-- Whether there is a target or not, its document is a table that stays the same. -/
theorem tidied_target (t : Target) :
    hasSections t.toDocument = true ∧ tidied t.toDocument = t.toDocument := by
  cases t <;> exact ⟨rfl, rfl⟩

/-- The fields of an identifier's document keep their order. -/
theorem tidied_identifier (d : Identifier) :
    tidied d.toDocument =
      .record (d.fieldsWith (d.callable.map fun c => tidied c.toDocument)) := by
  have htext : ∀ (name : String) (s : Option String),
      ∀ f ∈ Document.optionalField name (Identifier.textDocument s), hasSections f.2 = false := by
    intro name s f hf
    cases s with
    | none => cases hf
    | some s =>
      obtain rfl := List.mem_singleton.1 hf
      rfl
  have hrecord := tidied_record
    (Document.optionalField "package_name" (Identifier.textDocument d.package) ++
      Document.optionalField "class_names" (Identifier.textDocument d.classPath) ++
      Document.optionalField "extra" (Identifier.textDocument d.metadata))
    (Document.optionalField "callable" (d.callable.map Callable.toDocument) ++
      Document.optionalField "target"
        (if d.target.isDeclaration then none else some d.target.toDocument)) ?_ ?_
  · have htarget : (if d.target.isDeclaration then none else some d.target.toDocument).map tidied =
        if d.target.isDeclaration then none else some d.target.toDocument := by
      split
      · rfl
      · rw [Option.map_some, (tidied_target d.target).2]
    rw [List.map_append, map_optionalField, map_optionalField, htarget, Option.map_map,
      ← List.append_assoc, ← List.append_assoc] at hrecord
    exact hrecord
  · intro f hf
    rw [List.mem_append, List.mem_append] at hf
    rcases hf with (hf | hf) | hf
    · exact htext _ _ f hf
    · exact htext _ _ f hf
    · exact htext _ _ f hf
  · intro f hf
    rw [List.mem_append] at hf
    rcases hf with hf | hf
    · cases hc : d.callable with
      | none =>
        rw [hc] at hf
        cases hf
      | some c =>
        rw [hc] at hf
        obtain rfl := List.mem_singleton.1 hf
        rfl
    · split at hf
      · cases hf
      · obtain rfl := List.mem_singleton.1 hf
        exact (tidied_target d.target).1

/-- The fields of an entry's document keep their order. -/
theorem tidied_entry (e : LockEntry) :
    tidied e.toDocument =
      .record [("key", .text e.key), ("dri", tidied e.identifier.toDocument)] :=
  tidied_record [("key", .text e.key)] [("dri", e.identifier.toDocument)] (by simp [hasSections])
    (by simp [hasSections, Identifier.toDocument])

/-- A lock's document stays the same but for the documents of its identifiers. -/
theorem tidied_lock (lock : Lock) :
    tidied lock.toDocument = .record [("entries", .list (lock.entries.map fun e =>
      .record [("key", .text e.key), ("dri", tidied e.identifier.toDocument)]))] := by
  obtain ⟨entries⟩ := lock
  cases entries with
  | nil => rfl
  | cons e es =>
    have hsections : hasSections (.list ((e :: es).map LockEntry.toDocument)) = true := by
      simp [hasSections, isRecord, LockEntry.toDocument]
    have hrecord := tidied_record [] [("entries", .list ((e :: es).map LockEntry.toDocument))]
      (by simp) (by simpa using hsections)
    have hlist : tidied (.list ((e :: es).map LockEntry.toDocument)) =
        .list ((e :: es).map fun e =>
          .record [("key", .text e.key), ("dri", tidied e.identifier.toDocument)]) := by
      rw [tidied, tidiedEach_eq_map, List.map_map]
      exact congrArg Document.list (List.map_congr_left fun e _ => tidied_entry e)
    rw [List.nil_append, List.map_singleton, hlist] at hrecord
    exact hrecord

/-! ## The limit on headers -/

variable {path : List String}

@[simp] theorem headersFit_append {ss ss' : List Section} :
    HeadersFit (ss ++ ss') ↔ HeadersFit ss ∧ HeadersFit ss' :=
  List.forall_mem_append

/-- The sections of a record with a plain field fit if its path does and those of its tables do. -/
theorem headersFit_record {fs : List (String × Document)} (h : (ownPairs fs).isEmpty = false) :
    HeadersFit (sectionsAt path (.record fs)) ↔
      path.length ≤ pathLimit ∧ HeadersFit (sectionsIn path fs) := by
  rw [sectionsAt, tableSection, if_pos (by simp [h]), List.singleton_append, headersFit_cons]
  rfl

@[simp] theorem sectionsIn_append (fs gs : List (String × Document)) :
    sectionsIn path (fs ++ gs) = sectionsIn path fs ++ sectionsIn path gs := by
  induction fs with
  | nil => rfl
  | cons f fs ih =>
    obtain ⟨key, d⟩ := f
    rw [List.cons_append, sectionsIn, ih, sectionsIn, List.append_assoc]

/-- The sections of a list's tables fit if those of each table fit. -/
theorem headersFit_elementsAt_cons {fs : List (String × Document)}
    (h : (ownPairs fs).isEmpty = false) (ds : List Document) :
    HeadersFit (elementsAt path (.record fs :: ds)) ↔
      HeadersFit (sectionsAt path (.record fs)) ∧ HeadersFit (elementsAt path ds) := by
  rw [headersFit_record h, elementsAt, List.cons_append, headersFit_cons, headersFit_append,
    and_assoc]
  rfl

/-- The document of a type has a field that says which of the six it is. -/
theorem ownPairs_toDocument (t : TypeRef) :
    ∃ fs, t.toDocument = .record fs ∧ (ownPairs fs).isEmpty = false := by
  cases t <;> exact ⟨_, rfl, rfl⟩

/-- The sections of a list of types are those of its items, also if there are none. -/
@[simp] theorem sectionsAt_toDocuments (ts : List TypeRef) :
    sectionsAt path (.list (TypeRef.toDocuments ts)) =
      elementsAt path (TypeRef.toDocuments ts) := by
  rw [sectionsAt, hasSections_toDocuments]
  cases ts <;> rfl

@[simp] theorem sectionsAt_text (s : String) : sectionsAt path (.text s) = [] := by
  rw [sectionsAt]

/-- A type that lists others takes one more level than they do. -/
theorem add_nestingEach_le_iff {ts : List TypeRef} {n : Nat} :
    n + nestingEach ts ≤ pathLimit ↔ n ≤ pathLimit ∧ ∀ t ∈ ts, n + 1 + nesting t ≤ pathLimit := by
  constructor
  · intro h
    have hle : nestingEach ts ≤ pathLimit - n := by omega
    refine ⟨by omega, fun t ht => ?_⟩
    have := TypeRef.nestingEach_le_iff.1 hle t ht
    omega
  · rintro ⟨hn, h⟩
    have hle : nestingEach ts ≤ pathLimit - n := TypeRef.nestingEach_le_iff.2 fun t ht => by
      have := h t ht
      omega
    omega

mutual

/-- **The sections of a type fit** if its path and its levels together are not too many. -/
theorem headersFit_type : ∀ (t : TypeRef) (path : List String),
    HeadersFit (sectionsAt path t.toDocument) ↔ path.length + nesting t ≤ pathLimit
  | .named _, path | .recursive _, path | .star, path => by
    rw [TypeRef.toDocument, headersFit_record rfl]
    simp [sectionsIn, sectionsAt, nesting, Document.word]
  | .parameter bounds, path => by
    have hbounds := headersFit_types bounds (path ++ ["bounds"])
    rw [List.length_append, List.length_singleton] at hbounds
    rw [TypeRef.toDocument, headersFit_record rfl, nesting, add_nestingEach_le_iff, ← hbounds]
    simp [sectionsIn]
  | .applied name arguments, path => by
    have harguments := headersFit_types arguments (path ++ ["params"])
    rw [List.length_append, List.length_singleton] at harguments
    rw [TypeRef.toDocument, headersFit_record rfl, nesting, add_nestingEach_le_iff, ← harguments]
    simp [sectionsIn]
  | .nullable wrapped, path => by
    have hwrapped := headersFit_type wrapped (path ++ ["wrapped"])
    rw [List.length_append, List.length_singleton] at hwrapped
    rw [TypeRef.toDocument, headersFit_record rfl, nesting]
    simp only [sectionsIn, sectionsAt, List.nil_append, List.append_nil, hwrapped]
    omega

theorem headersFit_types : ∀ (ts : List TypeRef) (path : List String),
    HeadersFit (elementsAt path (TypeRef.toDocuments ts)) ↔
      ∀ t ∈ ts, path.length + nesting t ≤ pathLimit
  | [], path => by simp [TypeRef.toDocuments, elementsAt]
  | t :: ts, path => by
    obtain ⟨fs, hfs, hown⟩ := ownPairs_toDocument t
    have ht := headersFit_type t path
    rw [hfs] at ht
    rw [TypeRef.toDocuments, hfs, headersFit_elementsAt_cons hown, ht, headersFit_types ts path,
      List.forall_mem_cons]

end

/-- The sections of a callable fit if those of its types do, one key further down. -/
theorem headersFit_callable (c : Callable) :
    HeadersFit (sectionsAt path c.toDocument) ↔
      path.length ≤ pathLimit ∧ ∀ t ∈ c.types, path.length + 1 + nesting t ≤ pathLimit := by
  obtain ⟨name, receiver, parameters⟩ := c
  have hparameters := headersFit_types parameters (path ++ ["params"])
  rw [List.length_append, List.length_singleton] at hparameters
  cases receiver with
  | none =>
    rw [Callable.toDocument, headersFit_record rfl]
    simp [Document.field, Document.optionalField, sectionsIn, hparameters, Callable.types]
  | some t =>
    have ht := headersFit_type t (path ++ ["receiver"])
    rw [List.length_append, List.length_singleton] at ht
    rw [Callable.toDocument, headersFit_record rfl]
    simp [Document.field, Document.optionalField, sectionsIn, hparameters, ht, Callable.types]

/-- What stands in an optional field has its sections one key further down. -/
@[simp] theorem sectionsIn_optionalField (name : String) (d : Option Document) :
    sectionsIn path (Document.optionalField name d) =
      d.toList.flatMap (sectionsAt (path ++ [name])) := by
  cases d with
  | none => rfl
  | some d =>
    simp [Document.optionalField, Document.field, sectionsIn]

/-- An optional text has no sections. -/
@[simp] theorem sectionsIn_textDocument (name : String) (text : Option String) :
    sectionsIn path (Document.optionalField name (Identifier.textDocument text)) = [] := by
  rw [sectionsIn_optionalField]
  cases text with
  | none => rfl
  | some text => simp [Identifier.textDocument]

/-- A table fits with its own fields if its path does. -/
theorem headersFit_tableSection (hpath : path.length ≤ pathLimit)
    (fs : List (String × Document)) : HeadersFit (tableSection path fs) := by
  unfold tableSection
  split
  · exact headersFit_cons.2 ⟨hpath, headersFit_nil⟩
  · exact headersFit_nil

/-- The one section of a target fits if its path does. -/
theorem headersFit_target (hpath : path.length ≤ pathLimit) (t : Target) :
    HeadersFit (sectionsAt path t.toDocument) := by
  cases t with
  | declaration =>
    rw [Target.toDocument, headersFit_record rfl]
    exact ⟨hpath, headersFit_nil⟩
  | genericParameter index =>
    rw [Target.toDocument, headersFit_record rfl]
    exact ⟨hpath, headersFit_nil⟩
  | callableParameter index =>
    rw [Target.toDocument, headersFit_record rfl]
    exact ⟨hpath, headersFit_nil⟩

/-- The sections of an identifier fit if the types of its callable do, two keys further down. -/
theorem headersFit_identifier (hpath : path.length + 1 ≤ pathLimit) (d : Identifier) :
    HeadersFit (sectionsAt path d.toDocument) ↔
      ∀ c ∈ d.callable, ∀ t ∈ c.types, path.length + 2 + nesting t ≤ pathLimit := by
  have hlength : ∀ name : String, (path ++ [name]).length ≤ pathLimit := by
    intro name
    rw [List.length_append, List.length_singleton]
    exact hpath
  have hcallable : ∀ c : Callable, HeadersFit (sectionsAt (path ++ ["callable"]) c.toDocument) ↔
      ∀ t ∈ c.types, path.length + 2 + nesting t ≤ pathLimit := by
    intro c
    rw [headersFit_callable, List.length_append, List.length_singleton]
    exact and_iff_right hpath
  rw [Identifier.toDocument, sectionsAt, headersFit_append, sectionsIn_append, sectionsIn_append,
    sectionsIn_append, sectionsIn_append, sectionsIn_textDocument, sectionsIn_textDocument,
    sectionsIn_textDocument, List.nil_append, List.nil_append, headersFit_append,
    sectionsIn_optionalField, sectionsIn_optionalField]
  constructor
  · rintro ⟨-, h, -⟩ c hc
    rw [Option.mem_def] at hc
    rw [← hcallable]
    simpa [hc] using h
  · intro h
    refine ⟨headersFit_tableSection (Nat.le_of_succ_le hpath) _, ?_, ?_⟩
    · cases hc : d.callable with
      | none => exact headersFit_nil
      | some c => simpa using (hcallable c).2 (h c hc)
    · split
      · exact headersFit_nil
      · simpa using headersFit_target (hlength "target") d.target

end Toml

/-- The types of the identifier have no more levels than a lock can hold. -/
def Identifier.FitsLock (d : Identifier) : Prop :=
  ∀ c ∈ d.callable, ∀ t ∈ c.types, t.nesting ≤ TypeRef.nestingLimit

instance (d : Identifier) : Decidable d.FitsLock :=
  inferInstanceAs (Decidable (∀ c ∈ d.callable, ∀ t ∈ c.types, t.nesting ≤ TypeRef.nestingLimit))

namespace Toml

/-- **The sections of a lock fit** if its identifiers do. -/
theorem headersFit_lock (es : List LockEntry) :
    HeadersFit (sectionsIn [] [("entries", .list (es.map LockEntry.toDocument))]) ↔
      ∀ e ∈ es, e.identifier.FitsLock := by
  have hidentifier : ∀ d : Identifier,
      HeadersFit (sectionsAt ["entries", "dri"] d.toDocument) ↔ d.FitsLock := by
    intro d
    rw [headersFit_identifier (by decide)]
    refine forall₂_congr fun c _ => forall₂_congr fun t _ => ?_
    simp only [List.length_cons, List.length_nil, pathLimit, TypeRef.nestingLimit]
    omega
  have hlist : sectionsAt ["entries"] (.list (es.map LockEntry.toDocument)) =
      elementsAt ["entries"] (es.map LockEntry.toDocument) := by
    cases es with
    | nil => rfl
    | cons e es => simp [sectionsAt, hasSections, isRecord, LockEntry.toDocument]
  rw [sectionsIn, sectionsIn, List.append_nil, List.nil_append, hlist]
  clear hlist
  induction es with
  | nil => simp [elementsAt]
  | cons e es ih =>
    have hentry : HeadersFit (sectionsAt ["entries"] e.toDocument) ↔ e.identifier.FitsLock := by
      rw [LockEntry.toDocument, headersFit_record rfl, ← hidentifier]
      simp only [sectionsIn, sectionsAt_text, List.nil_append, List.append_nil]
      exact and_iff_right (by decide)
    rw [List.map_cons, List.forall_mem_cons]
    exact (headersFit_elementsAt_cons rfl _).trans (and_congr hentry ih)

end Toml

end DocIdent
