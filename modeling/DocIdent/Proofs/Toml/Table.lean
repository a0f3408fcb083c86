import DocIdent.Proofs.Toml.Section
import Mathlib.Data.List.Nodup

/-!
# Tables from sections

What a document's sections make up when they are put together again. Sections are put in one after
the other, and each finds its place by a path that begins at the top; so the sections of a part are
those of the part alone with a key put in front (`Toml.Section.under`), and putting them in changes
nothing but what stands under that key (`Toml.addSections?_under`). By this the parts of a document
come back one by one, each record with its own fields first and its tables after them
(`Toml.tidied`, `Toml.ofSections?_sections`). With the reading of lines this makes the text of a
document readable up to one limit, the one on the paths in headers (`Toml.read?_write`).
-/

namespace DocIdent.Toml

/-! ## Documents made of tables -/

mutual

/-- The document can be written as tables and plain values: keys are distinct, and a list has
nothing but records. -/
def IsTabular : Document → Prop
  | .record fields => (fields.map (·.1)).Nodup ∧ FieldsTabular fields
  | .list items => ItemsTabular items
  | d => IsPlainValue d

/-- The value of each field is a table or plain. -/
def FieldsTabular : List (String × Document) → Prop
  | [] => True
  | (_, d) :: fs => IsTabular d ∧ FieldsTabular fs

/-- Each item is a table. -/
def ItemsTabular : List Document → Prop
  | [] => True
  | d :: ds => isRecord d = true ∧ IsTabular d ∧ ItemsTabular ds

end

theorem fieldsTabular_iff (fs : List (String × Document)) :
    FieldsTabular fs ↔ ∀ f ∈ fs, IsTabular f.2 := by
  induction fs with
  | nil => simp [FieldsTabular]
  | cons f fs ih => simp [FieldsTabular, ih]

theorem itemsTabular_iff (ds : List Document) :
    ItemsTabular ds ↔ ∀ d ∈ ds, isRecord d = true ∧ IsTabular d := by
  induction ds with
  | nil => simp [ItemsTabular]
  | cons d ds ih => simp [ItemsTabular, ih, and_assoc]

/-- What gets no sections of its own is a plain value. -/
theorem IsTabular.isPlainValue {d : Document} (h : IsTabular d) (hd : hasSections d = false) :
    IsPlainValue d := by
  cases d with
  | record fields => cases hd
  | list items =>
    rw [IsTabular, itemsTabular_iff] at h
    have hall : items.all isRecord = true := List.all_eq_true.2 fun d hd => (h d hd).1
    rw [hasSections, hall, Bool.and_true, Bool.not_eq_false'] at hd
    exact List.isEmpty_iff.1 hd
  | text s => exact h
  | int i => exact h
  | null | bool _ | real _ | unreadable => exact h

mutual

/-- The document as its sections have it: the fields of a record that stand in its own section come
before those that have sections of their own. -/
def tidied : Document → Document
  | .record fields => .record (fields.filter (fun f => !hasSections f.2) ++ tableFields fields)
  | .list items => .list (tidiedEach items)
  | d => d

/-- The fields that have sections of their own. -/
def tableFields : List (String × Document) → List (String × Document)
  | [] => []
  | (key, d) :: fs => if hasSections d then (key, tidied d) :: tableFields fs else tableFields fs

/-- Each item as its sections have it. -/
def tidiedEach : List Document → List Document
  | [] => []
  | d :: ds => tidied d :: tidiedEach ds

end

theorem tidiedEach_eq_map (ds : List Document) : tidiedEach ds = ds.map tidied := by
  induction ds with
  | nil => rfl
  | cons d ds ih => simp [tidiedEach, ih]

theorem tableFields_eq_map (fs : List (String × Document)) :
    tableFields fs = (fs.filter fun f => hasSections f.2).map fun f => (f.1, tidied f.2) := by
  induction fs with
  | nil => rfl
  | cons f fs ih =>
    obtain ⟨key, d⟩ := f
    by_cases hd : hasSections d = true
    · simp [tableFields, hd, ih]
    · simp [tableFields, hd, ih]

/-! ## Sections under a key -/

/-- The header with a key in front of its path. -/
def Header.under (key : String) : Header → Header
  | .document => .document
  | .table path => .table (key :: path)
  | .element path => .element (key :: path)

/-- The section with a key in front of the path in its header. -/
def Section.under (key : String) (s : Section) : Section :=
  { s with header := s.header.under key }

theorem tableSection_cons (key : String) (path : List String) (fs : List (String × Document)) :
    tableSection (key :: path) fs = (tableSection path fs).map (Section.under key) := by
  unfold tableSection
  split
  · rfl
  · rfl

mutual

/-- A longer path is in front of every section of a value. -/
theorem sectionsAt_cons (key : String) (path : List String) :
    ∀ d : Document, sectionsAt (key :: path) d = (sectionsAt path d).map (Section.under key)
  | .record fs => by
    rw [sectionsAt, sectionsAt, List.map_append, tableSection_cons, sectionsIn_cons key path fs]
  | .list items => by
    rw [sectionsAt, sectionsAt]
    split
    · exact elementsAt_cons key path items
    · rfl
  | .null | .bool _ | .int _ | .real _ | .text _ | .unreadable => by simp [sectionsAt]

/-- A longer path is in front of every section of the fields of a table. -/
theorem sectionsIn_cons (key : String) (path : List String) :
    ∀ fs : List (String × Document),
      sectionsIn (key :: path) fs = (sectionsIn path fs).map (Section.under key)
  | [] => by simp [sectionsIn]
  | (k, d) :: fs => by
    rw [sectionsIn, sectionsIn, List.map_append, List.cons_append,
      sectionsAt_cons key (path ++ [k]) d, sectionsIn_cons key path fs]

/-- A longer path is in front of every section of the tables of a list. -/
theorem elementsAt_cons (key : String) (path : List String) :
    ∀ ds : List Document,
      elementsAt (key :: path) ds = (elementsAt path ds).map (Section.under key)
  | [] => by simp [elementsAt]
  | .record fs :: ds => by
    simp only [elementsAt, List.map_cons, List.map_append, List.cons_append]
    rw [sectionsIn_cons key path fs, elementsAt_cons key path ds]
    rfl
  | .null :: ds | .bool _ :: ds | .int _ :: ds | .real _ :: ds | .text _ :: ds | .list _ :: ds
  | .unreadable :: ds => by
    simp only [elementsAt]
    exact elementsAt_cons key path ds

end

/-! ## Putting in one section -/

/-- What a section does at the end of the path in its header. -/
def Section.place? (s : Section) : Option Node → Option Node :=
  match s.header with
  | .document => fun _ => none
  | .table _ => stateTable? (fill? s.pairs)
  | .element _ => extendTables? (fill? s.pairs)

/-- A section with a header is put in at the end of the path. -/
theorem addSection?_eq {s : Section} (hne : s.header.path ≠ []) (es : Entries) :
    addSection? es s = declare? s.place? s.header.path es := by
  obtain ⟨header, pairs⟩ := s
  cases header with
  | document => exact absurd rfl hne
  | table path => rfl
  | element path => rfl

@[simp] theorem place?_under (key : String) (s : Section) : (s.under key).place? = s.place? := by
  obtain ⟨header, pairs⟩ := s
  cases header <;> rfl

theorem path_under (key : String) {s : Section} (hne : s.header.path ≠ []) :
    (s.under key).header.path = key :: s.header.path := by
  obtain ⟨header, pairs⟩ := s
  cases header with
  | document => exact absurd rfl hne
  | table path => rfl
  | element path => rfl

theorem path_under_ne_nil (key : String) {s : Section} (hne : s.header.path ≠ []) :
    (s.under key).header.path ≠ [] := by
  rw [path_under key hne]
  exact List.cons_ne_nil _ _

variable {key : String} {es : Entries}

/-- What stands under the last key is changed in its place. -/
theorem update?_append (h : key ∉ es.map (·.1)) (change : Option Node → Option Node) (n : Node) :
    update? key change (es ++ [(key, n)]) =
      (change (some n)).map fun n => es ++ [(key, n)] := by
  induction es with
  | nil => simp [update?]
  | cons e es ih =>
    obtain ⟨k, m⟩ := e
    rw [List.map_cons, List.mem_cons, not_or] at h
    rw [List.cons_append, update?, if_neg (Ne.symm h.1), ih h.2, Option.map_map]
    rfl

/-- A new key goes to the end. -/
theorem update?_absent (h : key ∉ es.map (·.1)) (change : Option Node → Option Node) :
    update? key change es = (change none).map fun n => es ++ [(key, n)] := by
  induction es with
  | nil => simp [update?]
  | cons e es ih =>
    obtain ⟨k, m⟩ := e
    rw [List.map_cons, List.mem_cons, not_or] at h
    rw [update?, if_neg (Ne.symm h.1), ih h.2, Option.map_map]
    rfl

/-- What stands around the table into which a path goes on: it is the table under a key, or the last
of the tables under a key. -/
inductive Frame where
  /-- The table is known in some way. -/
  | table (origin : Origin)
  /-- There are tables before the last. -/
  | tables (earlier : List Entries)

/-- What stands under the key, with the entries of the table. -/
def Frame.node (entries : Entries) : Frame → Node
  | .table origin => .table origin entries
  | .tables earlier => .tables (entries :: earlier)

/-- A section under a key changes the table there, and nothing else. -/
theorem addSection?_under (h : key ∉ es.map (·.1)) (frame : Frame) (inner : Entries) {s : Section}
    (hne : s.header.path ≠ []) :
    addSection? (es ++ [(key, frame.node inner)]) (s.under key) =
      (addSection? inner s).map fun inner => es ++ [(key, frame.node inner)] := by
  rw [addSection?_eq (path_under_ne_nil key hne), addSection?_eq hne, path_under key hne,
    place?_under]
  obtain ⟨k, path, hpath⟩ := List.exists_cons_of_ne_nil hne
  rw [hpath, declare?, update?_append h]
  cases frame with
  | table origin => exact Option.map_map ..
  | tables earlier => exact Option.map_map ..

/-- A section under a new key makes a table that is implied. -/
theorem addSection?_under_absent (h : key ∉ es.map (·.1)) {s : Section}
    (hne : s.header.path ≠ []) :
    addSection? es (s.under key) =
      (addSection? [] s).map fun inner => es ++ [(key, Frame.node inner (.table .implied))] := by
  rw [addSection?_eq (path_under_ne_nil key hne), addSection?_eq hne, path_under key hne,
    place?_under]
  obtain ⟨k, path, hpath⟩ := List.exists_cons_of_ne_nil hne
  rw [hpath, declare?, update?_absent h]
  exact Option.map_map ..

/-! ## Putting in sections -/

/-- Entries with sections put in one after the other. -/
def addSections? (es : Entries) (ss : List Section) : Option Entries :=
  ss.foldlM addSection? es

theorem addSections?_append (es : Entries) (ss ss' : List Section) :
    addSections? es (ss ++ ss') = (addSections? es ss).bind fun es => addSections? es ss' :=
  List.foldlM_append

theorem addSections?_cons (es : Entries) (s : Section) (ss : List Section) :
    addSections? es (s :: ss) = (addSection? es s).bind fun es => addSections? es ss :=
  List.foldlM_cons

/-- Sections under a key change the table there, and nothing else. -/
theorem addSections?_under (h : key ∉ es.map (·.1)) (frame : Frame) :
    ∀ (ss : List Section) (inner : Entries), (∀ s ∈ ss, s.header.path ≠ []) →
      addSections? (es ++ [(key, frame.node inner)]) (ss.map (Section.under key)) =
        (addSections? inner ss).map fun inner => es ++ [(key, frame.node inner)]
  | [], _, _ => rfl
  | s :: ss, inner, hne => by
    rw [List.map_cons, addSections?_cons, addSections?_cons,
      addSection?_under h frame inner (hne s (.head _))]
    cases addSection? inner s with
    | none => rfl
    | some inner => exact addSections?_under h frame ss inner fun x hx => hne x (.tail _ hx)

/-- Sections under a new key, of which there is at least one, make a table that is implied. -/
theorem addSections?_under_absent (h : key ∉ es.map (·.1)) {ss : List Section} (hss : ss ≠ [])
    (hne : ∀ s ∈ ss, s.header.path ≠ []) :
    addSections? es (ss.map (Section.under key)) =
      (addSections? [] ss).map fun inner => es ++ [(key, Frame.node inner (.table .implied))] := by
  obtain ⟨s, ss, rfl⟩ := List.exists_cons_of_ne_nil hss
  rw [List.map_cons, addSections?_cons, addSections?_cons,
    addSection?_under_absent h (hne s (.head _))]
  cases addSection? [] s with
  | none => rfl
  | some inner =>
    exact addSections?_under h (.table .implied) ss inner fun x hx => hne x (.tail _ hx)

/-- The entries of plain fields. -/
def valueEntries (fs : List (String × Document)) : Entries :=
  fs.map fun f => (f.1, .value f.2)

@[simp] theorem keys_valueEntries (fs : List (String × Document)) :
    (valueEntries fs).map (·.1) = fs.map (·.1) := by
  simp [valueEntries]

@[simp]
theorem fieldsOf_append (es es' : Entries) :
    fieldsOf (es ++ es') = fieldsOf es ++ fieldsOf es' := by
  simp [fieldsOf_eq_map]

@[simp]
theorem fieldsOf_valueEntries (fs : List (String × Document)) :
    fieldsOf (valueEntries fs) = fs := by
  simp [fieldsOf_eq_map, valueEntries, Function.comp_def, Node.toDocument]

/-- Pairs with distinct new keys are put in one after the other. -/
theorem fill?_append : ∀ (fs : List (String × Document)) (es : Entries),
    (es.map (·.1) ++ fs.map (·.1)).Nodup →
      fill? (fs.map fun f => ([f.1], f.2)) es = some (es ++ valueEntries fs)
  | [], es, _ => by simp [fill?, valueEntries]
  | (key, d) :: fs, es, hdistinct => by
    have hkey : key ∉ es.map (·.1) := by
      intro hmem
      exact (List.nodup_append.1 hdistinct).2.2 key hmem key (by simp) rfl
    have ih := fill?_append fs (es ++ [(key, .value d)]) (by simpa using hdistinct)
    rw [fill?] at ih
    rw [fill?, List.map_cons, List.foldlM_cons, assign?, update?_absent hkey, Option.map_some]
    refine ih.trans ?_
    simp [valueEntries]

/-! ## Putting a document together again -/

/-- What gets no sections of its own has none. -/
theorem sectionsAt_eq_nil (path : List String) {d : Document} (h : hasSections d = false) :
    sectionsAt path d = [] := by
  cases d with
  | record fields => cases h
  | list items => rw [sectionsAt, if_neg (by simp [h])]
  | null | bool _ | int _ | real _ | text _ | unreadable => rw [sectionsAt]

/-- The pairs of a table's own section can be read back. -/
theorem plainPairs_ownPairs {fs : List (String × Document)} (h : FieldsTabular fs) :
    PlainPairs (ownPairs fs) := by
  rw [fieldsTabular_iff] at h
  intro p hp
  obtain ⟨f, hf, rfl⟩ := List.mem_map.1 hp
  obtain ⟨hf, hplain⟩ := List.mem_filter.1 hf
  have hlen : 1 ≤ pathLimit := by decide
  exact ⟨by simp, hlen, (h f hf).isPlainValue (by simpa using hplain)⟩

mutual

/-- Every section of a value has a header, and pairs that can be read back. -/
theorem plainSections_sectionsAt {path : List String} (hpath : path ≠ []) :
    ∀ {d : Document}, IsTabular d → PlainSections (sectionsAt path d)
  | .record fs, htab, s, hs => by
    rw [IsTabular] at htab
    rw [sectionsAt, List.mem_append] at hs
    rcases hs with hs | hs
    · unfold tableSection at hs
      split at hs
      · obtain rfl := List.mem_singleton.1 hs
        exact ⟨hpath, plainPairs_ownPairs htab.2⟩
      · cases hs
    · exact plainSections_sectionsIn path htab.2 s hs
  | .list items, htab, s, hs => by
    rw [IsTabular] at htab
    rw [sectionsAt] at hs
    split at hs
    · exact plainSections_elementsAt hpath htab s hs
    · cases hs
  | .null, _, _, hs | .bool _, _, _, hs | .int _, _, _, hs | .real _, _, _, hs
  | .text _, _, _, hs | .unreadable, _, _, hs => by cases hs

theorem plainSections_sectionsIn (path : List String) :
    ∀ {fs : List (String × Document)}, FieldsTabular fs → PlainSections (sectionsIn path fs)
  | [], _, s, hs => by cases hs
  | (key, d) :: fs, htab, s, hs => by
    rw [FieldsTabular] at htab
    rw [sectionsIn, List.mem_append] at hs
    rcases hs with hs | hs
    · exact plainSections_sectionsAt (by simp) htab.1 s hs
    · exact plainSections_sectionsIn path htab.2 s hs

theorem plainSections_elementsAt {path : List String} (hpath : path ≠ []) :
    ∀ {ds : List Document}, ItemsTabular ds → PlainSections (elementsAt path ds)
  | [], _, s, hs => by cases hs
  | .record fs :: ds, htab, s, hs => by
    rw [ItemsTabular, IsTabular] at htab
    obtain ⟨-, ⟨-, hfields⟩, hds⟩ := htab
    rw [elementsAt, List.cons_append, List.mem_cons, List.mem_append] at hs
    rcases hs with rfl | hs | hs
    · exact ⟨hpath, plainPairs_ownPairs hfields⟩
    · exact plainSections_sectionsIn path hfields s hs
    · exact plainSections_elementsAt hpath hds s hs
  | .null :: ds, htab, _, _ | .bool _ :: ds, htab, _, _ | .int _ :: ds, htab, _, _
  | .real _ :: ds, htab, _, _ | .text _ :: ds, htab, _, _ | .list _ :: ds, htab, _, _
  | .unreadable :: ds, htab, _, _ => by
    rw [ItemsTabular] at htab
    cases htab.1

end

/-- Entries with the tables of a list, the last one first, under a key that is new. Before its first
table a list is not there. -/
def withTables (es : Entries) (key : String) : List Entries → Entries
  | [] => es
  | last :: earlier => es ++ [(key, .tables (last :: earlier))]

theorem withTables_of_ne_nil (es : Entries) (key : String) {tables : List Entries}
    (h : tables ≠ []) : withTables es key tables = es ++ [(key, .tables tables)] := by
  cases tables with
  | nil => exact absurd rfl h
  | cons last earlier => rfl

/-- The entries of a record's plain fields. -/
def ownEntries (fs : List (String × Document)) : Entries :=
  valueEntries (fs.filter fun f => !hasSections f.2)

/-- No table of a record has the key of a plain field. -/
theorem not_mem_keys_ownEntries {fs : List (String × Document)} (h : (fs.map (·.1)).Nodup)
    {f : String × Document} (hf : f ∈ fs) (hsec : hasSections f.2 = true) :
    f.1 ∉ (ownEntries fs).map (·.1) := by
  rw [ownEntries, keys_valueEntries]
  intro hmem
  obtain ⟨g, hg, hkey⟩ := List.mem_map.1 hmem
  obtain ⟨hg, hplain⟩ := List.mem_filter.1 hg
  obtain rfl : g = f := List.inj_on_of_nodup_map h hg hf hkey
  simp [hsec] at hplain

/-- The pairs of a table's own section make its plain fields. -/
theorem fill?_ownPairs {fs : List (String × Document)} (h : (fs.map (·.1)).Nodup) :
    fill? (ownPairs fs) [] = some (ownEntries fs) := by
  refine fill?_append _ [] ?_
  exact (List.filter_sublist.map _).nodup h

/-- A header of a table puts it in under a new key. -/
theorem addSection?_table (h : key ∉ es.map (·.1)) {fs : List (String × Document)}
    (hdistinct : (fs.map (·.1)).Nodup) :
    addSection? es ⟨.table [key], ownPairs fs⟩ =
      some (es ++ [(key, Frame.node (ownEntries fs) (.table .stated))]) := by
  change declare? (stateTable? (fill? (ownPairs fs))) [key] es = _
  rw [declare?, update?_absent h, stateTable?, fill?_ownPairs hdistinct]
  rfl

/-- A header of a list's table puts one more table into the list. -/
theorem addSection?_element (h : key ∉ es.map (·.1)) (earlier : List Entries)
    {fs : List (String × Document)} (hdistinct : (fs.map (·.1)).Nodup) :
    addSection? (withTables es key earlier) ⟨.element [key], ownPairs fs⟩ =
      some (es ++ [(key, Frame.node (ownEntries fs) (.tables earlier))]) := by
  change declare? (extendTables? (fill? (ownPairs fs))) [key] _ = _
  cases earlier with
  | nil =>
    rw [withTables, declare?, update?_absent h, extendTables?, fill?_ownPairs hdistinct]
    rfl
  | cons last earlier =>
    rw [withTables, declare?, update?_append h, extendTables?, fill?_ownPairs hdistinct]
    rfl

mutual

/-- The sections of a table or of a list of tables put it under its key. -/
theorem addSections?_sectionsAt : ∀ (d : Document), IsTabular d → hasSections d = true →
    ∀ (key : String) (es : Entries), key ∉ es.map (·.1) →
      ∃ n, addSections? es (sectionsAt [key] d) = some (es ++ [(key, n)]) ∧
        n.toDocument = tidied d
  | .record fs, htab, _, key, es, hkey => by
    rw [IsTabular] at htab
    obtain ⟨hdistinct, hfields⟩ := htab
    have hne : ∀ s ∈ sectionsIn [] fs, s.header.path ≠ [] :=
      fun s hs => (plainSections_sectionsIn [] hfields s hs).1
    have hunder : sectionsIn [key] fs = (sectionsIn [] fs).map (Section.under key) :=
      sectionsIn_cons key [] fs
    rw [sectionsAt, hunder, tidied]
    unfold tableSection
    split
    next =>
      obtain ⟨es', hadd, hes'⟩ := addSections?_sectionsIn fs hfields hdistinct (ownEntries fs)
        fun f hf hsec => not_mem_keys_ownEntries hdistinct hf hsec
      refine ⟨Frame.node (ownEntries fs ++ es') (.table .stated), ?_, ?_⟩
      · rw [List.singleton_append, addSections?_cons, addSection?_table hkey hdistinct,
          Option.bind_some, addSections?_under hkey _ _ _ hne, hadd, Option.map_some]
      · rw [Frame.node, Node.toDocument, fieldsOf_append, hes', ownEntries, fieldsOf_valueEntries]
    next hown =>
      -- every field has sections, so there is a section that implies the table
      rw [Bool.not_eq_true, Bool.or_eq_false_iff, Bool.not_eq_false'] at hown
      obtain ⟨hfs, hown⟩ := hown
      have hplain : (fs.filter fun f => !hasSections f.2) = [] := by
        simpa [ownPairs] using hown
      obtain ⟨es', hadd, hes'⟩ := addSections?_sectionsIn fs hfields hdistinct [] (by simp)
      have hsome : sectionsIn [] fs ≠ [] := by
        intro hnone
        rw [hnone] at hadd
        obtain rfl : [] = es' := Option.some.inj hadd
        rw [tableFields_eq_map, fieldsOf] at hes'
        have hall := List.filter_eq_nil_iff.1 hplain
        cases fs with
        | nil => cases hfs
        | cons f fs =>
          have hsec : hasSections f.2 = true := by simpa using hall f (.head _)
          simp [hsec] at hes'
      refine ⟨Frame.node es' (.table .implied), ?_, ?_⟩
      · rw [List.nil_append, addSections?_under_absent hkey hsome hne, hadd, Option.map_some,
          List.nil_append]
      · rw [Frame.node, Node.toDocument, hes', hplain, List.nil_append]
  | .list items, htab, hsec, key, es, hkey => by
    rw [IsTabular] at htab
    obtain ⟨tables, hadd, hitems⟩ := addSections?_elementsAt items htab key es [] hkey
    have hsome : tables.reverse ≠ [] := by
      intro hnone
      rw [List.reverse_eq_nil_iff] at hnone
      subst hnone
      rw [itemsOf, tidiedEach_eq_map] at hitems
      rw [hasSections, List.map_eq_nil_iff.1 hitems.symm] at hsec
      cases hsec
    refine ⟨.tables tables.reverse, ?_, ?_⟩
    · rw [sectionsAt, if_pos hsec]
      rw [List.append_nil, withTables_of_ne_nil es key hsome] at hadd
      exact hadd
    · rw [Node.toDocument, tidied, ← hitems, itemsOf_eq_map, itemsOf_eq_map, List.map_reverse,
        List.reverse_reverse]
  | .null, _, hsec, _, _, _ | .bool _, _, hsec, _, _, _ | .int _, _, hsec, _, _, _
  | .real _, _, hsec, _, _, _ | .text _, _, hsec, _, _, _ | .unreadable, _, hsec, _, _, _ => by
    cases hsec

/-- The sections of the fields of a table put the tables among them behind what is there. -/
theorem addSections?_sectionsIn : ∀ (fs : List (String × Document)), FieldsTabular fs →
    (fs.map (·.1)).Nodup → ∀ es : Entries,
      (∀ f ∈ fs, hasSections f.2 = true → f.1 ∉ es.map (·.1)) →
      ∃ es', addSections? es (sectionsIn [] fs) = some (es ++ es') ∧ fieldsOf es' = tableFields fs
  | [], _, _, es, _ => ⟨[], by simp [sectionsIn, addSections?], rfl⟩
  | (key, d) :: fs, htab, hdistinct, es, hnew => by
    rw [FieldsTabular] at htab
    rw [List.map_cons, List.nodup_cons] at hdistinct
    have hrest : ∀ f ∈ fs, hasSections f.2 = true → f.1 ∉ es.map (·.1) :=
      fun f hf => hnew f (.tail _ hf)
    rw [sectionsIn, List.nil_append, addSections?_append, tableFields]
    by_cases hsec : hasSections d = true
    · obtain ⟨n, hadd, hn⟩ :=
        addSections?_sectionsAt d htab.1 hsec key es (hnew (key, d) (.head _) hsec)
      have hkeys : ∀ f ∈ fs, hasSections f.2 = true →
          f.1 ∉ (es ++ [(key, n)]).map (·.1) := by
        intro f hf hfsec hmem
        rw [List.map_append, List.mem_append] at hmem
        rcases hmem with hmem | hmem
        · exact hrest f hf hfsec hmem
        · exact hdistinct.1 (List.mem_map.2 ⟨f, hf, List.mem_singleton.1 hmem⟩)
      obtain ⟨es', hadd', hes'⟩ :=
        addSections?_sectionsIn fs htab.2 hdistinct.2 (es ++ [(key, n)]) hkeys
      refine ⟨(key, n) :: es', ?_, ?_⟩
      · rw [hadd, Option.bind_some, hadd', List.append_assoc, List.singleton_append]
      · rw [if_pos hsec, fieldsOf, hn, hes']
    · obtain ⟨es', hadd, hes'⟩ := addSections?_sectionsIn fs htab.2 hdistinct.2 es hrest
      refine ⟨es', ?_, ?_⟩
      · rw [sectionsAt_eq_nil [key] (by simpa using hsec)]
        exact hadd
      · rw [if_neg hsec, hes']

/-- The sections of the tables of a list put them behind those that are there. -/
theorem addSections?_elementsAt : ∀ (ds : List Document), ItemsTabular ds →
    ∀ (key : String) (es : Entries) (earlier : List Entries), key ∉ es.map (·.1) →
      ∃ new, addSections? (withTables es key earlier) (elementsAt [key] ds) =
          some (withTables es key (new.reverse ++ earlier)) ∧
        itemsOf new = tidiedEach ds
  | [], _, key, es, earlier, _ => ⟨[], by simp [elementsAt, addSections?], rfl⟩
  | .record fs :: ds, htab, key, es, earlier, hkey => by
    rw [ItemsTabular, IsTabular] at htab
    obtain ⟨-, ⟨hdistinct, hfields⟩, hds⟩ := htab
    have hne : ∀ s ∈ sectionsIn [] fs, s.header.path ≠ [] :=
      fun s hs => (plainSections_sectionsIn [] hfields s hs).1
    have hunder : sectionsIn [key] fs = (sectionsIn [] fs).map (Section.under key) :=
      sectionsIn_cons key [] fs
    obtain ⟨es', hadd, hes'⟩ := addSections?_sectionsIn fs hfields hdistinct (ownEntries fs)
      fun f hf hsec => not_mem_keys_ownEntries hdistinct hf hsec
    obtain ⟨new, hnew, hitems⟩ :=
      addSections?_elementsAt ds hds key es ((ownEntries fs ++ es') :: earlier) hkey
    refine ⟨(ownEntries fs ++ es') :: new, ?_, ?_⟩
    · rw [elementsAt, hunder, List.cons_append, addSections?_cons,
        addSection?_element hkey earlier hdistinct, Option.bind_some, addSections?_append,
        addSections?_under hkey _ _ _ hne, hadd, Option.map_some, Option.bind_some]
      simpa [Frame.node, withTables] using hnew
    · rw [itemsOf, hitems, fieldsOf_append, hes', ownEntries, fieldsOf_valueEntries, tidiedEach,
        tidied]
  | .null :: ds, htab, _, _, _, _ | .bool _ :: ds, htab, _, _, _, _
  | .int _ :: ds, htab, _, _, _, _ | .real _ :: ds, htab, _, _, _, _
  | .text _ :: ds, htab, _, _, _, _ | .list _ :: ds, htab, _, _, _, _
  | .unreadable :: ds, htab, _, _, _, _ => by
    rw [ItemsTabular] at htab
    cases htab.1

end

/-- **The sections of a document make it up again**, apart from the order of its fields. -/
theorem ofSections?_sections {fs : List (String × Document)} (h : IsTabular (.record fs)) :
    ofSections? (⟨.document, ownPairs fs⟩ :: sectionsIn [] fs) = some (tidied (.record fs)) := by
  rw [IsTabular] at h
  obtain ⟨hdistinct, hfields⟩ := h
  obtain ⟨es', hadd, hes'⟩ := addSections?_sectionsIn fs hfields hdistinct (ownEntries fs)
    fun f hf hsec => not_mem_keys_ownEntries hdistinct hf hsec
  have hfill : addSections? [] (⟨.document, ownPairs fs⟩ :: sectionsIn [] fs) =
      some (ownEntries fs ++ es') := by
    rw [addSections?_cons, addSection?]
    simp only [fill?_ownPairs hdistinct, Option.bind_some, hadd]
  change (addSections? [] _).map _ = _
  rw [hfill, Option.map_some, fieldsOf_append, hes', ownEntries, fieldsOf_valueEntries, tidied]

/-! ## Reading what was written -/

/-- **A written document is read back**, apart from the order of its fields, if no header has too
many keys in its path; if one has, the text cannot be read. -/
theorem read?_write {fs : List (String × Document)} (h : IsTabular (.record fs)) :
    read? (write (.record fs)) =
      if HeadersFit (sectionsIn [] fs) then some (tidied (.record fs)) else none := by
  have hfields : FieldsTabular fs := by
    rw [IsTabular] at h
    exact h.2
  have hpairs : PlainPairs (ownPairs fs) := plainPairs_ownPairs hfields
  have hss : PlainSections (sectionsIn [] fs) := plainSections_sectionsIn [] hfields
  have hsections : sections (.record fs) = withDocumentSection (ownPairs fs) (sectionsIn [] fs) :=
    rfl
  rw [read?, write, String.toList_ofList, hsections, withoutMark_sectionsChars hpairs hss,
    readSections?_sectionsChars hpairs hss]
  split
  next => exact ofSections?_sections h
  next => rfl

end DocIdent.Toml
