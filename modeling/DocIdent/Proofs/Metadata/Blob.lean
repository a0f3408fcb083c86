import DocIdent.Metadata
import DocIdent.Proofs.Ledger
import DocIdent.Proofs.Text

/-!
# Blobs and the facts they hold

A blob is the keys and values of some facts in turn (`Metadata.inTurn`), with a separator between
any two. Facts are clean if no part of them has a separator and no key stands twice
(`Metadata.Clean`). What is read from a blob is clean (`Metadata.clean_of_read`), and storing and
removing facts keep it clean; so whatever is done to some facts, they are clean after it
(`Metadata.Clean.run`). Clean facts are read back from their blob (`Metadata.Clean.read_blob`), and
a blob is written back from what was read from it (`Metadata.blob_of_read`). Both directions are put
together in `Metadata.read_blob_run_and_blob_read`.
-/

namespace DocIdent

namespace Metadata

/-! ## Keys and values in turn -/

/-- The keys and values of entries, each key before its value. -/
def inTurn (es : List (String × String)) : List String :=
  es.flatMap fun e => [e.1, e.2]

@[simp] theorem inTurn_cons (e : String × String) (es : List (String × String)) :
    inTurn (e :: es) = e.1 :: e.2 :: inTurn es :=
  rfl

/-- Entries are known by their keys and values in turn. -/
theorem inTurn_inj {es fs : List (String × String)} (h : inTurn es = inTurn fs) : es = fs := by
  induction es generalizing fs with
  | nil =>
    cases fs with
    | nil => rfl
    | cons f fs => cases h
  | cons e es ih =>
    cases fs with
    | nil => cases h
    | cons f fs =>
      rw [inTurn_cons, inTurn_cons] at h
      injection h with hkey h
      injection h with hvalue h
      rw [ih h, Prod.ext hkey hvalue]

/-- **Segments are read** exactly if they are the keys and values of entries that repeat no key,
also none of those read before. -/
theorem readPairs_eq_ok_iff {blob : String} {read : List (String × String)}
    {segments : List String} {found : List (String × String)} (hread : (read.map (·.1)).Nodup) :
    readPairs blob read segments = .ok found ↔
      ∃ es, segments = inTurn es ∧ found = read ++ es ∧ (found.map (·.1)).Nodup := by
  induction read, segments using readPairs.induct with
  | case1 read =>
    rw [readPairs]
    constructor
    · rintro ⟨⟩
      exact ⟨[], rfl, (List.append_nil _).symm, hread⟩
    · rintro ⟨es, hes, rfl, -⟩
      cases es with
      | nil => rw [List.append_nil]
      | cons e es => cases hes
  | case2 read key =>
    rw [readPairs]
    constructor
    · rintro ⟨⟩
    · rintro ⟨es, hes, -⟩
      cases es with
      | nil => cases hes
      | cons e es => cases hes
  | case3 read key value rest hmem =>
    rw [readPairs, if_pos hmem]
    constructor
    · rintro ⟨⟩
    · rintro ⟨es, hes, rfl, hnodup⟩
      cases es with
      | nil => cases hes
      | cons e es =>
        injection hes with hkey
        rw [List.map_append, List.nodup_append] at hnodup
        exact absurd hkey (hnodup.2.2 key hmem e.1 (.head _))
  | case4 read key value rest hmem ih =>
    have hread' : ((read ++ [(key, value)]).map (·.1)).Nodup :=
      Ledger.nodup_keys_append_singleton hread hmem
    rw [readPairs, if_neg hmem, ih hread']
    constructor
    · rintro ⟨es, rfl, rfl, hnodup⟩
      exact ⟨(key, value) :: es, rfl, List.append_assoc .., hnodup⟩
    · rintro ⟨es, hes, rfl, hnodup⟩
      cases es with
      | nil => cases hes
      | cons e es =>
        rw [inTurn_cons] at hes
        injection hes with hkey hes
        injection hes with hvalue hes
        subst hkey hvalue
        exact ⟨es, hes, List.append_cons .., hnodup⟩

/-- A blob that is not empty is read exactly if its segments are keys and values in turn and no key
stands twice. -/
theorem read_eq_ok_iff {b : String} {m : Metadata} (hb : b ≠ "") :
    read (some b) = .ok m ↔ segments b = inTurn m.entries ∧ m.keys.Nodup := by
  have hpairs : ∀ es, readPairs b [] (segments b) = .ok es ↔
      segments b = inTurn es ∧ (es.map (·.1)).Nodup := by
    intro es
    rw [readPairs_eq_ok_iff (by rw [List.map_nil]; exact List.nodup_nil)]
    constructor
    · rintro ⟨fs, hfs, rfl, hnodup⟩
      exact ⟨hfs, hnodup⟩
    · rintro ⟨hes, hnodup⟩
      exact ⟨es, hes, rfl, hnodup⟩
  obtain ⟨entries⟩ := m
  rw [Ledger.keys, ← hpairs, read, if_neg hb]
  cases readPairs b [] (segments b) with
  | error fault => simp [Except.map]
  | ok es => simp [Except.map]

/-! ## Clean facts -/

/-- No part of the facts has a separator, and no key stands twice. -/
structure Clean (m : Metadata) : Prop where
  distinct : m.keys.Nodup
  unbroken : ∀ e ∈ m.entries, separator ∉ e.1.toList ∧ separator ∉ e.2.toList

theorem clean_empty : Clean {} where
  distinct := List.nodup_nil
  unbroken := by simp

/-- What is read from a blob is clean. -/
theorem clean_of_read {blob : Option String} {m : Metadata} (h : read blob = .ok m) :
    m.Clean := by
  cases blob with
  | none =>
    cases h
    exact clean_empty
  | some b =>
    rcases eq_or_ne b "" with rfl | hb
    · cases h
      exact clean_empty
    · obtain ⟨hsegments, hdistinct⟩ := (read_eq_ok_iff hb).1 h
      have hpiece : ∀ s ∈ inTurn m.entries, separator ∉ s.toList := by
        intro s hs
        rw [← hsegments] at hs
        obtain ⟨piece, hpiece, rfl⟩ := List.mem_map.1 hs
        rw [String.toList_ofList]
        exact Text.notMem_of_mem_splitOn hpiece
      refine ⟨hdistinct, fun e he => ⟨hpiece _ ?_, hpiece _ ?_⟩⟩
      · exact List.mem_flatMap.2 ⟨e, he, .head _⟩
      · exact List.mem_flatMap.2 ⟨e, he, .tail _ (.head _)⟩

/-! ## The blob of facts -/

/-- What stands in a blob: the keys and values in turn with a separator between any two. -/
theorem blob_of_ne_nil {m : Metadata} (h : m.entries ≠ []) :
    m.blob =
      some (String.ofList ([separator].intercalate ((inTurn m.entries).map String.toList))) := by
  have hparts : ∀ es : List (String × String),
      (es.flatMap fun e => [e.1.toList, e.2.toList]) = (inTurn es).map String.toList := by
    intro es
    rw [inTurn, List.map_flatMap]
    rfl
  rw [blob, if_neg (by simpa [Ledger.isEmpty] using h), hparts]

/-- Facts have no blob exactly if there are none. -/
theorem blob_eq_none_iff {m : Metadata} : m.blob = none ↔ m = {} := by
  obtain ⟨entries⟩ := m
  cases entries with
  | nil => exact iff_of_true rfl rfl
  | cons e es =>
    rw [blob_of_ne_nil (List.cons_ne_nil e es)]
    simp

/-- No blob is empty: there is a separator between a key and its value. -/
theorem separator_mem_of_blob {m : Metadata} {b : String} (h : m.blob = some b) :
    separator ∈ b.toList := by
  obtain ⟨entries⟩ := m
  cases entries with
  | nil => cases h
  | cons e es =>
    rw [blob_of_ne_nil (List.cons_ne_nil e es)] at h
    cases h
    rw [String.toList_ofList, inTurn_cons, List.map_cons, List.map_cons,
      List.intercalate_cons_cons]
    exact List.mem_append_left _ (List.mem_append_right _ (.head _))

/-- **Clean facts are read back** from their blob, in their order. -/
theorem Clean.read_blob {m : Metadata} (hm : m.Clean) : read m.blob = .ok m := by
  cases hblob : m.blob with
  | none =>
    rw [blob_eq_none_iff.1 hblob]
    rfl
  | some b =>
    have hne : m.entries ≠ [] := by
      intro he
      obtain ⟨entries⟩ := m
      cases he
      cases hblob
    have hb : b ≠ "" := by
      rintro rfl
      exact absurd (separator_mem_of_blob hblob) List.not_mem_nil
    refine (read_eq_ok_iff hb).2 ⟨?_, hm.distinct⟩
    rw [blob_of_ne_nil hne] at hblob
    cases hblob
    have hunbroken : ∀ piece ∈ (inTurn m.entries).map String.toList, separator ∉ piece := by
      intro piece hpiece
      obtain ⟨s, hs, rfl⟩ := List.mem_map.1 hpiece
      obtain ⟨e, he, hs⟩ := List.mem_flatMap.1 hs
      obtain ⟨hkey, hvalue⟩ := hm.unbroken e he
      rcases List.mem_cons.1 hs with rfl | hs
      · exact hkey
      · rw [List.mem_singleton.1 hs]
        exact hvalue
    have hparts : (inTurn m.entries).map String.toList ≠ [] := by
      rw [ne_eq, List.map_eq_nil_iff]
      exact fun h => hne (inTurn_inj h)
    rw [segments, String.toList_ofList, List.splitOn_intercalate separator hunbroken hparts,
      List.map_map]
    simp

/-- **A blob is written back** from what was read from it. -/
theorem blob_of_read {b : String} {m : Metadata} (hb : b ≠ "") (h : read (some b) = .ok m) :
    m.blob = some b := by
  obtain ⟨hsegments, -⟩ := (read_eq_ok_iff hb).1 h
  have hparts : (inTurn m.entries).map String.toList = b.toList.splitOn separator := by
    rw [← hsegments, segments, List.map_map]
    simp
  have hne : m.entries ≠ [] := by
    intro he
    rw [he] at hparts
    exact List.splitOn_ne_nil _ _ hparts.symm
  rw [blob_of_ne_nil hne, hparts, List.intercalate_splitOn, String.ofList_toList]

/-! ## What is done to facts -/

/-- What is wrong with a value that a property cannot store: its key is no key, or its text would
be broken. -/
def Refused {α : Type} (p : Property α) (a : α) : Prop :=
  p.key = "" ∨ separator ∈ p.key.toList ∨ ∃ text ∈ p.encode a, separator ∈ text.toList

instance {α : Type} (p : Property α) (a : α) : Decidable (Refused p a) :=
  inferInstanceAs (Decidable (_ ∨ _ ∨ _))

/-- Setting a property fails if the value is refused; else it changes nothing if the value has
nothing to store, and stores its text if it has one. -/
theorem set_cases {α : Type} (m : Metadata) (p : Property α) (a : α) :
    (Refused p a ∧ ∃ fault, m.set p a = .error fault) ∨
      (¬ Refused p a ∧ p.encode a = none ∧ m.set p a = .ok m) ∨
      ∃ text, ¬ Refused p a ∧ p.encode a = some text ∧ m.set p a = .ok (m.store p.key text) := by
  by_cases hkey : p.key = "" ∨ separator ∈ p.key.toList
  · refine .inl ⟨hkey.imp_right .inl, .invalidKey p.key, ?_⟩
    rw [set, if_pos hkey]
  obtain ⟨hempty, hsep⟩ := not_or.1 hkey
  cases htext : p.encode a with
  | none =>
    refine .inr (.inl ⟨?_, rfl, ?_⟩)
    · rintro (h | h | ⟨text, h, -⟩)
      · exact hempty h
      · exact hsep h
      · rw [htext] at h
        cases h
    · rw [set, if_neg hkey, htext]
  | some text =>
    by_cases hbroken : separator ∈ text.toList
    · refine .inl ⟨.inr (.inr ⟨text, htext, hbroken⟩), .invalidValue p.key text, ?_⟩
      rw [set, if_neg hkey, htext]
      exact if_pos hbroken
    · refine .inr (.inr ⟨text, ?_, rfl, ?_⟩)
      · rintro (h | h | ⟨other, h, hother⟩)
        · exact hempty h
        · exact hsep h
        · rw [htext] at h
          cases h
          exact hbroken hother
      · rw [set, if_neg hkey, htext]
        exact if_neg hbroken

/-- Facts with a text stored under a key are clean if neither has a separator. -/
theorem Clean.store {m : Metadata} (hm : m.Clean) {key text : String}
    (hkey : separator ∉ key.toList) (htext : separator ∉ text.toList) :
    Clean (m.store key text) where
  distinct := Ledger.nodup_keys_store hm.distinct
  unbroken := by
    intro e he
    rcases Ledger.mem_storeIn he with rfl | he
    · exact ⟨hkey, htext⟩
    · exact hm.unbroken e he

/-- Setting a property keeps facts clean. -/
theorem Clean.set {α : Type} {m m' : Metadata} (hm : m.Clean) {p : Property α} {a : α}
    (h : m.set p a = .ok m') : m'.Clean := by
  rcases m.set_cases p a with ⟨-, fault, hset⟩ | ⟨-, -, hset⟩ | ⟨text, hnot, htext, hset⟩
  · rw [hset] at h
    cases h
  · rw [hset] at h
    cases h
    exact hm
  · rw [hset] at h
    cases h
    exact hm.store (fun hkey => hnot (.inr (.inl hkey)))
      fun hbroken => hnot (.inr (.inr ⟨text, htext, hbroken⟩))

/-- Facts stay clean without one of them. -/
theorem Clean.unset {α : Type} {m : Metadata} (hm : m.Clean) (p : Property α) :
    (m.unset p).Clean where
  distinct := Ledger.nodup_keys_erase hm.distinct
  unbroken := fun e he => hm.unbroken e (List.mem_of_mem_filter he)

/-- What is done to facts. -/
inductive Step : Type 1 where
  /-- They are made empty. -/
  | clear
  /-- They are replaced by those of a blob, if it can be read. -/
  | parse (blob : Option String)
  /-- A property is set. -/
  | set {α : Type} (p : Property α) (a : α)
  /-- A property is removed. -/
  | unset {α : Type} (p : Property α)

/-- The facts after a step. A blob that cannot be read and a value that is refused leave them as
they are. -/
def step (m : Metadata) : Step → Metadata
  | .clear => {}
  | .parse blob =>
    match read blob with
    | .ok found => found
    | .error _ => m
  | .set p a =>
    match m.set p a with
    | .ok changed => changed
    | .error _ => m
  | .unset p => m.unset p

/-- The facts after steps one after the other. -/
def run (m : Metadata) : List Step → Metadata
  | [] => m
  | s :: steps => run (m.step s) steps

/-- A step keeps facts clean. -/
theorem Clean.step {m : Metadata} (hm : m.Clean) (s : Step) : (m.step s).Clean := by
  cases s with
  | clear => exact clean_empty
  | parse blob =>
    rw [Metadata.step]
    split
    next found h => exact clean_of_read h
    next => exact hm
  | set p a =>
    rw [Metadata.step]
    split
    next changed h => exact hm.set h
    next => exact hm
  | unset p => exact hm.unset p

/-- **Facts are clean whatever was done to them.** -/
theorem Clean.run {m : Metadata} (hm : m.Clean) (steps : List Step) : (m.run steps).Clean := by
  induction steps generalizing m with
  | nil => exact hm
  | cons s steps ih => exact ih (hm.step s)

/-- **Blobs and facts are read and written back.** Whatever was done to some facts, they are read
back from their blob, each in its place, and they have no blob only if there are none; so two such
ledgers of facts have one blob exactly if they have the same entries in the same order. And what is
read from any blob is written as this blob again, but for the empty blob, which is none. -/
theorem read_blob_run_and_blob_read (steps : List Step) :
    read (run {} steps).blob = .ok (run {} steps) ∧
      ((run {} steps).blob = none ↔ run {} steps = {}) ∧ read none = .ok {} ∧
      (∀ blob m, read blob = .ok m → m.blob = blob.filter (· ≠ "")) ∧
      ∀ others : List Step, (run {} steps).blob = (run {} others).blob ↔
        (run {} steps).entries = (run {} others).entries := by
  have hclean : ∀ steps : List Step, (run {} steps).Clean := clean_empty.run
  refine ⟨(hclean steps).read_blob, blob_eq_none_iff, rfl, fun blob m h => ?_, fun others => ?_⟩
  · cases blob with
    | none =>
      cases h
      rfl
    | some b =>
      rcases eq_or_ne b "" with rfl | hb
      · cases h
        rfl
      · rw [blob_of_read hb h, Option.filter_some, if_pos (by simpa using hb)]
  · constructor
    · intro h
      have hread := (hclean steps).read_blob
      rw [h, (hclean others).read_blob] at hread
      rw [Except.ok.inj hread]
    · intro h
      rw [blob, blob, Ledger.isEmpty, Ledger.isEmpty, h]

/-- A key that no property knows and an empty key without a value are written back in their
places. -/
theorem read_blob_run_and_blob_read_foreign :
    read (some "Foreign/payload//") = .ok ⟨[("Foreign", "payload"), ("", "")]⟩ ∧
      blob ⟨[("Foreign", "payload"), ("", "")]⟩ = some "Foreign/payload//" := by
  have hread : read (some "Foreign/payload//") = .ok ⟨[("Foreign", "payload"), ("", "")]⟩ := by
    decide +kernel
  exact ⟨hread, (read_blob_run_and_blob_read []).2.2.2.1 _ _ hread⟩

end Metadata

end DocIdent
