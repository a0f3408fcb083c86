import DocIdent.Lock.Freshness
import DocIdent.Proofs.Ledger

/-!
# What an index holds

An index holds each identifier under its own key, and no key twice (`Index.Sound`). An identifier
that is offered goes to the end, or is there already, or is kept out by another one
(`Index.offer_cases`); only the first of these changes the index (`Index.offer_fst_of_not_new`), and
it keeps the index sound. What every offer keeps, a list that is taken in keeps
(`Index.insertEach_keeps`), be it that the index is sound (`Index.Sound.insertEach`) or that what it
held keeps its place (`Index.entries_prefix_insertEach`), also if there is a collision. If there is
none, the index holds what it held before and the identifiers of the list, and nothing else
(`Index.mem_insertEach`). Identifiers with distinct new keys are held in their order
(`Index.insertEach_of_nodup`). A list is taken in piece by piece (`Index.insertEach_append`). A scan
that goes on after a collision finds none exactly if there is none to stop at
(`Lock.collisionsFrom_eq_nil_iff`).
-/

namespace DocIdent

namespace Index

/-- No key stands twice, and each is that of its identifier. -/
structure Sound (index : Index) : Prop where
  distinct : index.keys.Nodup
  keyed : ∀ e ∈ index.entries, e.1 = e.2.key

/-- An index with nothing in it is sound. -/
theorem sound_empty : Sound {} where
  distinct := List.nodup_nil
  keyed := by simp

variable {index index' : Index} {d : Identifier} {ds : List Identifier}

/-- The keys of a sound index are those of its identifiers. -/
theorem Sound.keys_eq (hs : index.Sound) : index.keys = index.identifiers.map Identifier.key := by
  rw [Ledger.keys, identifiers, List.map_map]
  exact List.map_congr_left hs.keyed

/-- A sound index holds each of its identifiers under its key. -/
theorem Sound.mem_entries_iff (hs : index.Sound) :
    (d.key, d) ∈ index.entries ↔ d ∈ index.identifiers := by
  constructor
  · intro h
    exact List.mem_map_of_mem h
  · intro h
    obtain ⟨e, he, rfl⟩ := List.mem_map.1 h
    rw [← hs.keyed e he]
    exact he

/-! ## One identifier -/

/-- An identifier with a new key goes to the end. -/
theorem offer_of_notMem (h : d.key ∉ index.keys) :
    index.offer d = (⟨index.entries ++ [(d.key, d)]⟩, .ok true) := by
  rw [offer, (index.get?_eq_none_iff d.key).2 h]

/-- An identifier that is found under its key changes nothing. -/
theorem offer_of_get?_eq_some (h : index.get? d.key = some d) :
    index.offer d = (index, .ok false) := by
  rw [offer, h]
  exact congrArg (index, ·) (if_pos rfl)

/-- An identifier is kept out by another one that is found under its key, which changes nothing. -/
theorem offer_of_ne {first : Identifier} (h : index.get? d.key = some first) (hne : first ≠ d) :
    index.offer d = (index, .error ⟨d.key, first, d⟩) := by
  rw [offer, h]
  exact congrArg (index, ·) (if_neg hne)

/-- **What comes of an identifier that is offered to an index**: it goes to the end under a new key,
or it was there before, or another one has its key. -/
theorem offer_cases (index : Index) (d : Identifier) :
    (d.key ∉ index.keys ∧ index.offer d = (⟨index.entries ++ [(d.key, d)]⟩, .ok true)) ∨
      (index.get? d.key = some d ∧ index.offer d = (index, .ok false)) ∨
      ∃ first, index.get? d.key = some first ∧ first ≠ d ∧
        index.offer d = (index, .error ⟨d.key, first, d⟩) := by
  cases hget : index.get? d.key with
  | none =>
    have hnew : d.key ∉ index.keys := (index.get?_eq_none_iff d.key).1 hget
    exact .inl ⟨hnew, offer_of_notMem hnew⟩
  | some first =>
    by_cases hfirst : first = d
    · subst hfirst
      exact .inr (.inl ⟨rfl, offer_of_get?_eq_some hget⟩)
    · exact .inr (.inr ⟨first, rfl, hfirst, offer_of_ne hget hfirst⟩)

/-- An identifier that is there changes nothing. -/
theorem Sound.offer_of_mem (hs : index.Sound) (h : d ∈ index.identifiers) :
    index.offer d = (index, .ok false) :=
  offer_of_get?_eq_some (Ledger.get?_eq_some_of_mem hs.distinct (hs.mem_entries_iff.2 h))

/-- **Nothing changes unless the identifier is new**, be it that the identifier was there or that it
was kept out. -/
theorem offer_fst_of_not_new (h : (index.offer d).2 ≠ .ok true) : (index.offer d).1 = index := by
  rcases index.offer_cases d with ⟨-, hoffer⟩ | ⟨-, hoffer⟩ | ⟨first, -, -, hoffer⟩
  · rw [hoffer] at h
    exact absurd rfl h
  · rw [hoffer]
  · rw [hoffer]

/-- An identifier is kept out exactly if another one is found under its key, and the index is then
left as it was. -/
theorem offer_eq_error_iff {c : Collision} :
    index.offer d = (index', .error c) ↔ index' = index ∧
      ∃ first, index.get? d.key = some first ∧ first ≠ d ∧ c = ⟨d.key, first, d⟩ := by
  constructor
  · intro h
    rcases index.offer_cases d with ⟨-, hoffer⟩ | ⟨-, hoffer⟩ | ⟨first, hget, hne, hoffer⟩
    · cases hoffer.symm.trans h
    · cases hoffer.symm.trans h
    · cases hoffer.symm.trans h
      exact ⟨rfl, first, hget, hne, rfl⟩
  · rintro ⟨rfl, first, hget, hne, rfl⟩
    exact offer_of_ne hget hne

/-- An insertion that succeeds answers with the index that is left. -/
theorem insert_eq_ok_iff {isNew : Bool} :
    index.insert d = .ok (index', isNew) ↔ index.offer d = (index', .ok isNew) := by
  rw [insert]
  rcases index.offer d with ⟨left, collision | answer⟩
  all_goals simp [Except.map]

/-- An index to which an identifier is offered stays sound. -/
theorem Sound.offer (hs : index.Sound) (d : Identifier) : (index.offer d).1.Sound := by
  rcases index.offer_cases d with ⟨hnew, hoffer⟩ | ⟨-, hoffer⟩ | ⟨first, -, -, hoffer⟩
  · rw [hoffer]
    refine ⟨Ledger.nodup_keys_append_singleton hs.distinct hnew, fun e he => ?_⟩
    rcases List.mem_append.1 he with he | he
    · exact hs.keyed e he
    · obtain rfl := List.mem_singleton.1 he
      rfl
  · rwa [hoffer]
  · rwa [hoffer]

/-- What was there stays in its place. -/
theorem entries_prefix_offer (index : Index) (d : Identifier) :
    index.entries <+: (index.offer d).1.entries := by
  rcases index.offer_cases d with ⟨-, hoffer⟩ | ⟨-, hoffer⟩ | ⟨first, -, -, hoffer⟩
  · rw [hoffer]
    exact List.prefix_append _ _
  · exact hoffer ▸ List.prefix_rfl
  · exact hoffer ▸ List.prefix_rfl

/-! ## One after the other -/

/-- A list is taken in piece by piece, up to the first collision. -/
theorem insertEach_append (xs ys : List Identifier) :
    insertEach index (xs ++ ys) =
      match insertEach index xs with
      | (inner, none) => insertEach inner ys
      | (inner, some collision) => (inner, some collision) := by
  induction xs generalizing index with
  | nil => rfl
  | cons d xs ih =>
    rw [List.cons_append, insertEach, insertEach]
    rcases index.offer d with ⟨inner, collision | isNew⟩
    · rfl
    · exact ih

/-- What holds whatever is offered to an index holds after a list was taken in, also if there was a
collision. -/
theorem insertEach_keeps {P : Index → Prop} (hoffer : ∀ inner d, P inner → P (inner.offer d).1)
    (h : P index) : P (insertEach index ds).1 := by
  induction ds generalizing index with
  | nil => exact h
  | cons d ds ih =>
    have hstep := hoffer index d h
    rw [insertEach]
    rcases hrun : index.offer d with ⟨inner, collision | isNew⟩
    · rwa [hrun] at hstep
    · rw [hrun] at hstep
      exact ih hstep

/-- **Taking in identifiers leaves what was there in its place**, also if there is a collision. -/
theorem entries_prefix_insertEach : index.entries <+: (insertEach index ds).1.entries :=
  insertEach_keeps (P := fun inner => index.entries <+: inner.entries)
    (fun inner d hkept => hkept.trans (entries_prefix_offer inner d)) List.prefix_rfl

/-- Taking in identifiers keeps an index sound, also if there is a collision. -/
theorem Sound.insertEach (hs : index.Sound) : (insertEach index ds).1.Sound :=
  insertEach_keeps (fun _ d hinner => hinner.offer d) hs

/-- The index that is left when identifiers were taken in is sound. -/
theorem Sound.of_insertEach (hs : index.Sound) {ending : Option Collision}
    (h : Index.insertEach index ds = (index', ending)) : index'.Sound := by
  have hsound : (Index.insertEach index ds).1.Sound := hs.insertEach
  rwa [h] at hsound

/-- **An index holds what is taken in**, and nothing else, if there is no collision. -/
theorem mem_insertEach (h : insertEach index ds = (index', none)) (e : String × Identifier) :
    e ∈ index'.entries ↔ e ∈ index.entries ∨ ∃ d ∈ ds, e = (d.key, d) := by
  induction ds generalizing index with
  | nil =>
    cases h
    simp
  | cons d ds ih =>
    rw [insertEach] at h
    rcases index.offer_cases d with ⟨-, hoffer⟩ | ⟨hget, hoffer⟩ | ⟨first, -, -, hoffer⟩
    · rw [hoffer] at h
      rw [ih h]
      simp [or_assoc]
    · rw [hoffer] at h
      have hheld : (d.key, d) ∈ index.entries := Ledger.mem_of_get?_eq_some hget
      rw [ih h]
      constructor
      · rintro (he | ⟨x, hx, rfl⟩)
        · exact .inl he
        · exact .inr ⟨x, .tail _ hx, rfl⟩
      · rintro (he | ⟨x, hx, rfl⟩)
        · exact .inl he
        · rcases List.mem_cons.1 hx with rfl | hx
          · exact .inl hheld
          · exact .inr ⟨x, hx, rfl⟩
    · rw [hoffer] at h
      cases h

/-- Identifiers with distinct new keys go to the end one after the other. -/
theorem insertEach_of_nodup (h : (index.keys ++ ds.map Identifier.key).Nodup) :
    insertEach index ds = (⟨index.entries ++ ds.map fun d => (d.key, d)⟩, none) := by
  induction ds generalizing index with
  | nil => simp [insertEach]
  | cons d ds ih =>
    have hnew : d.key ∉ index.keys := by
      intro hmem
      exact (List.nodup_append.1 h).2.2 d.key hmem d.key (by simp) rfl
    rw [insertEach, offer_of_notMem hnew]
    refine (ih ?_).trans ?_
    · simpa [Ledger.keys] using h
    · simp

/-! ## A whole list -/

/-- A list is indexed exactly if it is taken in to its end. -/
theorem ofList_eq_ok_iff : ofList ds = .ok index ↔ insertEach {} ds = (index, none) := by
  rw [ofList]
  split
  next inner h =>
    rw [h]
    constructor
    · rintro ⟨⟩
      rfl
    · rintro ⟨⟩
      rfl
  next inner collision h =>
    rw [h]
    constructor
    · rintro ⟨⟩
    · rintro ⟨⟩

/-- The index of a list is sound. -/
theorem sound_of_ofList (h : ofList ds = .ok index) : index.Sound :=
  sound_empty.of_insertEach (ofList_eq_ok_iff.1 h)

end Index

/-- The scan of a lock finds no collision exactly if none stops an index that takes in the same
identifiers. -/
theorem Lock.collisionsFrom_eq_nil_iff (index : Index) (ds : List Identifier) :
    collisionsFrom index ds = [] ↔ (index.insertEach ds).2 = none := by
  induction ds generalizing index with
  | nil => simp [collisionsFrom, Index.insertEach]
  | cons d ds ih =>
    rw [collisionsFrom, Index.insertEach]
    rcases index.offer d with ⟨inner, collision | isNew⟩
    · simp
    · exact ih inner

end DocIdent
