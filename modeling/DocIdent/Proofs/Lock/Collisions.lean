import DocIdent.Proofs.Index.Collision

/-!
# The collisions of a lock

The scan for collisions goes on after each of them. An identifier that is refused leaves the index
as it is, so the index goes on finding under each key the first identifier that had it
(`Index.Recalls`, kept by `Index.Recalls.of_held` and `Index.Recalls.of_new`). Hence every
identifier is compared with the earliest one that has its key (`Identifier.earliestIn`), and the
collisions are those of the identifiers that differ from it, in their order
(`Lock.collisionsFrom_eq_map_filter`). What this says about a whole lock is
`Lock.collisions_eq_of_earliest`.
-/

namespace DocIdent

/-- The first identifier of a list that has the key of an identifier, which is itself if none
does. -/
def Identifier.earliestIn (ds : List Identifier) (d : Identifier) : Identifier :=
  (ds.find? fun e => e.key = d.key).getD d

namespace Identifier

variable {ds : List Identifier} {d e : Identifier}

theorem find?_eq_some_earliestIn (h : d ∈ ds) :
    ds.find? (fun e => e.key = d.key) = some (earliestIn ds d) := by
  have hsome : (ds.find? fun e => e.key = d.key).isSome :=
    List.find?_isSome.2 ⟨d, h, decide_eq_true rfl⟩
  obtain ⟨first, hfind⟩ := Option.isSome_iff_exists.1 hsome
  rw [earliestIn, hfind, Option.getD_some]

/-- For an identifier of the list it stands where the key comes for the first time. -/
theorem earliestIn_split (h : d ∈ ds) :
    ∃ before after, ds = before ++ earliestIn ds d :: after ∧ (earliestIn ds d).key = d.key ∧
      ∀ e ∈ before, e.key ≠ d.key := by
  obtain ⟨hkey, before, after, hds, hbefore⟩ :=
    List.find?_eq_some_iff_append.1 (find?_eq_some_earliestIn h)
  exact ⟨before, after, hds, by simpa using hkey, by simpa using hbefore⟩

/-- Identifiers of the list with one key have one earliest identifier. -/
theorem earliestIn_congr (hd : d ∈ ds) (he : e ∈ ds) (hkey : d.key = e.key) :
    earliestIn ds d = earliestIn ds e := by
  refine Option.some.inj ?_
  rw [← find?_eq_some_earliestIn hd, hkey, find?_eq_some_earliestIn he]

end Identifier

/-! ## What the index finds during the scan -/

/-- Under each key the index finds the first identifier of a list that has it. -/
def Index.Recalls (index : Index) (ds : List Identifier) : Prop :=
  ∀ key, index.get? key = ds.find? fun d => d.key = key

namespace Index.Recalls

variable {index : Index} {before : List Identifier} {d first : Identifier}

theorem empty : Recalls {} [] := fun _ => rfl

/-- An identifier whose key is found is recalled without being taken in. -/
theorem of_held (h : index.Recalls before) (hget : index.get? d.key = some first) :
    index.Recalls (before ++ [d]) := by
  intro key
  rw [List.find?_append, ← h key, List.find?_singleton]
  by_cases hkey : d.key = key
  · rw [← hkey, hget]
    rfl
  · simp [hkey]

/-- An identifier with a new key is recalled once it is taken in. -/
theorem of_new (h : index.Recalls before) :
    Recalls ⟨index.entries ++ [(d.key, d)]⟩ (before ++ [d]) := by
  intro key
  rw [Ledger.get?_append_singleton, List.find?_append, ← h key, List.find?_singleton]
  simp only [decide_eq_true_eq]

end Index.Recalls

/-! ## The scan -/

namespace Lock

variable {index : Index} {before : List Identifier}

/-- **The scan reports each identifier that differs from the earliest one with its key**, in their
order. -/
theorem collisionsFrom_eq_map_filter (h : index.Recalls before) (ds : List Identifier) :
    collisionsFrom index ds =
      (ds.filter fun d => d.earliestIn (before ++ ds) ≠ d).map
        fun d => ⟨d.key, d.earliestIn (before ++ ds), d⟩ := by
  induction ds generalizing index before with
  | nil => rfl
  | cons d ds ih =>
    have hsplit : before ++ d :: ds = before ++ [d] ++ ds := by simp
    have hearliest : d.earliestIn (before ++ d :: ds) = (index.get? d.key).getD d := by
      rw [Identifier.earliestIn, List.find?_append, ← h d.key]
      cases index.get? d.key with
      | none => simp
      | some first => rfl
    rw [collisionsFrom]
    rcases index.offer_cases d with ⟨hnew, hoffer⟩ | ⟨hget, hoffer⟩ | ⟨first, hget, hne, hoffer⟩
    · rw [(index.get?_eq_none_iff d.key).2 hnew] at hearliest
      rw [hoffer, List.filter_cons_of_neg (by simpa using hearliest), hsplit]
      exact ih h.of_new
    · rw [hget] at hearliest
      rw [hoffer, List.filter_cons_of_neg (by simpa using hearliest), hsplit]
      exact ih (h.of_held hget)
    · rw [hget] at hearliest
      rw [hoffer, List.filter_cons_of_pos (by simpa [hearliest] using hne), List.map_cons,
        hearliest, hsplit]
      exact congrArg (_ :: ·) (ih (h.of_held hget))

/-- The collisions of a lock are those of the entries whose identifier differs from the earliest one
with its key. -/
theorem collisions_eq_map_filter (lock : Lock) :
    lock.collisions =
      (lock.entries.filter fun e =>
        e.identifier.earliestIn (lock.entries.map (·.identifier)) ≠ e.identifier).map
          fun e => ⟨e.identifier.key, e.identifier.earliestIn (lock.entries.map (·.identifier)),
            e.identifier⟩ := by
  rw [collisions, collisionsFrom_eq_map_filter Index.Recalls.empty, List.nil_append,
    List.filter_map, List.map_map]
  rfl

/-- A lock has no collisions exactly if its identifiers are apart. -/
theorem collisions_eq_nil_iff (lock : Lock) :
    lock.collisions = [] ↔ Identifier.Apart (lock.entries.map (·.identifier)) := by
  rw [collisions, collisionsFrom_eq_nil_iff, Index.sound_empty.insertEach_snd_eq_none_iff]
  rfl

/-- **What the scan of a lock reports.** In the order of the entries there is one collision for each
entry whose identifier differs from the earliest one with the same key: it is between this earliest
one and that of the entry. So there is none exactly if no two entries have different identifiers
with the same key, and an entry that is one of two such entries is named by a collision. -/
theorem collisions_eq_of_earliest (lock : Lock) :
    let ds := lock.entries.map (·.identifier)
    lock.collisions =
        (lock.entries.filter fun e => e.identifier.earliestIn ds ≠ e.identifier).map
          (fun e => ⟨e.identifier.key, e.identifier.earliestIn ds, e.identifier⟩) ∧
      (∀ e ∈ lock.entries, ∃ before after, ds = before ++ e.identifier.earliestIn ds :: after ∧
        (e.identifier.earliestIn ds).key = e.identifier.key ∧
        ∀ d ∈ before, d.key ≠ e.identifier.key) ∧
      (lock.collisions = [] ↔ ¬ ∃ e ∈ lock.entries, ∃ f ∈ lock.entries,
        e.identifier ≠ f.identifier ∧ e.identifier.key = f.identifier.key) ∧
      ∀ e ∈ lock.entries, ∀ f ∈ lock.entries, e.identifier ≠ f.identifier →
        e.identifier.key = f.identifier.key →
          ∃ c ∈ lock.collisions, c.first = e.identifier ∨ c.second = e.identifier := by
  intro ds
  have hmem : ∀ e ∈ lock.entries, e.identifier ∈ ds := fun e he => List.mem_map_of_mem he
  have hreported : ∀ e ∈ lock.entries, e.identifier.earliestIn ds ≠ e.identifier →
      ⟨e.identifier.key, e.identifier.earliestIn ds, e.identifier⟩ ∈ lock.collisions := by
    intro e he hne
    rw [collisions_eq_map_filter]
    exact List.mem_map.2 ⟨e, List.mem_filter.2 ⟨he, by simpa using hne⟩, rfl⟩
  refine ⟨lock.collisions_eq_map_filter, fun e he => Identifier.earliestIn_split (hmem e he), ?_,
    fun e he f hf hne hkey => ?_⟩
  · rw [collisions_eq_nil_iff]
    simp only [Identifier.Apart, List.forall_mem_map]
    push Not
    simp only [not_imp_not]
  · by_cases hfirst : e.identifier.earliestIn ds = e.identifier
    · have hearliest : f.identifier.earliestIn ds = e.identifier := by
        rw [← hfirst]
        exact Identifier.earliestIn_congr (hmem f hf) (hmem e he) hkey.symm
      exact ⟨_, hreported f hf (hearliest ▸ hne), .inl hearliest⟩
    · exact ⟨_, hreported e he hfirst, .inr rfl⟩

/-- A repeated identifier is reported again, unless it is the earliest with its key. -/
example :
    collisions ⟨[⟨"a", .slashedPath⟩, ⟨"b", .unit⟩, ⟨"c", .slashedPackage⟩, ⟨"d", .slashedPath⟩,
        ⟨"e", .slashedPackage⟩]⟩ =
      [⟨"a/b/c///PointingToDeclaration/", .slashedPath, .slashedPackage⟩,
        ⟨"a/b/c///PointingToDeclaration/", .slashedPath, .slashedPackage⟩] := rfl

end Lock

end DocIdent
