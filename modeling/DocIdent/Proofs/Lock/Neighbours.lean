import DocIdent.Proofs.Index.Conflict
import DocIdent.Proofs.Lock.Order

/-!
# The first neighbours that are out of order

Entries are compared neighbour by neighbour, and what is wrong is said of the first two whose keys
do not increase (`Lock.FirstMisplaced`, `Lock.corruption?_eq_some_iff`): a window that is too short
to compare is never met. Since the order of texts is transitive, entries without such neighbours
increase as a whole, and since an index has no key twice, its lock is among them
(`Lock.ofEntries_iff_all_pairs`).
-/

namespace DocIdent.Lock

/-- Of the neighbours among entries whose keys do not increase, the first: up to there the entries
are sorted. -/
structure FirstMisplaced (es : List LockEntry) (a b : LockEntry) : Prop where
  neighbours : ∃ before after, es = before ++ a :: b :: after ∧ Sorted (before ++ [a])
  misplaced : a.key = b.key ∨ Text.Before b.key a.key

variable {a b x y : LockEntry} {rest es : List LockEntry} {corruption : Corruption}

/-- Keys that do not increase are equal or the other way round. -/
theorem not_before_key_iff :
    ¬ Text.Before a.key b.key ↔ a.key = b.key ∨ Text.Before b.key a.key := by
  rw [Text.not_before_iff, or_comm, eq_comm]

/-- If the first two of some entries are out of order, they are the first that are. -/
theorem firstMisplaced_cons_of_not_before (hab : ¬ Text.Before a.key b.key) :
    FirstMisplaced (a :: b :: rest) x y ↔ x = a ∧ y = b := by
  constructor
  · rintro ⟨⟨before, after, hes, hsorted⟩, -⟩
    rcases before with _ | ⟨c, _ | ⟨d, before⟩⟩
    · cases hes
      exact ⟨rfl, rfl⟩
    · cases hes
      exact absurd (sorted_cons_cons.1 hsorted).1 hab
    · cases hes
      exact absurd (sorted_cons_cons.1 hsorted).1 hab
  · rintro ⟨rfl, rfl⟩
    exact ⟨⟨[], rest, rfl, List.pairwise_singleton _ x⟩, not_before_key_iff.1 hab⟩

/-- If they are in order, the first that are not are found from the second on. -/
theorem firstMisplaced_cons_of_before (hab : Text.Before a.key b.key) :
    FirstMisplaced (a :: b :: rest) x y ↔ FirstMisplaced (b :: rest) x y := by
  constructor
  · rintro ⟨⟨before, after, hes, hsorted⟩, hxy⟩
    cases before with
    | nil =>
      cases hes
      exact absurd hab (not_before_key_iff.2 hxy)
    | cons c before =>
      rw [List.cons_append] at hes hsorted
      obtain ⟨rfl, hrest⟩ := List.cons.inj hes
      exact ⟨⟨before, after, hrest, (List.pairwise_cons.1 hsorted).2⟩, hxy⟩
  · rintro ⟨⟨before, after, hes, hsorted⟩, hxy⟩
    refine ⟨⟨a :: before, after, congrArg (a :: ·) hes, ?_⟩, hxy⟩
    cases before with
    | nil =>
      obtain ⟨rfl, -⟩ := List.cons.inj hes
      exact sorted_cons_cons.2 ⟨hab, hsorted⟩
    | cons c before =>
      obtain ⟨rfl, -⟩ := List.cons.inj hes
      exact sorted_cons_cons.2 ⟨hab, hsorted⟩

/-- **What is wrong with entries** is that two neighbours are out of order, and it is said of the
first who are. -/
theorem corruption?_eq_some_iff : ∀ es : List LockEntry, corruption? es = some corruption ↔
    ∃ a b, FirstMisplaced es a b ∧ corruption = .misplaced a.key b.key
  | [] => by
    refine iff_of_false nofun ?_
    rintro ⟨x, y, ⟨⟨_ | ⟨_, _⟩, _, ⟨⟩, -⟩, -⟩, -⟩
  | [a] => by
    refine iff_of_false nofun ?_
    rintro ⟨x, y, ⟨⟨_ | ⟨_, _ | ⟨_, _⟩⟩, _, ⟨⟩, -⟩, -⟩, -⟩
  | a :: b :: rest => by
    rw [corruption?_cons_cons]
    split
    next hab =>
      simp only [corruption?_eq_some_iff (b :: rest), firstMisplaced_cons_of_before hab]
    next hab =>
      simp only [firstMisplaced_cons_of_not_before hab]
      constructor
      · rintro ⟨⟩
        exact ⟨a, b, ⟨rfl, rfl⟩, rfl⟩
      · rintro ⟨_, _, ⟨rfl, rfl⟩, rfl⟩
        rfl

/-- Keys out of order are not reported as a window that is too short. -/
theorem message_misplaced_ne (key next : String) :
    (Corruption.misplaced key next).message ≠ "window shorter than two entries" := by
  intro h
  have htext : "entries not sorted: `" ++ key ++ "` >= `" ++ next ++ "`" =
    "window shorter than two entries" := h
  have hfirst : "entries not sorted: `".toList.head? = some 'e' := by decide
  have hother : "window shorter than two entries".toList.head? = some 'w' := by decide
  rw [← htext] at hother
  simp only [String.toList_append, List.head?_append, hfirst, Option.some_or] at hother
  cases hother

/-- **The comparison of neighbours says how all entries are ordered.** Entries make a lock exactly
if every key comes before each key after it, so no key stands twice. If they make none, the reason
names the first two neighbours whose keys are equal or the other way round, and is never that there
was too little to compare. The lock of every index that a run can come to is accepted as it is. -/
theorem ofEntries_iff_all_pairs (es : List LockEntry) :
    (∀ lock, ofEntries es = .ok lock ↔ lock = ⟨es⟩ ∧
      ∀ (i j : Nat) (_ : i < es.length) (_ : j < es.length), i < j →
        Text.Before es[i].key es[j].key) ∧
      (∀ lock, ofEntries es = .ok lock → (es.map (·.key)).Nodup) ∧
      (∀ corruption, ofEntries es = .error corruption ↔ ∃ a b, FirstMisplaced es a b ∧
        corruption = .misplaced a.key b.key ∧
        corruption.message = "entries not sorted: `" ++ a.key ++ "` >= `" ++ b.key ++ "`") ∧
      (∀ corruption, ofEntries es = .error corruption →
        corruption ≠ .shortWindow ∧ corruption.message ≠ "window shorter than two entries") ∧
      ∀ index : Index, index.Reachable →
        ofEntries (ofIndex index).entries = .ok (ofIndex index) := by
  refine ⟨fun lock => ?_, fun lock h => (ofEntries_eq_ok_iff.1 h).1.nodup, fun corruption => ?_,
    fun corruption h => ?_, fun index hindex => ?_⟩
  · rw [ofEntries_eq_ok_iff, and_comm, Sorted, List.pairwise_iff_getElem]
  · rw [ofEntries_eq_error_iff, corruption?_eq_some_iff]
    refine exists₂_congr fun a b => and_congr_right fun _ => ⟨?_, And.left⟩
    rintro rfl
    exact ⟨rfl, rfl⟩
  · obtain ⟨a, b, -, rfl⟩ := (corruption?_eq_some_iff es).1 (ofEntries_eq_error_iff.1 h)
    exact ⟨nofun, message_misplaced_ne a.key b.key⟩
  · exact ofEntries_eq_ok_iff.2
      ⟨sorted_ofIndex (Index.reachable_iff_sound.1 hindex).distinct, rfl⟩

/-- Of four entries the third is out of order, and the fourth repeats it. An index that was given
its identifiers in another order has a lock that is in order, with both of them. -/
theorem ofEntries_iff_all_pairs_repeated :
    ofEntries [⟨"a", .unit⟩, ⟨"c", .any⟩, ⟨"b", .unit⟩, ⟨"b", .any⟩] =
        .error (.misplaced "c" "b") ∧
      Index.Reachable ⟨[(Identifier.unit.key, .unit), (Identifier.any.key, .any)]⟩ ∧
      ofEntries (ofIndex ⟨[(Identifier.unit.key, .unit), (Identifier.any.key, .any)]⟩).entries =
        .ok ⟨[⟨"kotlin/Any///PointingToDeclaration/", .any⟩,
          ⟨"kotlin/Unit///PointingToDeclaration/", .unit⟩]⟩ := by
  have hfirst : FirstMisplaced [⟨"a", .unit⟩, ⟨"c", .any⟩, ⟨"b", .unit⟩, ⟨"b", .any⟩]
      ⟨"c", .any⟩ ⟨"b", .unit⟩ :=
    ⟨⟨[⟨"a", .unit⟩], [⟨"b", .any⟩], rfl,
      sorted_cons_cons.2 ⟨by decide, List.pairwise_singleton _ _⟩⟩, .inr (by decide)⟩
  have hindex : Index.Reachable ⟨[(Identifier.unit.key, .unit), (Identifier.any.key, .any)]⟩ :=
    ⟨[.insert "" .unit, .insert "" .any], "", rfl⟩
  have hlock : ofIndex ⟨[(Identifier.unit.key, .unit), (Identifier.any.key, .any)]⟩ =
      ⟨[⟨"kotlin/Any///PointingToDeclaration/", .any⟩,
        ⟨"kotlin/Unit///PointingToDeclaration/", .unit⟩]⟩ := by
    have horder : Text.notAfter Identifier.unit.key Identifier.any.key = false := by decide
    simp [ofIndex, List.mergeSort, horder]
    decide
  rw [← hlock]
  exact ⟨((ofEntries_iff_all_pairs _).2.2.1 _).2 ⟨_, _, hfirst, rfl, rfl⟩, hindex,
    (ofEntries_iff_all_pairs []).2.2.2.2 _ hindex⟩

end DocIdent.Lock
