import DocIdent.Proofs.Index
import DocIdent.Proofs.Text.Order
import Mathlib.Data.List.Pairwise

/-!
# The order of a lock

The keys of a lock increase strictly from entry to entry (`Lock.Sorted`); the check of neighbours
says so of all entries (`Lock.corruption?_eq_none_iff`), since the order of texts is transitive. The
lock of a sound index is sorted (`Lock.sorted_ofIndex`), and entries that are sorted already keep
their places (`Lock.entries_ofIndex_of_sorted`).
-/

namespace DocIdent

namespace Lock

/-! ## Sorted entries -/

/-- The keys of entries increase strictly. -/
def Sorted (es : List LockEntry) : Prop :=
  es.Pairwise fun a b => Text.Before a.key b.key

/-- The first two of some entries are compared, and if they are in order, the others. -/
theorem corruption?_cons_cons (a b : LockEntry) (rest : List LockEntry) :
    corruption? (a :: b :: rest) =
      if Text.Before a.key b.key then corruption? (b :: rest)
      else some (.misplaced a.key b.key) := by
  have hwindows : windows 2 (a :: b :: rest) = [a, b] :: windows 2 (b :: rest) := rfl
  rw [corruption?, hwindows, List.findSome?_cons, windowCorruption?]
  by_cases hab : Text.Before a.key b.key
  · rw [if_pos hab, if_pos hab, corruption?]
  · rw [if_neg hab, if_neg hab]

/-- Entries are sorted if the first two are, and those from the second on. -/
theorem sorted_cons_cons {a b : LockEntry} {rest : List LockEntry} :
    Sorted (a :: b :: rest) ↔ Text.Before a.key b.key ∧ Sorted (b :: rest) :=
  have : IsTrans LockEntry fun a b => Text.Before a.key b.key := ⟨fun _ _ _ => Text.before_trans⟩
  List.pairwise_cons_cons_iff_of_trans

/-- **Nothing is wrong with neighbours** exactly if no two entries are out of order. -/
theorem corruption?_eq_none_iff : ∀ es : List LockEntry, corruption? es = none ↔ Sorted es
  | [] => iff_of_true rfl .nil
  | [a] => iff_of_true rfl (List.pairwise_singleton _ a)
  | a :: b :: rest => by
    rw [corruption?_cons_cons, sorted_cons_cons]
    split
    next hab => rw [corruption?_eq_none_iff (b :: rest), and_iff_right hab]
    next hab => exact iff_of_false nofun fun h => hab h.1

/-- Entries make a lock exactly if they are sorted. -/
theorem ofEntries_eq_ok_iff {es : List LockEntry} {lock : Lock} :
    ofEntries es = .ok lock ↔ Sorted es ∧ lock = ⟨es⟩ := by
  rw [← corruption?_eq_none_iff, ofEntries]
  cases corruption? es with
  | none =>
    constructor
    · rintro ⟨⟩
      exact ⟨rfl, rfl⟩
    · rintro ⟨-, rfl⟩
      rfl
  | some corruption => simp

/-- Entries make no lock exactly if something is wrong with neighbours. -/
theorem ofEntries_eq_error_iff {es : List LockEntry} {corruption : Corruption} :
    ofEntries es = .error corruption ↔ corruption? es = some corruption := by
  rw [ofEntries]
  cases corruption? es with
  | none => exact iff_of_false nofun nofun
  | some found => rw [Except.error.injEq, Option.some.injEq]

/-- Sorted entries have distinct keys. -/
theorem Sorted.nodup {es : List LockEntry} (h : Sorted es) : (es.map (·.key)).Nodup := by
  rw [List.Nodup, List.pairwise_map]
  refine h.imp fun {a b} hab heq => ?_
  rw [heq] at hab
  exact Text.before_irrefl _ hab

/-! ## The lock of an index -/

/-- The lock entries of an index, in its order. -/
def indexEntries (index : Index) : List LockEntry :=
  index.entries.map fun e => ⟨e.1, e.2⟩

@[simp]
theorem keys_indexEntries (index : Index) : (indexEntries index).map (·.key) = index.keys := by
  simp [indexEntries, Ledger.keys]

theorem mem_entries_ofIndex {index : Index} {e : LockEntry} :
    e ∈ (ofIndex index).entries ↔ (e.key, e.identifier) ∈ index.entries := by
  rw [ofIndex, List.mem_mergeSort, List.mem_map]
  constructor
  · rintro ⟨x, hx, rfl⟩
    exact hx
  · intro h
    exact ⟨_, h, rfl⟩

/-- **The lock of an index is sorted** if no key stands twice. -/
theorem sorted_ofIndex {index : Index} (h : index.keys.Nodup) :
    Sorted (ofIndex index).entries := by
  refine Text.pairwise_mergeSort LockEntry.key ?_
  rw [← indexEntries, keys_indexEntries]
  exact h

/-- Entries that are sorted keep their places. -/
theorem entries_ofIndex_of_sorted {index : Index} (h : Sorted (indexEntries index)) :
    (ofIndex index).entries = indexEntries index := by
  have hpairwise : (indexEntries index).Pairwise fun a b => Text.notAfter a.key b.key = true :=
    h.imp fun hab => Text.notAfter_iff.2 (.inl hab)
  exact List.mergeSort_of_pairwise hpairwise

end Lock

end DocIdent
