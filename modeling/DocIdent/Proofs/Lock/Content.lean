import DocIdent.Lock.File
import DocIdent.Proofs.Index.Collision
import DocIdent.Proofs.Lock.Order
import Mathlib.Data.List.Sort

/-!
# What a lock depends on

The lock of a list's index pins the identifiers of the list to their keys
(`Lock.mem_entries_ofIndex_of_ofList`), and its entries are sorted. Sorted entries are known by what
is among them (`Lock.Sorted.eq_of_mem_iff`), and whether a list is indexed is a matter of its
identifiers alone. So neither the order of a list nor what it repeats shows in the lock or in its
text (`Lock.ofIndex_eq_of_mem_iff`).
-/

namespace DocIdent.Lock

/-- Sorted entries are distinct. -/
theorem Sorted.nodup_entries {es : List LockEntry} (h : Sorted es) : es.Nodup :=
  h.nodup.of_map

/-- **Sorted entries are known by what is among them.** -/
theorem Sorted.eq_of_mem_iff {es fs : List LockEntry} (hes : Sorted es) (hfs : Sorted fs)
    (h : ∀ e, e ∈ es ↔ e ∈ fs) : es = fs := by
  have : Std.Asymm fun a b : LockEntry => Text.Before a.key b.key :=
    ⟨fun _ _ => asymm_of Text.Before⟩
  exact List.Pairwise.eq_of_mem_iff hes hfs h

variable {ds es : List Identifier} {index : Index}

/-- The lock of a list's index pins the identifiers of the list, each to its key, and no others. -/
theorem mem_entries_ofIndex_of_ofList (h : Index.ofList ds = .ok index) (e : LockEntry) :
    e ∈ (ofIndex index).entries ↔ ∃ d ∈ ds, e = ⟨d.key, d⟩ := by
  obtain ⟨key, d⟩ := e
  rw [mem_entries_ofIndex, Index.mem_insertEach (Index.ofList_eq_ok_iff.1 h)]
  simp

/-- The lock of a list's index is sorted. -/
theorem sorted_ofIndex_of_ofList (h : Index.ofList ds = .ok index) :
    Sorted (ofIndex index).entries :=
  sorted_ofIndex (Index.sound_of_ofList h).distinct

/-- **A lock depends only on which identifiers are pinned.** Two lists with the same identifiers
are both indexed or both stopped by a collision. If they are indexed, they have one lock, with one
text: the list of their identifiers under their keys, sorted by key and without repetition. -/
theorem ofIndex_eq_of_mem_iff (h : ∀ d, d ∈ ds ↔ d ∈ es) :
    (∃ i j, Index.ofList ds = .ok i ∧ Index.ofList es = .ok j ∧
        (ofIndex i).entries = (ofIndex j).entries ∧
        (ofIndex i).serialize = (ofIndex j).serialize ∧
        Sorted (ofIndex i).entries ∧ (ofIndex i).entries.Nodup ∧
        ∀ e, e ∈ (ofIndex i).entries ↔ ∃ d ∈ ds, e = ⟨d.key, d⟩) ∨
      ∃ c c', Index.ofList ds = .error c ∧ Index.ofList es = .error c' := by
  have hds : ds ⊆ es := fun d hd => (h d).1 hd
  have hes : es ⊆ ds := fun d hd => (h d).2 hd
  by_cases happart : Identifier.Apart ds
  · obtain ⟨i, hi⟩ := Index.exists_ofList_iff.2 happart
    obtain ⟨j, hj⟩ := Index.exists_ofList_iff.2 (happart.mono hes)
    have hentries : (ofIndex i).entries = (ofIndex j).entries := by
      refine (sorted_ofIndex_of_ofList hi).eq_of_mem_iff (sorted_ofIndex_of_ofList hj) fun e => ?_
      rw [mem_entries_ofIndex_of_ofList hi, mem_entries_ofIndex_of_ofList hj]
      simp only [h]
    have hlock : ofIndex i = ofIndex j := congrArg Lock.mk hentries
    have hsorted := sorted_ofIndex_of_ofList hi
    exact .inl ⟨i, j, hi, hj, hentries, congrArg serialize hlock, hsorted, hsorted.nodup_entries,
      mem_entries_ofIndex_of_ofList hi⟩
  · obtain ⟨c, hc⟩ := Index.exists_ofList_error_iff.2 happart
    obtain ⟨c', hc'⟩ := Index.exists_ofList_error_iff.2 fun hother => happart (hother.mono hds)
    exact .inr ⟨c, c', hc, hc'⟩

/-- Another order and repetitions give the same lock, and do not part two identifiers with one
key. -/
theorem ofIndex_eq_of_mem_iff_repeated :
    (∃ i j, Index.ofList [.unit, .any, .unit] = .ok i ∧ Index.ofList [.any, .unit] = .ok j ∧
        (ofIndex i).serialize = (ofIndex j).serialize) ∧
      ∃ c c', Index.ofList [.slashedPath, .slashedPackage] = .error c ∧
        Index.ofList [.slashedPackage, .slashedPath, .slashedPackage] = .error c' := by
  constructor
  · have hmem : ∀ d, d ∈ [Identifier.unit, .any, .unit] ↔ d ∈ [Identifier.any, .unit] := by
      simp [or_comm]
    rcases ofIndex_eq_of_mem_iff hmem with ⟨i, j, hi, hj, -, htext, -⟩ | ⟨c, -, hc, -⟩
    · exact ⟨i, j, hi, hj, htext⟩
    · exact absurd hc nofun
  · have hmem : ∀ d, d ∈ [Identifier.slashedPath, .slashedPackage] ↔
        d ∈ [Identifier.slashedPackage, .slashedPath, .slashedPackage] := by
      simp [or_comm]
    rcases ofIndex_eq_of_mem_iff hmem with ⟨i, j, hi, -⟩ | hfail
    · exact absurd (Index.exists_ofList_iff.1 ⟨i, hi⟩) Identifier.not_apart_slashed
    · exact hfail

end DocIdent.Lock
