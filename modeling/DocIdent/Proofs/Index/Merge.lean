import DocIdent.Proofs.Index.Collision
import Mathlib.Data.List.Forall2

/-!
# Indexes of the parts of a list

Workers index the parts of a list on their own, and the indexes are then taken into an empty one,
one after the other, up to the first collision (`Index.mergeAll`). The index of a part lacks the
identifiers that came again, but these change nothing wherever the part is taken in
(`Index.insertEach_identifiers`). So merging the indexes of the parts does what indexing the whole
list does, down to the collision that is met (`Index.mergeAll_eq_ofList_flatten`).
-/

namespace DocIdent

namespace Index

/-- An index with others taken into it one after the other, and the collision that ended this, if
one did. -/
def mergeEach (index : Index) : List Index → Index × Option Collision
  | [] => (index, none)
  | other :: others =>
    match index.merge other with
    | (index, none) => mergeEach index others
    | (index, some collision) => (index, some collision)

/-- The index of several indexes. -/
def mergeAll (indexes : List Index) : Except Collision Index :=
  match mergeEach {} indexes with
  | (index, none) => .ok index
  | (_, some collision) => .error collision

variable {index other : Index} {part : List Identifier}

/-- An index that took in a list without a collision gives its identifiers to another index as if
it gave what it held before and then the whole list. -/
theorem insertEach_identifiers (hs : index.Sound) {held : Index} {ds : List Identifier}
    (h : insertEach held ds = (other, none)) :
    insertEach index other.identifiers = insertEach index (held.identifiers ++ ds) := by
  induction ds generalizing held with
  | nil =>
    cases h
    rw [List.append_nil]
  | cons d ds ih =>
    rw [insertEach] at h
    rcases held.offer_cases d with ⟨-, hoffer⟩ | ⟨hget, hoffer⟩ | ⟨first, -, -, hoffer⟩
    · rw [hoffer] at h
      rw [ih h]
      simp [identifiers]
    · rw [hoffer] at h
      rw [ih h]
      -- `d` came before, so the other index has it by the time it comes again
      have hd : d ∈ held.identifiers := List.mem_map_of_mem (Ledger.mem_of_get?_eq_some hget)
      rw [insertEach_append, insertEach_append]
      rcases hrun : insertEach index held.identifiers with ⟨reached, _ | collision⟩
      · have hreached : d ∈ reached.identifiers :=
          (mem_identifiers_insertEach hrun d).2 (List.mem_append_right _ hd)
        change insertEach reached ds = insertEach reached (d :: ds)
        rw [insertEach, (hs.of_insertEach hrun).offer_of_mem hreached]
      · rfl
    · rw [hoffer] at h
      cases h

/-- Merging the index of a list is taking in the list. -/
theorem merge_of_ofList (hs : index.Sound) (h : ofList part = .ok other) :
    index.merge other = insertEach index part :=
  insertEach_identifiers hs (ofList_eq_ok_iff.1 h)

/-- Merging the indexes of the parts of a list is taking in the whole list. -/
theorem mergeEach_eq_insertEach_flatten (hs : index.Sound) {parts : List (List Identifier)}
    {indexes : List Index}
    (h : List.Forall₂ (fun part index => ofList part = .ok index) parts indexes) :
    mergeEach index indexes = insertEach index parts.flatten := by
  induction h generalizing index with
  | nil => rfl
  | @cons part other parts others hpart _ ih =>
    rw [mergeEach, merge_of_ofList hs hpart, List.flatten_cons, insertEach_append]
    rcases hrun : insertEach index part with ⟨reached, _ | collision⟩
    · exact ih (hs.of_insertEach hrun)
    · rfl

/-- **Merging the indexes of the parts of a list gives the index of the list**, with the same
entries in the same order, or the same collision. A list with a part that is not indexed is not
indexed either. -/
theorem mergeAll_eq_ofList_flatten (parts : List (List Identifier)) :
    (∀ indexes, List.Forall₂ (fun part index => ofList part = .ok index) parts indexes →
        mergeAll indexes = ofList parts.flatten) ∧
      ∀ part ∈ parts, ∀ c, ofList part = .error c → ∃ c', ofList parts.flatten = .error c' := by
  constructor
  · intro indexes h
    rw [mergeAll, mergeEach_eq_insertEach_flatten sound_empty h]
    rfl
  · intro part hpart c hc
    rw [exists_ofList_error_iff]
    have hsub : part ⊆ parts.flatten := fun d hd => List.mem_flatten_of_mem hpart hd
    exact fun happart => exists_ofList_error_iff.1 ⟨c, hc⟩ (happart.mono hsub)

/-- Two parts that share an identifier, and each of which has one of two identifiers with the same
key, are indexed but do not merge. A part that has both is not indexed. -/
theorem mergeAll_eq_ofList_flatten_slashed :
    mergeAll [⟨[(Identifier.unit.key, .unit), (Identifier.slashedPath.key, .slashedPath)]⟩,
          ⟨[(Identifier.slashedPackage.key, .slashedPackage), (Identifier.unit.key, .unit)]⟩] =
        .error ⟨"a/b/c///PointingToDeclaration/", .slashedPath, .slashedPackage⟩ ∧
      ∃ c, ofList [.unit, .any, .slashedPath, .slashedPackage] = .error c := by
  constructor
  · refine ((mergeAll_eq_ofList_flatten [[.unit, .slashedPath, .unit],
      [.slashedPackage, .unit]]).1 _ (.cons rfl (.cons rfl .nil))).trans ?_
    rfl
  · exact (mergeAll_eq_ofList_flatten [[.unit, .any], [.slashedPath, .slashedPackage]]).2
      [.slashedPath, .slashedPackage] (.tail _ (.head _)) _ rfl

end Index

end DocIdent
