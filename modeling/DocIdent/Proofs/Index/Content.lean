import DocIdent.Proofs.Index.Collision
import Mathlib.Data.List.Induction

/-!
# The index of a list

As long as indexing a list goes on, the index holds what came so far, each identifier where it first
came (`Index.firsts`, `Index.eq_firsts_of_insertEach`). So what it finds under a key is the first
identifier of the list that has it (`Index.get?_firsts`), and what stops it is the first identifier
that finds another one under its key (`Index.insertEach_eq_some_iff`). Whether a list is indexed, as
what, and which of its collisions is reported if it is not, follows from these
(`Index.ofList_eq_firsts_or_first_collision`).
-/

namespace DocIdent.Index

variable {index index' : Index} {ds : List Identifier} {c : Collision}

/-! ## Each identifier where it first came -/

/-- The index that holds each identifier of a list where it first came. -/
def firsts (ds : List Identifier) : Index :=
  ⟨ds.eraseDups.map fun d => (d.key, d)⟩

/-- It holds the identifiers of the list, each under its key. -/
theorem mem_entries_firsts {e : String × Identifier} :
    e ∈ (firsts ds).entries ↔ ∃ d ∈ ds, (d.key, d) = e := by
  simp only [firsts, List.mem_map, List.mem_eraseDups]

/-- An identifier at the end of a list stands at the end of the index, unless it came before. -/
theorem firsts_append_singleton (ds : List Identifier) (d : Identifier) :
    firsts (ds ++ [d]) = if d ∈ ds then firsts ds else ⟨(firsts ds).entries ++ [(d.key, d)]⟩ := by
  by_cases h : d ∈ ds
  · have hgone : [d].removeAll ds = [] := by simp [List.removeAll, h]
    rw [if_pos h, firsts, List.eraseDups_append, hgone, List.eraseDups_nil, List.append_nil, firsts]
  · have hkept : [d].removeAll ds = [d] := by simp [List.removeAll, h]
    rw [if_neg h, firsts, List.eraseDups_append, hkept, List.map_append]
    rfl

/-- **Under a key stands the first identifier of the list that has it.** -/
@[simp] theorem get?_firsts (ds : List Identifier) (key : String) :
    (firsts ds).get? key = ds.find? fun d => d.key = key := by
  induction ds using List.reverseRecOn with
  | nil => rfl
  | append_singleton ds d ih =>
    rw [firsts_append_singleton, List.find?_append, ← ih]
    split
    next hd =>
      cases hget : (firsts ds).get? key with
      | some first => rfl
      | none =>
        -- `d` came before, so nothing under the key says that `d` has another one
        rw [hget] at ih
        have hne : ¬ d.key = key := by simpa using List.find?_eq_none.1 ih.symm d hd
        simp [hne]
    next =>
      rw [Ledger.get?_append_singleton, List.find?_singleton]
      simp only [decide_eq_true_eq]

/-! ## Taking in a list -/

/-- **A list that is taken in to its end leaves each identifier where it first came.** -/
theorem eq_firsts_of_insertEach (h : insertEach {} ds = (index, none)) : index = firsts ds := by
  induction ds using List.reverseRecOn generalizing index with
  | nil =>
    cases h
    rfl
  | append_singleton ds d ih =>
    rw [insertEach_append] at h
    rcases hrun : insertEach {} ds with ⟨inner, _ | collision⟩
    · rw [hrun] at h
      change insertEach inner [d] = (index, none) at h
      rw [insertEach] at h
      obtain rfl := ih hrun
      rw [firsts_append_singleton]
      rcases (firsts ds).offer_cases d with ⟨hnew, hoffer⟩ | ⟨hget, hoffer⟩ | ⟨first, -, -, hoffer⟩
      · rw [hoffer] at h
        cases h
        rw [if_neg fun hd => hnew (List.mem_map_of_mem (mem_entries_firsts.2 ⟨d, hd, rfl⟩))]
      · rw [hoffer] at h
        cases h
        obtain ⟨e, he, heq⟩ := mem_entries_firsts.1 (Ledger.mem_of_get?_eq_some hget)
        rw [if_pos ((Prod.mk.inj heq).2 ▸ he)]
      · rw [hoffer] at h
        cases h
    · rw [hrun] at h
      cases h

/-- A collision is met at the first identifier that is kept out of the index of those before it. -/
theorem insertEach_eq_some_iff :
    insertEach index ds = (index', some c) ↔
      ∃ before d after, ds = before ++ d :: after ∧ insertEach index before = (index', none) ∧
        index'.offer d = (index', .error c) := by
  constructor
  · intro h
    induction ds generalizing index with
    | nil => cases h
    | cons x ds ih =>
      rw [insertEach] at h
      rcases hoffer : index.offer x with ⟨inner, collision | isNew⟩
      · rw [hoffer] at h
        cases h
        obtain ⟨rfl, -⟩ := offer_eq_error_iff.1 hoffer
        exact ⟨[], x, ds, rfl, rfl, hoffer⟩
      · rw [hoffer] at h
        obtain ⟨before, d, after, rfl, hbefore, hd⟩ := ih h
        refine ⟨x :: before, d, after, rfl, ?_, hd⟩
        rw [insertEach, hoffer]
        exact hbefore
  · rintro ⟨before, d, after, rfl, hbefore, hd⟩
    rw [insertEach_append, hbefore]
    show insertEach index' (d :: after) = (index', some c)
    rw [insertEach, hd]

/-! ## Indexing a list -/

/-- A list is not indexed exactly if a collision is met. -/
theorem ofList_eq_error_iff :
    ofList ds = .error c ↔ ∃ inner, insertEach {} ds = (inner, some c) := by
  rw [ofList]
  rcases insertEach {} ds with ⟨inner, _ | collision⟩
  · simp
  · simp

/-- **A list of identifiers that are apart is indexed** as what it has, each where it first
came. -/
theorem ofList_eq_ok_iff_apart :
    ofList ds = .ok index ↔ Identifier.Apart ds ∧ index = firsts ds := by
  constructor
  · intro h
    exact ⟨exists_ofList_iff.1 ⟨index, h⟩, eq_firsts_of_insertEach (ofList_eq_ok_iff.1 h)⟩
  · rintro ⟨happart, rfl⟩
    obtain ⟨inner, h⟩ := exists_ofList_iff.2 happart
    rw [h, eq_firsts_of_insertEach (ofList_eq_ok_iff.1 h)]

/-- **The collision that is reported** is between the first identifier that is not apart from those
before it, and the first one that has its key. -/
theorem ofList_eq_error_iff_first :
    ofList ds = .error c ↔
      ∃ before after, ds = before ++ c.second :: after ∧ Identifier.Apart before ∧
        before.find? (fun d => d.key = c.key) = some c.first ∧ c.first ≠ c.second ∧
        c.key = c.second.key := by
  simp only [ofList_eq_error_iff, insertEach_eq_some_iff, ← ofList_eq_ok_iff,
    ofList_eq_ok_iff_apart, offer_eq_error_iff, true_and]
  constructor
  · rintro ⟨_, before, d, after, rfl, ⟨happart, rfl⟩, first, hfirst, hne, rfl⟩
    rw [get?_firsts] at hfirst
    exact ⟨before, after, rfl, happart, hfirst, hne, rfl⟩
  · rintro ⟨before, after, rfl, happart, hfirst, hne, hkey⟩
    refine ⟨_, before, c.second, after, rfl, ⟨happart, rfl⟩, c.first, ?_, hne, ?_⟩
    · rw [get?_firsts, ← hkey]
      exact hfirst
    · rw [← hkey]

/-- **What indexing a list gives.** It fails exactly if two identifiers of the list differ and share
a key. If it does not, the index has the identifiers of the list in their order, each under its key,
and without those that came before. If it does, the collision has for its second identifier the
first one in the list that differs from one before it with the same key, and for its first one the
first with that key. -/
theorem ofList_eq_firsts_or_first_collision (ds : List Identifier) :
    ((∃ c, ofList ds = .error c) ↔ ∃ d ∈ ds, ∃ e ∈ ds, d ≠ e ∧ d.key = e.key) ∧
      (∀ index, ofList ds = .ok index → index.entries = ds.eraseDups.map fun d => (d.key, d)) ∧
      ∀ c, ofList ds = .error c ↔
        ∃ before after, ds = before ++ c.second :: after ∧
          (∀ d ∈ before, ∀ e ∈ before, d.key = e.key → d = e) ∧
          before.find? (fun d => d.key = c.key) = some c.first ∧ c.first ≠ c.second ∧
          c.key = c.second.key := by
  refine ⟨?_, fun index h => ?_, fun c => ofList_eq_error_iff_first⟩
  · rw [exists_ofList_error_iff, Identifier.Apart]
    push Not
    simp only [and_comm]
  · rw [(ofList_eq_ok_iff_apart.1 h).2, firsts]

/-- Repetitions are left out, and the collision is between the first identifier that has the key and
the first other one. -/
example :
    ofList [.unit, .slashedPath, .unit] =
        .ok ⟨[(Identifier.unit.key, .unit), (Identifier.slashedPath.key, .slashedPath)]⟩ ∧
      ofList [.slashedPath, .unit, .slashedPath, .slashedPackage, .unit] =
        .error ⟨"a/b/c///PointingToDeclaration/", .slashedPath, .slashedPackage⟩ := by
  decide

end DocIdent.Index
