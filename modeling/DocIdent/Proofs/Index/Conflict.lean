import DocIdent.Proofs.Index.Content
import DocIdent.Proofs.Index.Merge
import DocIdent.Proofs.Index.Shelf

/-!
# Where a merge stops

An index is taken into another entry by entry. As long as nothing else is held under the keys of the
entries (`Index.Agrees`), each is there already or goes to the end (`Index.Sound.merge_of_agrees`).
The first entry under whose key something else is held ends the merge, and what came before it stays
(`Index.Sound.merge_cases`). Merging several indexes one after the other is taking in all of their
identifiers, so neither whether this goes well nor what the index then holds is a matter of their
order (`Index.mergeEach_of_perm`). `Index.merge_of_reachable` puts this together for the indexes
that a run can come to, which are the sound ones (`Index.reachable_iff_sound`).
-/

namespace DocIdent.Index

variable {index other : Index} {es : List (String × Identifier)}

/-! ## The indexes that there are -/

/-- The index stands on a shelf after some run. -/
def Reachable (index : Index) : Prop :=
  ∃ steps name, Shelf.empty.run steps name = index

/-- A sound index is that of its own identifiers. -/
theorem Sound.ofList_identifiers (hs : index.Sound) : ofList index.identifiers = .ok index := by
  have hentries : index.identifiers.map (fun d => (d.key, d)) = index.entries := by
    rw [identifiers, List.map_map]
    refine (List.map_congr_left fun e he => ?_).trans (List.map_id _)
    show (e.2.key, e.2) = e
    rw [← hs.keyed e he]
  have hdistinct : (Ledger.keys ({} : Index) ++ index.identifiers.map Identifier.key).Nodup := by
    rw [← hs.keys_eq]
    exact hs.distinct
  rw [ofList_eq_ok_iff, insertEach_of_nodup hdistinct, hentries]
  rfl

/-- **The indexes that a run can come to are the sound ones.** -/
theorem reachable_iff_sound : index.Reachable ↔ index.Sound := by
  constructor
  · rintro ⟨steps, name, rfl⟩
    exact Shelf.sound_empty.run steps name
  · intro hs
    refine ⟨[.build "" index.identifiers], "", ?_⟩
    rw [Shelf.run, Shelf.run, Shelf.step, Shelf.Step.name, Function.update_self, Shelf.indexAfter,
      hs.ofList_identifiers]

/-- Some of the entries of a sound index make a sound index. -/
theorem Sound.sublist (hs : index.Sound) (h : es.Sublist index.entries) : Sound ⟨es⟩ where
  distinct := hs.distinct.sublist (h.map _)
  keyed := fun e he => hs.keyed e (h.subset he)

/-! ## One merge -/

/-- Under the keys of another index nothing else is held. -/
def Agrees (index other : Index) : Prop :=
  ∀ e ∈ other.entries, ∀ d, index.get? e.1 = some d → d = e.2

/-- The entries of another index under keys that are not held, in their order. -/
def additions (index other : Index) : List (String × Identifier) :=
  other.entries.filter fun e => e.1 ∉ index.keys

/-- An index that took in one more key agrees with another as before, if the other does not have
this key. -/
theorem Agrees.append_singleton (h : index.Agrees other) {e : String × Identifier}
    (hnew : e.1 ∉ other.keys) : Agrees ⟨index.entries ++ [e]⟩ other := by
  intro f hf d hd
  have hne : e.1 ≠ f.1 := fun heq => hnew (heq ▸ List.mem_map_of_mem hf)
  rw [Ledger.get?_append_singleton, if_neg hne, Option.or_none] at hd
  exact h f hf d hd

/-- Neither does such a key change what the other one adds. -/
theorem additions_append_singleton {e : String × Identifier} (hnew : e.1 ∉ other.keys) :
    additions ⟨index.entries ++ [e]⟩ other = index.additions other := by
  refine List.filter_congr fun f hf => ?_
  have hne : f.1 ≠ e.1 := by
    intro heq
    exact hnew (heq ▸ List.mem_map_of_mem hf)
  refine decide_eq_decide.2 (not_congr ?_)
  rw [Ledger.keys, List.map_append, List.mem_append, List.map_singleton, List.mem_singleton,
    or_iff_left hne, Ledger.keys]

/-- **An index that agrees is merged to its end**, and what it adds goes to the end. -/
theorem Sound.merge_of_agrees (hother : other.Sound) (h : index.Agrees other) :
    index.merge other = (⟨index.entries ++ index.additions other⟩, none) := by
  obtain ⟨es⟩ := other
  induction es generalizing index with
  | nil =>
    rw [additions, List.filter_nil, List.append_nil]
    rfl
  | cons e es ih =>
    have hsound : Sound ⟨es⟩ := hother.sublist (List.sublist_cons_self e es)
    have hrest : index.Agrees ⟨es⟩ := fun f hf => h f (.tail _ hf)
    have hkey : e.2.key = e.1 := (hother.keyed e (.head _)).symm
    have hnew : e.1 ∉ Ledger.keys (⟨es⟩ : Index) := (List.nodup_cons.1 hother.distinct).1
    change Index.insertEach index (e.2 :: es.map (·.2)) = _
    rw [Index.insertEach]
    cases hget : index.get? e.1 with
    | none =>
      have hnot : e.1 ∉ index.keys := (index.get?_eq_none_iff e.1).1 hget
      rw [offer_of_notMem (hkey ▸ hnot), hkey]
      refine (ih hsound (hrest.append_singleton hnew)).trans ?_
      rw [additions_append_singleton hnew, additions, additions,
        List.filter_cons_of_pos (by simpa using hnot), List.append_assoc]
      rfl
    | some d =>
      obtain rfl : d = e.2 := h e (.head _) d hget
      have hheld : e.1 ∈ index.keys := List.mem_map_of_mem (Ledger.mem_of_get?_eq_some hget)
      rw [offer_of_get?_eq_some (hkey ▸ hget)]
      refine (ih hsound hrest).trans ?_
      rw [additions, additions, List.filter_cons_of_neg (by simpa using hheld)]

/-- **A merge goes to its end, or stops at the first entry under whose key something else is held.**
-/
theorem Sound.merge_cases (hother : other.Sound) (index : Index) :
    (index.Agrees other ∧ index.merge other = (⟨index.entries ++ index.additions other⟩, none)) ∨
      ∃ before c after, other.entries = before ++ (c.key, c.second) :: after ∧
        index.Agrees ⟨before⟩ ∧ index.get? c.key = some c.first ∧ c.first ≠ c.second ∧
        index.merge other = (⟨index.entries ++ index.additions ⟨before⟩⟩, some c) := by
  cases hfind : other.entries.findSome? fun e => Collision.with? (index.get? e.1) e.2 with
  | none =>
    have hagrees : index.Agrees other := fun e he =>
      Collision.with?_eq_none_iff.1 (List.findSome?_eq_none_iff.1 hfind e he)
    exact .inl ⟨hagrees, hother.merge_of_agrees hagrees⟩
  | some c =>
    obtain ⟨before, ⟨key, d⟩, after, hentries, hc, hbefore⟩ := List.findSome?_eq_some_iff.1 hfind
    have hkey : key = d.key := hother.keyed (key, d) (by simp [hentries])
    have hagrees : index.Agrees ⟨before⟩ := fun e he =>
      Collision.with?_eq_none_iff.1 (hbefore e he)
    have hsound : Sound ⟨before⟩ :=
      hother.sublist (hentries ▸ List.sublist_append_left before _)
    rw [hkey] at hc hentries
    obtain ⟨first, hfirst, hne, rfl⟩ := with?_eq_some_iff.1 hc
    refine .inr ⟨before, ⟨d.key, first, d⟩, after, hentries, hagrees, hfirst, hne, ?_⟩
    -- what came before is merged, and what is held under the key of `d` stays there
    have hstill := Ledger.get?_eq_some_mono (m := ⟨index.entries ++ index.additions ⟨before⟩⟩)
      (List.prefix_append _ _) hfirst
    have hstop := offer_of_ne hstill hne
    have hsplit : other.identifiers = identifiers ⟨before⟩ ++ d :: identifiers ⟨after⟩ := by
      rw [identifiers, hentries, List.map_append, List.map_cons]
      rfl
    exact insertEach_eq_some_iff.2
      ⟨identifiers ⟨before⟩, d, identifiers ⟨after⟩, hsplit, hsound.merge_of_agrees hagrees, hstop⟩

/-! ## Several merges -/

/-- Merging several indexes is taking in all of their identifiers. -/
theorem mergeEach_eq_insertEach (indexes : List Index) :
    mergeEach index indexes = insertEach index (indexes.flatMap identifiers) := by
  induction indexes generalizing index with
  | nil => rfl
  | cons other others ih =>
    rw [mergeEach, List.flatMap_cons, insertEach_append, merge]
    rcases insertEach index other.identifiers with ⟨reached, _ | collision⟩
    · exact ih
    · rfl

/-- What a sound index holds after merges that went well: the identifiers of all of the indexes,
each under its key. -/
theorem Sound.mem_mergeEach (hs : index.Sound) {others : List Index} {merged : Index}
    (h : mergeEach index others = (merged, none)) (e : String × Identifier) :
    e ∈ merged.entries ↔ ∃ d ∈ (index :: others).flatMap identifiers, e = (d.key, d) := by
  rw [mergeEach_eq_insertEach] at h
  rw [mem_insertEach h, List.flatMap_cons]
  simp only [List.mem_append, or_and_right, exists_or]
  refine or_congr_left ⟨fun he => ?_, ?_⟩
  · exact ⟨e.2, List.mem_map_of_mem he, Prod.ext (hs.keyed e he) rfl⟩
  · rintro ⟨d, hd, rfl⟩
    exact hs.mem_entries_iff.2 hd

/-- **The order in which indexes are merged does not matter**: neither for whether this goes well,
nor for what is then held. -/
theorem Sound.mergeEach_of_perm {others others' : List Index} (hs : index.Sound)
    (hother : other.Sound) (hperm : (index :: others).Perm (other :: others')) :
    ((mergeEach index others).2 = none ↔ (mergeEach other others').2 = none) ∧
      ((mergeEach index others).2 = none →
        (mergeEach index others).1.entries.Perm (mergeEach other others').1.entries) := by
  have hds := hperm.flatMap_right identifiers
  have hiff : (mergeEach index others).2 = none ↔ (mergeEach other others').2 = none := by
    rw [mergeEach_eq_insertEach, mergeEach_eq_insertEach, hs.insertEach_snd_eq_none_iff,
      hother.insertEach_snd_eq_none_iff]
    exact ⟨fun h => h.mono hds.symm.subset, fun h => h.mono hds.subset⟩
  refine ⟨hiff, fun h => ?_⟩
  rcases hrun : mergeEach index others with ⟨merged, ending⟩
  rcases hrun' : mergeEach other others' with ⟨merged', ending'⟩
  obtain rfl : ending = none := by simpa [hrun] using h
  obtain rfl : ending' = none := by simpa [hrun'] using hiff.1 h
  have hsound : merged.Sound := hs.of_insertEach (mergeEach_eq_insertEach others ▸ hrun)
  have hsound' : merged'.Sound := hother.of_insertEach (mergeEach_eq_insertEach others' ▸ hrun')
  refine (List.perm_ext_iff_of_nodup hsound.distinct.of_map hsound'.distinct.of_map).2 fun e => ?_
  simp only [hs.mem_mergeEach hrun, hother.mem_mergeEach hrun', hds.mem_iff]

/-! ## What a merge does -/

/-- **What merging two indexes does, and that the order of merges does not matter.** A merge fails
exactly if some key is held by both with different identifiers. If it does not, what the other index
holds under keys that were not held goes to the end, in its order. If it does, the collision is at
the first entry of the other index under whose key something else is held, and exactly what comes
before it was merged. Whether a chain of merges goes well, and then what is held up to its order, is
the same whichever of the indexes comes first and in whatever order the others are merged into
it. -/
theorem merge_of_reachable (hindex : index.Reachable) (hother : other.Reachable) :
    ((∃ c, (index.merge other).2 = some c) ↔
        ∃ key d e, index.get? key = some d ∧ other.get? key = some e ∧ d ≠ e) ∧
      ((index.merge other).2 = none → (index.merge other).1.entries =
        index.entries ++ other.entries.filter fun e => e.1 ∉ index.keys) ∧
      (∀ c, (index.merge other).2 = some c →
        ∃ before after, other.entries = before ++ (c.key, c.second) :: after ∧
          (∀ e ∈ before, ∀ d, index.get? e.1 = some d → d = e.2) ∧
          index.get? c.key = some c.first ∧ c.first ≠ c.second ∧
          (index.merge other).1.entries =
            index.entries ++ before.filter fun e => e.1 ∉ index.keys) ∧
      ∀ others others' : List Index, (index :: others).Perm (other :: others') →
        ((mergeEach index others).2 = none ↔ (mergeEach other others').2 = none) ∧
          ((mergeEach index others).2 = none →
            (mergeEach index others).1.entries.Perm (mergeEach other others').1.entries) := by
  have hs : index.Sound := reachable_iff_sound.1 hindex
  have hs' : other.Sound := reachable_iff_sound.1 hother
  refine ⟨?_, ?_, ?_, fun _ _ hperm => hs.mergeEach_of_perm hs' hperm⟩
  · rcases hs'.merge_cases index with
      ⟨hagrees, hmerge⟩ | ⟨before, c, after, hentries, -, hfirst, hne, hmerge⟩
    · refine iff_of_false (by simp [hmerge]) ?_
      rintro ⟨key, d, e, hd, he, hne⟩
      exact hne (hagrees (key, e) (Ledger.mem_of_get?_eq_some he) d hd)
    · have hsecond : other.get? c.key = some c.second :=
        Ledger.get?_eq_some_of_mem hs'.distinct (by simp [hentries])
      exact iff_of_true ⟨c, by rw [hmerge]⟩ ⟨c.key, c.first, c.second, hfirst, hsecond, hne⟩
  · intro hnone
    rcases hs'.merge_cases index with ⟨-, hmerge⟩ | ⟨_, c, _, -, -, -, -, hmerge⟩
    · rw [hmerge]
      rfl
    · rw [hmerge] at hnone
      cases hnone
  · intro c hc
    rcases hs'.merge_cases index with
      ⟨-, hmerge⟩ | ⟨before, c', after, hentries, hagrees, hfirst, hne, hmerge⟩
    · rw [hmerge] at hc
      cases hc
    · rw [hmerge] at hc
      cases hc
      exact ⟨before, after, hentries, hagrees, hfirst, hne, by rw [hmerge]; rfl⟩

/-- An index that has one of two identifiers with the same key takes in what comes before the other
one and is not there yet, and the two indexes do not merge the other way round either. Without the
other one the merge goes to its end. -/
theorem merge_of_reachable_slashed :
    let held : Index := ⟨[(Identifier.slashedPath.key, .slashedPath), (Identifier.unit.key, .unit)]⟩
    let clash : Index := ⟨[(Identifier.unit.key, .unit), (Identifier.any.key, .any),
      (Identifier.slashedPackage.key, .slashedPackage)]⟩
    let clear : Index := ⟨[(Identifier.unit.key, .unit), (Identifier.any.key, .any)]⟩
    (∃ c, (held.merge clash).2 = some c) ∧ (mergeEach clash [held]).2 ≠ none ∧
      (held.merge clear).1.entries = held.entries ++ [(Identifier.any.key, .any)] := by
  intro held clash clear
  have hheld : held.Reachable := ⟨[.build "" [.slashedPath, .unit]], "", rfl⟩
  have hclash : clash.Reachable := ⟨[.build "" [.unit, .any, .slashedPackage]], "", rfl⟩
  have hclear : clear.Reachable := ⟨[.insert "" .unit, .insert "" .any], "", rfl⟩
  have hfails := (merge_of_reachable hheld hclash).1.2
    ⟨"a/b/c///PointingToDeclaration/", .slashedPath, .slashedPackage, rfl, rfl, by decide⟩
  refine ⟨hfails, fun hnone => ?_, (merge_of_reachable hheld hclear).2.1 rfl⟩
  have hswapped : (mergeEach held [clash]).2 = none :=
    ((merge_of_reachable hclash hheld).2.2.2 [held] [clash] (.swap _ _ _)).1.1 hnone
  cases hswapped

end DocIdent.Index
