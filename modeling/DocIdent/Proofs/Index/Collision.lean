import DocIdent.Proofs.Index
import Mathlib.Data.List.Nodup

/-!
# When identifiers collide

Identifiers are apart if no two of them that differ share a key (`Identifier.Apart`). The
identifiers of a sound index are apart (`Index.Sound.apart`), so a list of identifiers that are not
apart is in no index; and a collision that stops an index shows two identifiers that are not apart
(`Collision.Among`). A list is therefore indexed exactly if its identifiers are apart
(`Index.exists_ofList_iff`), in whatever order they stand and however often.
-/

namespace DocIdent

/-- Identifiers of a list with one key are the same. -/
def Identifier.Apart (ds : List Identifier) : Prop :=
  ∀ d ∈ ds, ∀ e ∈ ds, d.key = e.key → d = e

/-- A class in a package, with a slash in its path. -/
def Identifier.slashedPath : Identifier :=
  declared "a" (some "b/c")

/-- A class in a package, with a slash in the name of the package. -/
def Identifier.slashedPackage : Identifier :=
  declared "a/b" (some "c")

/-- A slash within a name is not told from one between two slots, so both have one key. -/
theorem Identifier.not_apart_slashed : ¬ Apart [slashedPath, slashedPackage] := fun h =>
  absurd (h slashedPath (.head _) slashedPackage (.tail _ (.head _)) rfl) (by decide)

/-- Being apart is a matter of which identifiers a list has. -/
theorem Identifier.Apart.mono {ds es : List Identifier} (hsub : ds ⊆ es) (h : Apart es) :
    Apart ds :=
  fun d hd e he => h d (hsub hd) e (hsub he)

/-- The two identifiers of a collision are in a list, differ, and have the key of the collision. -/
structure Collision.Among (c : Collision) (ds : List Identifier) : Prop where
  first : c.first ∈ ds
  second : c.second ∈ ds
  firstKeyed : c.first.key = c.key
  secondKeyed : c.second.key = c.key
  different : c.first ≠ c.second

namespace Collision.Among

variable {c : Collision} {ds es : List Identifier}

theorem mono (hsub : ds ⊆ es) (h : c.Among ds) : c.Among es :=
  { h with
    first := hsub h.first
    second := hsub h.second }

/-- Where a collision is, identifiers are not apart. -/
theorem not_apart (h : c.Among ds) : ¬ Identifier.Apart ds := fun hapart =>
  h.different (hapart _ h.first _ h.second (h.firstKeyed.trans h.secondKeyed.symm))

end Collision.Among

/-- The collision of an identifier with what is found under its key, if that is another one. -/
def Collision.with? (found : Option Identifier) (d : Identifier) : Option Collision :=
  found.bind fun first => if first = d then none else some ⟨d.key, first, d⟩

/-- There is no collision exactly if nothing else is found. -/
theorem Collision.with?_eq_none_iff {found : Option Identifier} {d : Identifier} :
    Collision.with? found d = none ↔ ∀ first, found = some first → first = d := by
  cases found with
  | none => simp [Collision.with?]
  | some first => simp [Collision.with?]

namespace Index

variable {index index' : Index} {d : Identifier} {ds : List Identifier} {c : Collision}

/-- An identifier is kept out by the collision that it has with what is found under its key. -/
theorem with?_eq_some_iff :
    Collision.with? (index.get? d.key) d = some c ↔
      ∃ first, index.get? d.key = some first ∧ first ≠ d ∧ c = ⟨d.key, first, d⟩ := by
  rw [Collision.with?, Option.bind_eq_some_iff]
  refine exists_congr fun first => and_congr_right fun _ => ?_
  by_cases hfirst : first = d
  · simp [hfirst]
  · simp [hfirst, eq_comm]

/-- The identifiers of a sound index are apart. -/
theorem Sound.apart (hs : index.Sound) : Identifier.Apart index.identifiers := by
  have hdistinct := hs.distinct
  rw [hs.keys_eq] at hdistinct
  exact fun d hd e he => List.inj_on_of_nodup_map hdistinct hd he

/-- A sound index holds no identifier twice. -/
theorem Sound.nodup_identifiers (hs : index.Sound) : index.identifiers.Nodup := by
  have hdistinct := hs.distinct
  rw [hs.keys_eq] at hdistinct
  exact hdistinct.of_map

/-- The identifiers of an index that took in a list of them. -/
theorem mem_identifiers_insertEach (h : insertEach index ds = (index', none)) (e : Identifier) :
    e ∈ index'.identifiers ↔ e ∈ index.identifiers ++ ds := by
  simp only [identifiers, List.mem_append, List.mem_map, mem_insertEach h, or_and_right, exists_or]
  refine or_congr_right ⟨?_, ?_⟩
  · rintro ⟨_, ⟨d, hd, rfl⟩, rfl⟩
    exact hd
  · intro he
    exact ⟨_, ⟨e, he, rfl⟩, rfl⟩

/-- The identifiers of an index that took in one more. -/
theorem mem_identifiers_offer {isNew : Bool} (h : index.offer d = (index', .ok isNew))
    (e : Identifier) : e ∈ index'.identifiers ↔ e ∈ index.identifiers ++ [d] :=
  mem_identifiers_insertEach (by rw [insertEach, h]; rfl) e

/-- The identifier that is kept out and the one that has its key are not the same. -/
theorem Sound.among_of_offer (hs : index.Sound) (h : index.offer d = (index', .error c)) :
    c.Among (index.identifiers ++ [d]) := by
  obtain ⟨-, first, hfirst, hne, rfl⟩ := offer_eq_error_iff.1 h
  have hmem := Ledger.mem_of_get?_eq_some hfirst
  exact
    { first := List.mem_append_left _ (List.mem_map_of_mem hmem)
      second := List.mem_append_right _ (.head _)
      firstKeyed := (hs.keyed _ hmem).symm
      secondKeyed := rfl
      different := hne }

/-- **A collision that stops an index** is between identifiers that it held or was to take in. -/
theorem Sound.among_of_insertEach (hs : index.Sound)
    (h : Index.insertEach index ds = (index', some c)) : c.Among (index.identifiers ++ ds) := by
  induction ds generalizing index with
  | nil => cases h
  | cons d ds ih =>
    have hstep := hs.offer d
    rw [Index.insertEach] at h
    rcases hoffer : index.offer d with ⟨inner, collision | isNew⟩
    · rw [hoffer] at h
      cases h
      refine (hs.among_of_offer hoffer).mono fun e he => ?_
      rcases List.mem_append.1 he with he | he
      · exact List.mem_append_left _ he
      · exact List.mem_append_right _ (List.mem_singleton.1 he ▸ .head _)
    · rw [hoffer] at h hstep
      refine (ih hstep h).mono fun e he => ?_
      rw [List.mem_append, mem_identifiers_offer hoffer, ← List.mem_append,
        List.append_assoc] at he
      exact he

/-- **A list is taken in to its end** exactly if its identifiers are apart, also from those that
are held. -/
theorem Sound.insertEach_snd_eq_none_iff (hs : index.Sound) :
    (Index.insertEach index ds).2 = none ↔ Identifier.Apart (index.identifiers ++ ds) := by
  rcases hrun : Index.insertEach index ds with ⟨inner, _ | collision⟩
  · refine iff_of_true rfl ((hs.of_insertEach hrun).apart.mono fun e he => ?_)
    exact (mem_identifiers_insertEach hrun e).2 he
  · exact iff_of_false (by simp) (hs.among_of_insertEach hrun).not_apart

/-- **A list is indexed exactly if its identifiers are apart.** -/
theorem exists_ofList_iff : (∃ index, ofList ds = .ok index) ↔ Identifier.Apart ds := by
  have happart : (insertEach {} ds).2 = none ↔ Identifier.Apart ds :=
    sound_empty.insertEach_snd_eq_none_iff
  rw [← happart]
  simp only [ofList_eq_ok_iff]
  constructor
  · rintro ⟨index, h⟩
    rw [h]
  · intro h
    exact ⟨_, Prod.ext rfl h⟩

/-- A list is not indexed exactly if its identifiers are not apart. -/
theorem exists_ofList_error_iff : (∃ c, ofList ds = .error c) ↔ ¬ Identifier.Apart ds := by
  rw [← exists_ofList_iff]
  cases ofList ds with
  | ok index => simp
  | error collision => simp

end Index

end DocIdent
