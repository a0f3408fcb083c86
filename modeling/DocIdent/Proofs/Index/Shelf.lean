import DocIdent.Proofs.Index.Collision
import Mathlib.Logic.Function.Basic

/-!
# Indexes over a whole run

Several indexes are worked on side by side, each under a name and empty until it is used (`Shelf`).
A step inserts one identifier, builds the index of a list, or merges one index into another
(`Shelf.Step`), and a step that fails leaves what its operation leaves. Whatever steps were taken,
every index of the shelf is sound, since each step keeps all of them sound (`Shelf.Sound.step`); and
what an index holds keeps its place until the index is built anew
(`Shelf.entries_prefix_run`). Both are put together in `Shelf.sound_run_and_kept`.
-/

namespace DocIdent

/-- Indexes under their names. -/
abbrev Shelf := String → Index

namespace Shelf

/-- What is done to the index under a name. -/
inductive Step where
  /-- An identifier is inserted. -/
  | insert (name : String) (d : Identifier)
  /-- The index is built anew from a list. -/
  | build (name : String) (ds : List Identifier)
  /-- What another index of the shelf holds is merged into it. The other one stays on the shelf, so
  a run may go on with both or only with the one that took it in. -/
  | merge (name source : String)

/-- The name of the index on which a step works. -/
def Step.name : Step → String
  | insert name _ => name
  | build name _ => name
  | merge name _ => name

/-- The name under which a step builds an index, if it builds one. -/
def Step.built? : Step → Option String
  | build name _ => some name
  | _ => none

/-- The shelf on which nothing was done. -/
def empty : Shelf := fun _ => {}

/-- The index that a step leaves. What was inserted or merged before a collision stays; a failed
building gives no index, so the one that was there stays. -/
def indexAfter (shelf : Shelf) : Step → Index
  | .insert name d => ((shelf name).offer d).1
  | .build name ds =>
    match Index.ofList ds with
    | .ok index => index
    | .error _ => shelf name
  | .merge name source => ((shelf name).merge (shelf source)).1

/-- The shelf after a step. -/
def step (shelf : Shelf) (s : Step) : Shelf :=
  Function.update shelf s.name (shelf.indexAfter s)

/-- The shelf after steps one after the other. -/
def run (shelf : Shelf) : List Step → Shelf
  | [] => shelf
  | s :: steps => run (shelf.step s) steps

theorem run_append (shelf : Shelf) (steps later : List Step) :
    shelf.run (steps ++ later) = (shelf.run steps).run later := by
  induction steps generalizing shelf with
  | nil => rfl
  | cons s steps ih => exact ih (shelf.step s)

/-! ## Every index is sound -/

/-- Every index of the shelf is sound. -/
def Sound (shelf : Shelf) : Prop :=
  ∀ name, (shelf name).Sound

theorem sound_empty : Sound empty := fun _ => Index.sound_empty

variable {shelf : Shelf}

/-- A step on a sound shelf leaves a sound index. -/
theorem Sound.indexAfter (hs : Sound shelf) (s : Step) : (shelf.indexAfter s).Sound := by
  cases s with
  | insert name d => exact (hs name).offer d
  | build name ds =>
    rw [Shelf.indexAfter]
    split
    next index h => exact Index.sound_of_ofList h
    next => exact hs name
  | merge name source => exact (hs name).insertEach

/-- A step keeps a shelf sound. -/
theorem Sound.step (hs : Sound shelf) (s : Step) : Sound (shelf.step s) := by
  intro name
  by_cases h : name = s.name
  · subst h
    rw [Shelf.step, Function.update_self]
    exact hs.indexAfter s
  · rw [Shelf.step, Function.update_of_ne h]
    exact hs name

/-- A run keeps a shelf sound. -/
theorem Sound.run (hs : Sound shelf) (steps : List Step) : Sound (shelf.run steps) := by
  induction steps generalizing shelf with
  | nil => exact hs
  | cons s steps ih => exact ih (hs.step s)

/-! ## What is held keeps its place -/

/-- A step that builds no index leaves what the index holds in its place. -/
theorem entries_prefix_indexAfter (shelf : Shelf) (s : Step) (h : s.built? = none) :
    (shelf s.name).entries <+: (shelf.indexAfter s).entries := by
  cases s with
  | insert name d => exact Index.entries_prefix_offer (shelf name) d
  | build name ds => cases h
  | merge name source => exact Index.entries_prefix_insertEach

/-- A step leaves what an index holds in its place, unless it builds this index anew. -/
theorem entries_prefix_step (shelf : Shelf) {name : String} (s : Step)
    (h : s.built? ≠ some name) : (shelf name).entries <+: (shelf.step s name).entries := by
  by_cases hname : name = s.name
  · subst hname
    have hnone : s.built? = none := by
      cases s with
      | build name ds => exact absurd rfl h
      | _ => rfl
    rw [step, Function.update_self]
    exact entries_prefix_indexAfter shelf s hnone
  · have hsame : shelf.step s name = shelf name := Function.update_of_ne hname _ _
    exact hsame ▸ List.prefix_rfl

/-- **What an index holds keeps its place** over a run that does not build the index anew. -/
theorem entries_prefix_run (shelf : Shelf) {name : String} (steps : List Step)
    (h : ∀ s ∈ steps, s.built? ≠ some name) :
    (shelf name).entries <+: (shelf.run steps name).entries := by
  induction steps generalizing shelf with
  | nil => exact List.prefix_rfl
  | cons s steps ih =>
    have hstep := entries_prefix_step shelf s (h s (.head _))
    exact hstep.trans (ih (shelf.step s) fun t ht => h t (.tail _ ht))

/-- An insertion that does not answer that the identifier is new changes nothing. -/
theorem step_insert_of_not_new {name : String} {d : Identifier}
    (h : ∀ index, (shelf name).insert d ≠ .ok (index, true)) :
    shelf.step (.insert name d) = shelf := by
  refine Function.update_eq_self_iff.2 (Index.offer_fst_of_not_new fun hnew => ?_)
  exact h _ (Index.insert_eq_ok_iff.2 (Prod.ext rfl hnew))

/-- **Every index is sound after any run, and loses nothing.** From empty indexes, whatever was
inserted, built and merged, successfully or not, each index holds every identifier once and under
its own key. Over any later run that does not build it anew its entries keep their places, so what
is found under a key stays there. An insertion that fails or finds the identifier there changes
nothing. -/
theorem sound_run_and_kept (steps : List Step) (name : String) :
    (empty.run steps name).Sound ∧ (empty.run steps name).identifiers.Nodup ∧
      (∀ later : List Step, (∀ s ∈ later, s.built? ≠ some name) →
        (empty.run steps name).entries <+: (empty.run (steps ++ later) name).entries ∧
          ∀ key d, (empty.run steps name).get? key = some d →
            (empty.run (steps ++ later) name).get? key = some d) ∧
      ∀ d, (∀ index, (empty.run steps name).insert d ≠ .ok (index, true)) →
        empty.run (steps ++ [.insert name d]) = empty.run steps := by
  have hsound : (empty.run steps name).Sound := sound_empty.run steps name
  refine ⟨hsound, hsound.nodup_identifiers, fun later hlater => ?_, fun d hd => ?_⟩
  · rw [run_append]
    have hkept := entries_prefix_run (empty.run steps) later hlater
    exact ⟨hkept, fun key d => Ledger.get?_eq_some_mono hkept⟩
  · rw [run_append]
    exact step_insert_of_not_new hd

/-- A merge that stops at a collision keeps what was found before, and inserting the identifier at
which it stopped changes nothing. -/
theorem sound_run_and_kept_slashed :
    (empty.run ([.insert "a" .slashedPath, .build "b" [.unit, .slashedPackage, .any]] ++
          [.merge "a" "b", .insert "b" .any]) "a").get? "a/b/c///PointingToDeclaration/" =
        some .slashedPath ∧
      empty.run ([.insert "a" .slashedPath] ++ [.insert "a" .slashedPackage]) =
        empty.run [.insert "a" .slashedPath] := by
  constructor
  · refine ((sound_run_and_kept _ "a").2.2.1 [.merge "a" "b", .insert "b" .any] ?_).2 _ _ rfl
    simp [Step.built?]
  · refine (sound_run_and_kept [.insert "a" .slashedPath] "a").2.2.2 .slashedPackage ?_
    intro index h
    cases h

end Shelf

end DocIdent
