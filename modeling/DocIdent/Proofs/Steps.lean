import Mathlib.Data.List.Forall2

/-!
# Steps that may fail

Steps one after another end well exactly if each of them does (`bind_eq_ok_iff`), and fail with the
first that does not (`bind_eq_error_iff`). So do the steps through a list (`mapM_eq_ok_iff`,
`mapM_eq_error_iff`), and those that do not tell why they fail (`mapM_eq_some_iff`).
-/

namespace DocIdent

variable {ε ε' α β : Type}

/-! ## One after another -/

@[simp] theorem ok_bind (a : α) (f : α → Except ε β) : Except.ok a >>= f = f a := rfl

/-- A step and what follows it end well exactly if both do. -/
theorem bind_eq_ok_iff {x : Except ε α} {f : α → Except ε β} {b : β} :
    x >>= f = .ok b ↔ ∃ a, x = .ok a ∧ f a = .ok b := by
  cases x with
  | error e => exact iff_of_false nofun nofun
  | ok a =>
    constructor
    · exact fun h => ⟨a, rfl, h⟩
    · rintro ⟨_, ⟨⟩, h⟩
      exact h

/-- They fail exactly if the first one fails, or ends well and what follows it fails. -/
theorem bind_eq_error_iff {x : Except ε α} {f : α → Except ε β} {e : ε} :
    x >>= f = .error e ↔ x = .error e ∨ ∃ a, x = .ok a ∧ f a = .error e := by
  cases x with
  | error e' =>
    constructor
    · rintro ⟨⟩
      exact .inl rfl
    · rintro (⟨⟨⟩⟩ | ⟨_, ⟨⟩, -⟩)
      rfl
  | ok a =>
    constructor
    · exact fun h => .inr ⟨a, rfl, h⟩
    · rintro (⟨⟨⟩⟩ | ⟨_, ⟨⟩, h⟩)
      exact h

/-- What becomes of the end of a step does not decide whether it ends well. -/
theorem map_eq_ok_iff {x : Except ε α} {f : α → β} {b : β} :
    x.map f = .ok b ↔ ∃ a, x = .ok a ∧ f a = b := by
  cases x with
  | error e => exact iff_of_false nofun nofun
  | ok a =>
    constructor
    · rintro ⟨⟩
      exact ⟨a, rfl, rfl⟩
    · rintro ⟨_, ⟨⟩, rfl⟩
      rfl

/-- Neither does another name for its failure. -/
@[simp] theorem mapError_eq_ok_iff {x : Except ε α} {f : ε → ε'} {a : α} :
    x.mapError f = .ok a ↔ x = .ok a := by
  cases x with
  | error e => exact iff_of_false nofun nofun
  | ok a => exact ⟨fun | rfl => rfl, fun | rfl => rfl⟩

/-- What becomes of the end of a step does not change its failure. -/
@[simp] theorem map_eq_error_iff {x : Except ε α} {f : α → β} {e : ε} :
    x.map f = .error e ↔ x = .error e := by
  cases x with
  | error e' => exact ⟨fun | rfl => rfl, fun | rfl => rfl⟩
  | ok a => exact iff_of_false nofun nofun

/-- A failure under another name is a failure. -/
theorem mapError_eq_error_iff {x : Except ε α} {f : ε → ε'} {e' : ε'} :
    x.mapError f = .error e' ↔ ∃ e, x = .error e ∧ f e = e' := by
  cases x with
  | error e =>
    constructor
    · rintro ⟨⟩
      exact ⟨e, rfl, rfl⟩
    · rintro ⟨_, ⟨⟩, rfl⟩
      rfl
  | ok a => exact iff_of_false nofun nofun

/-! ## Through a list -/

/-- Of two lists that are related item by item, each item of the second is related to one of the
first. -/
theorem exists_mem_of_forall₂ {R : α → β → Prop} {xs : List α} {ys : List β}
    (h : List.Forall₂ R xs ys) : ∀ y ∈ ys, ∃ x ∈ xs, R x y := by
  induction h with
  | nil => exact nofun
  | @cons x y xs ys hxy _ ih =>
    refine List.forall_mem_cons.2 ⟨⟨x, .head _, hxy⟩, fun z hz => ?_⟩
    obtain ⟨w, hw, hwz⟩ := ih z hz
    exact ⟨w, .tail _ hw, hwz⟩

section Told

variable {f : α → Except ε β} {xs : List α} {ys : List β} {e : ε}

/-- Steps through a list end well exactly if each of them does. -/
theorem mapM_eq_ok_iff : xs.mapM f = .ok ys ↔ List.Forall₂ (fun x y => f x = .ok y) xs ys := by
  induction xs generalizing ys with
  | nil =>
    rw [List.forall₂_nil_left_iff]
    constructor
    · rintro ⟨⟩
      rfl
    · rintro rfl
      rfl
  | cons x xs ih =>
    rw [List.mapM_cons, List.forall₂_cons_left_iff]
    simp only [bind_eq_ok_iff, ih]
    constructor
    · rintro ⟨z, hz, zs, hzs, ⟨⟩⟩
      exact ⟨z, zs, hz, hzs, rfl⟩
    · rintro ⟨z, zs, hz, hzs, rfl⟩
      exact ⟨z, hz, zs, hzs, rfl⟩

/-- They fail exactly if one of them does after others that ended well, and with its failure. -/
theorem mapM_eq_error_iff :
    xs.mapM f = .error e ↔
      ∃ before x after, xs = before ++ x :: after ∧ (∀ b ∈ before, ∃ y, f b = .ok y) ∧
        f x = .error e := by
  induction xs with
  | nil =>
    refine iff_of_false nofun ?_
    rintro ⟨_ | ⟨_, _⟩, x, after, ⟨⟩, -⟩
  | cons x xs ih =>
    rw [List.mapM_cons]
    simp only [bind_eq_error_iff, ih]
    constructor
    · rintro (hx | ⟨z, hz, ⟨before, y, after, rfl, hbefore, hy⟩ | ⟨zs, -, ⟨⟩⟩⟩)
      · exact ⟨[], x, xs, rfl, by simp, hx⟩
      · exact ⟨x :: before, y, after, rfl, List.forall_mem_cons.2 ⟨⟨z, hz⟩, hbefore⟩, hy⟩
    · rintro ⟨_ | ⟨w, before⟩, y, after, ⟨⟩, hbefore, hy⟩
      · exact .inl hy
      · obtain ⟨⟨z, hz⟩, hbefore⟩ := List.forall_mem_cons.1 hbefore
        exact .inr ⟨z, hz, .inl ⟨before, y, after, rfl, hbefore, hy⟩⟩

/-- Steps none of which fails give all their results. -/
theorem mapM_eq_ok_map {g : α → β} (h : ∀ x ∈ xs, f x = .ok (g x)) :
    xs.mapM f = .ok (xs.map g) := by
  rw [mapM_eq_ok_iff, List.forall₂_map_right_iff, List.forall₂_same]
  exact h

end Told

section Untold

variable {f : α → Option β} {xs : List α} {ys : List β}

@[simp]
theorem toOption_eq_some_iff {x : Except ε α} {a : α} : x.toOption = some a ↔ x = .ok a := by
  cases x with
  | error e => exact iff_of_false nofun nofun
  | ok b => simp [Except.toOption]

/-- Steps through a list may be taken without telling why they fail. -/
theorem toOption_mapM (f : α → Except ε β) (xs : List α) :
    (xs.mapM f).toOption = xs.mapM fun x => (f x).toOption := by
  induction xs with
  | nil => rfl
  | cons x xs ih =>
    rw [List.mapM_cons, List.mapM_cons, ← ih]
    cases f x with
    | error e => rfl
    | ok y =>
      cases xs.mapM f with
      | error e => rfl
      | ok ys => rfl

/-- Steps that do not tell why they fail end well exactly if each of them does. -/
theorem mapM_eq_some_iff : xs.mapM f = some ys ↔ List.Forall₂ (fun x y => f x = some y) xs ys := by
  -- the same steps, with nothing told by a failure
  let told (x : α) : Except Unit β := (f x).elim (.error ()) .ok
  have htold : ∀ x, (told x).toOption = f x := by
    intro x
    show ((f x).elim (.error ()) .ok : Except Unit β).toOption = f x
    cases f x with
    | none => rfl
    | some y => rfl
  have hsteps : xs.mapM f = (xs.mapM told).toOption := by
    rw [toOption_mapM]
    simp only [htold]
  rw [hsteps, toOption_eq_some_iff, mapM_eq_ok_iff]
  simp only [← toOption_eq_some_iff, htold]

/-- What is read from a list is read from its items. -/
theorem exists_of_mapM_eq_some (h : xs.mapM f = some ys) : ∀ y ∈ ys, ∃ x ∈ xs, f x = some y :=
  exists_mem_of_forall₂ (mapM_eq_some_iff.1 h)

/-- A list is read back from what was written of each of its items, if each item is. -/
theorem mapM_map_eq_some {write : β → α} (h : ∀ y ∈ ys, f (write y) = some y) :
    (ys.map write).mapM f = some ys := by
  rw [mapM_eq_some_iff, List.forall₂_map_left_iff, List.forall₂_same]
  exact h

end Untold

end DocIdent
