import DocIdent.Target
import Mathlib.Data.List.Chain
import Mathlib.Data.List.Nodup
import Mathlib.Logic.Function.Iterate

/-!
# Targets in sequence

Going on from a target counts its position up and stays at the last one (`IsKind.iterate_next`). The
targets that follow one another from a position on are those of all positions from there, one by
one, up to the last position (`IsKind.successors_eq_map`), each the next of the one before
(`isChain_successors`). So no target of a parameter comes twice in its sequence
(`IsKind.nodup_successors`), and none is given to two of the parameters that a sequence is laid
beside (`Successive`). Both kinds of parameters have such sequences; the declaration has one that
never ends (`successive_parameters`).
-/

namespace DocIdent.Target

/-- A kind of parameter: the target at a position is none of the declaration, and the target after
it is at the next position. -/
structure IsKind (make : UInt32 → Target) : Prop where
  parameter : ∀ index, (make index).isDeclaration = false
  next : ∀ index, (make index).next = make (nextIndex index)
  inj : ∀ i j, make i = make j → i = j

theorem isKind_genericParameter : IsKind genericParameter :=
  ⟨fun _ => rfl, fun _ => rfl, fun _ _ h => genericParameter.inj h⟩

theorem isKind_callableParameter : IsKind callableParameter :=
  ⟨fun _ => rfl, fun _ => rfl, fun _ _ h => callableParameter.inj h⟩

variable {make : UInt32 → Target}

/-- The sequence stops at the last position, and nowhere else. -/
theorem IsKind.successor?_eq (h : IsKind make) (index : UInt32) :
    (make index).successor? =
      if index.toNat = 4294967295 then none else some (make (nextIndex index)) := by
  have hstop : make (nextIndex index) = make index ↔ index.toNat = 4294967295 := by
    have hnext := toNat_nextIndex index
    have hlt : index.toNat < 4294967296 := index.toNat_lt
    constructor
    · intro heq
      rw [h.inj _ _ heq] at hnext
      omega
    · intro hlast
      exact congrArg make (UInt32.toNat_inj.1 (by omega))
  rw [successor?, h.next, h.parameter]
  simp only [hstop, Bool.not_false, and_true]

/-- **A sequence of targets goes through the positions one by one**, as many as are asked for and
no further than to the last one. -/
theorem IsKind.successors_eq_map (h : IsKind make) (index : UInt32) (n : Nat) :
    (make index).successors n =
      (List.range (min n (4294967296 - index.toNat))).map
        fun k => make (UInt32.ofNat (index.toNat + k)) := by
  induction n generalizing index with
  | zero => rw [successors, Nat.zero_min, List.range_zero, List.map_nil]
  | succ n ih =>
    have hlt : index.toNat < 4294967296 := index.toNat_lt
    have hfirst : UInt32.ofNat (index.toNat + 0) = index := UInt32.ofNat_toNat
    rw [successors, h.successor?_eq]
    by_cases hlast : index.toNat = 4294967295
    · have hone : min (n + 1) (4294967296 - index.toNat) = 1 := by omega
      rw [if_pos hlast, hone, List.range_one, List.map_singleton, hfirst]
    · have hnext : (nextIndex index).toNat = index.toNat + 1 := by
        rw [toNat_nextIndex]
        omega
      have hmore : min (n + 1) (4294967296 - index.toNat) =
          min n (4294967296 - (nextIndex index).toNat) + 1 := by omega
      rw [if_neg hlast, hmore, List.range_succ_eq_map, List.map_cons, List.map_map, hfirst]
      simp only [ih, hnext, Function.comp_def, Nat.succ_eq_add_one, Nat.add_assoc, Nat.add_comm 1]

/-- Going on from a target `n` times leads `n` positions further, but not beyond the last one. -/
theorem IsKind.iterate_next (h : IsKind make) (index : UInt32) (n : Nat) :
    Target.next^[n] (make index) = make (UInt32.ofNat (min (index.toNat + n) 4294967295)) := by
  have hlt : index.toNat < 4294967296 := index.toNat_lt
  induction n with
  | zero =>
    rw [Function.iterate_zero_apply, Nat.add_zero, Nat.min_eq_left (by omega), UInt32.ofNat_toNat]
  | succ n ih =>
    rw [Function.iterate_succ_apply', ih, h.next]
    refine congrArg make (UInt32.toNat_inj.1 ?_)
    rw [toNat_nextIndex, UInt32.toNat_ofNat', UInt32.toNat_ofNat']
    omega

/-- A sequence has as many targets as are asked for, or as many as there are positions left. -/
theorem IsKind.length_successors (h : IsKind make) (index : UInt32) (n : Nat) :
    ((make index).successors n).length = min n (4294967296 - index.toNat) := by
  rw [h.successors_eq_map, List.length_map, List.length_range]

/-- There are no more targets in a sequence than are asked for. -/
theorem IsKind.length_successors_le (h : IsKind make) (index : UInt32) (n : Nat) :
    ((make index).successors n).length ≤ n := by
  rw [h.length_successors]
  exact Nat.min_le_left _ _

/-- Each target in a sequence is of its kind. -/
theorem IsKind.eq_of_mem_successors (h : IsKind make) {index : UInt32} {n : Nat} {t : Target}
    (ht : t ∈ (make index).successors n) : ∃ i, t = make i := by
  rw [h.successors_eq_map] at ht
  obtain ⟨k, -, rfl⟩ := List.mem_map.1 ht
  exact ⟨_, rfl⟩

/-- **No target comes twice** in a sequence. -/
theorem IsKind.nodup_successors (h : IsKind make) (index : UInt32) (n : Nat) :
    ((make index).successors n).Nodup := by
  rw [h.successors_eq_map]
  refine List.Nodup.map_on (fun i hi j hj heq => ?_) List.nodup_range
  have hsame := congrArg UInt32.toNat (h.inj _ _ heq)
  rw [List.mem_range] at hi hj
  simp only [UInt32.toNat_ofNat'] at hsame
  omega

/-- The target that follows in a sequence is the next one. -/
theorem next_of_successor? {t t' : Target} (h : t.successor? = some t') : t.next = t' := by
  rw [successor?] at h
  split at h
  next => cases h
  next => exact Option.some.inj h

/-- In every sequence each target is the next of the one before. -/
theorem isChain_successors (t : Target) (n : Nat) :
    (t.successors n).IsChain fun t t' => t.next = t' := by
  induction n generalizing t with
  | zero => exact .nil
  | succ n ih =>
    rw [successors]
    cases hnext : t.successor? with
    | none => exact .singleton t
    | some t' =>
      refine List.isChain_cons.2 ⟨fun u hu => ?_, ih t'⟩
      cases n with
      | zero => cases hu
      | succ n =>
        obtain rfl : t' = u := Option.some.inj hu
        exact next_of_successor? hnext

/-- The declaration comes again and again. -/
@[simp] theorem successors_declaration (n : Nat) :
    declaration.successors n = List.replicate n declaration := by
  induction n with
  | zero => rfl
  | succ n ih =>
    have hnext : declaration.successor? = some declaration := rfl
    rw [successors, hnext, List.replicate_succ, ← ih]

/-- The targets of a kind of parameter, in sequence from each position on. -/
structure Successive (make : UInt32 → Target) : Prop where
  /-- Going on `n` times leads `n` positions further, but not beyond the last one. -/
  iterate_next : ∀ (index : UInt32) (n : Nat),
    next^[n] (make index) = make (UInt32.ofNat (min (index.toNat + n) 4294967295))
  /-- The first `n` targets are those of the positions from the first on, one by one. -/
  successors_eq : ∀ (index : UInt32) (n : Nat),
    (make index).successors n =
      (List.range' index.toNat (min (index.toNat + n) 4294967296 - index.toNat)).map
        fun i => make (UInt32.ofNat i)
  /-- Each is the next of the one before. -/
  isChain : ∀ (index : UInt32) (n : Nat),
    ((make index).successors n).IsChain fun t t' => t.next = t'
  /-- None comes twice. -/
  nodup : ∀ (index : UInt32) (n : Nat), ((make index).successors n).Nodup
  /-- There is one for each position that is left, however many are asked for. -/
  length_eq : ∀ (index : UInt32) (n : Nat),
    ((make index).successors n).length = min n (4294967296 - index.toNat)
  /-- Laid beside parameters, the sequence gives no two of them one target. -/
  nodup_zip : ∀ (index : UInt32) {α : Type} (parameters : List α),
    ((((make index).successors parameters.length).zip parameters).map Prod.fst).Nodup

/-- A kind of parameter has its targets in sequence. -/
theorem IsKind.successive (h : IsKind make) : Successive make where
  iterate_next := h.iterate_next
  successors_eq index n := by
    have hcount : min (index.toNat + n) 4294967296 - index.toNat =
        min n (4294967296 - index.toNat) := by omega
    rw [h.successors_eq_map, hcount, List.range'_eq_map_range, List.map_map]
    rfl
  isChain index := isChain_successors (make index)
  nodup := h.nodup_successors
  length_eq := h.length_successors
  nodup_zip index _ parameters := by
    rw [List.map_fst_zip (h.length_successors_le index _)]
    exact h.nodup_successors index _

/-- **Targets follow one another position by position, up to the last one.** For either kind of
parameter and from each position on, the next targets are counted up and stop at the last position;
their sequence has every position from the first on once and then ends, so parameters that it is
laid beside have targets of their own. The declaration is its own next target, and its sequence
repeats it for ever. -/
theorem successive_parameters :
    Successive genericParameter ∧ Successive callableParameter ∧
      (∀ n, next^[n] declaration = declaration) ∧
      ∀ n, declaration.successors n = List.replicate n declaration :=
  ⟨isKind_genericParameter.successive, isKind_callableParameter.successive,
    Function.iterate_fixed rfl, successors_declaration⟩

end DocIdent.Target
