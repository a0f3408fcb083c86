import DocIdent.Proofs.Index.Collision
import DocIdent.Proofs.Lock.Check
import Mathlib.Data.List.Nodup

/-!
# Collisions are paid for by stale entries

A fresh entry of a lock can collide only if its key is held already. The entry that brought the key
is pinned to another one, since the keys of a lock increase; so it is stale, without having collided
itself, and no second fresh entry has that key. Thus one entry adds no more than it pays for
(`Lock.countP_keys_append_le`, `Lock.one_le_of_get?_eq_some`), a lock has no more collisions than
stale entries (`Lock.length_collisions_le`), and a check that reports a collision reports a stale
entry as well (`Command.exitCode_checkOutcome_of_parse`).
-/

namespace DocIdent

namespace LockEntry

/-- The identifier of the entry has another key than the pinned one. -/
def isStale (e : LockEntry) : Bool :=
  e.freshness ≠ .fresh

theorem isStale_iff {e : LockEntry} : e.isStale = true ↔ e.identifier.key ≠ e.key := by
  rw [isStale, decide_eq_true_iff, ne_eq, freshness_eq_fresh_iff]

end LockEntry

namespace Lock

variable {index : Index} {e : LockEntry} {es : List LockEntry}

/-! ## One entry -/

/-- One more key that is held is met as often as it stands among the keys to come. -/
theorem countP_mem_append_singleton_le (held keys : List String) (key : String) :
    keys.countP (· ∈ held ++ [key]) ≤ keys.countP (· ∈ held) + keys.count key := by
  induction keys with
  | nil => exact Nat.le_refl 0
  | cons k keys ih =>
    rw [List.countP_cons, List.countP_cons, List.count_cons]
    by_cases hk : k = key
    · simp only [hk, beq_self_eq_true, if_true]
      split
      all_goals omega
    · have hsame : decide (k ∈ held ++ [key]) = decide (k ∈ held) := by simp [hk]
      rw [hsame]
      omega

/-- An entry whose key is held from now on lets a later entry collide, if it is stale, and none if
it is fresh. -/
theorem countP_keys_append_le (index : Index) (hdistinct : ((e :: es).map (·.key)).Nodup) :
    (es.map (·.key)).countP
        (· ∈ Ledger.keys ⟨index.entries ++ [(e.identifier.key, e.identifier)]⟩) ≤
      (es.map (·.key)).countP (· ∈ index.keys) + if e.isStale then 1 else 0 := by
  obtain ⟨hpinned, hdistinct⟩ := List.nodup_cons.1 hdistinct
  have hkeys : Ledger.keys ⟨index.entries ++ [(e.identifier.key, e.identifier)]⟩ =
      index.keys ++ [e.identifier.key] :=
    List.map_append
  have hmet := countP_mem_append_singleton_le index.keys (es.map (·.key)) e.identifier.key
  rw [hkeys]
  split
  next =>
    have honce := List.nodup_iff_count_le_one.1 hdistinct e.identifier.key
    omega
  next hfresh =>
    -- the key that is held from now on is the pinned one, which no later entry has
    have hkey : e.identifier.key = e.key := not_not.1 (mt LockEntry.isStale_iff.2 hfresh)
    have hnever : (es.map (·.key)).count e.identifier.key = 0 :=
      List.count_eq_zero.2 (hkey ▸ hpinned)
    omega

/-- An entry under whose key something is found is stale, or its pinned key is held. -/
theorem one_le_of_get?_eq_some {first : Identifier}
    (h : index.get? e.identifier.key = some first) :
    1 ≤ (if e.isStale then 1 else 0) + if e.key ∈ index.keys then 1 else 0 := by
  have hheld : e.identifier.key ∈ index.keys :=
    List.mem_map_of_mem (Ledger.mem_of_get?_eq_some h)
  split
  next => omega
  next hfresh =>
    have hkey : e.identifier.key = e.key := not_not.1 (mt LockEntry.isStale_iff.2 hfresh)
    have hone : (if e.key ∈ index.keys then 1 else 0) = 1 := if_pos (hkey ▸ hheld)
    omega

/-! ## A lock -/

/-- **Entries with distinct keys have no more collisions** than there are stale ones among them and
ones whose keys are held before. -/
theorem length_collisionsFrom_le (index : Index) (hdistinct : (es.map (·.key)).Nodup) :
    (collisionsFrom index (es.map (·.identifier))).length ≤
      es.countP LockEntry.isStale + (es.map (·.key)).countP (· ∈ index.keys) := by
  induction es generalizing index with
  | nil => exact Nat.zero_le _
  | cons e es ih =>
    have hrest := (List.nodup_cons.1 hdistinct).2
    rw [List.map_cons, collisionsFrom, List.map_cons, List.countP_cons, List.countP_cons]
    simp only [decide_eq_true_eq]
    rcases index.offer_cases e.identifier with ⟨-, hoffer⟩ | ⟨-, hoffer⟩ | ⟨_, hget, -, hoffer⟩
    · have hpaid := countP_keys_append_le index hdistinct
      have hle := ih ⟨index.entries ++ [(e.identifier.key, e.identifier)]⟩ hrest
      simp only [hoffer]
      omega
    · have hle := ih index hrest
      simp only [hoffer]
      omega
    · have hpaid := one_le_of_get?_eq_some hget
      have hle := ih index hrest
      simp only [hoffer, List.length_cons]
      omega

/-- **A sorted lock has no more collisions than stale entries.** -/
theorem length_collisions_le {lock : Lock} (hsorted : Sorted lock.entries) :
    lock.collisions.length ≤ lock.entries.countP LockEntry.isStale := by
  have hle := length_collisionsFrom_le {} hsorted.nodup
  have hnone : (lock.entries.map (·.key)).countP (· ∈ Ledger.keys ({} : Index)) = 0 :=
    List.countP_eq_zero.2 fun _ _ => by simp [Ledger.keys]
  rwa [hnone, Nat.add_zero] at hle

/-- A sorted lock with a collision has a stale entry. -/
theorem exists_stale_of_collisions {lock : Lock} (hsorted : Sorted lock.entries)
    (h : lock.collisions ≠ []) : ∃ e ∈ lock.entries, e.identifier.key ≠ e.key := by
  have hpos : 0 < lock.entries.countP LockEntry.isStale :=
    Nat.lt_of_lt_of_le (List.length_pos_of_ne_nil h) (length_collisions_le hsorted)
  obtain ⟨e, he, hstale⟩ := List.countP_pos_iff.1 hpos
  exact ⟨e, he, LockEntry.isStale_iff.1 hstale⟩

/-- A sorted lock is clean if all of its entries are fresh. -/
theorem clean_iff_of_sorted {lock : Lock} (hsorted : Sorted lock.entries) :
    lock.Clean ↔ ∀ e ∈ lock.entries, e.identifier.key = e.key := by
  constructor
  · exact Clean.fresh
  · intro hfresh
    refine ⟨hfresh, ?_⟩
    by_contra hcollision
    obtain ⟨e, he, hne⟩ := exists_stale_of_collisions hsorted hcollision
    exact hne (hfresh e he)

end Lock

namespace Command

theorem exitCode_checkOutcome_eq_two_iff (lock : Lock) :
    (checkOutcome lock).exitCode = 2 ↔ lock.collisions ≠ [] := by
  rw [exitCode_checkOutcome]
  split
  next hcollision => exact iff_of_true rfl hcollision
  next hapart =>
    split
    · exact iff_of_false (by decide) hapart
    · exact iff_of_false (by decide) hapart

theorem exitCode_checkOutcome_eq_one_iff (lock : Lock) :
    (checkOutcome lock).exitCode = 1 ↔
      lock.collisions = [] ∧ ∃ e ∈ lock.entries, e.identifier.key ≠ e.key := by
  rw [exitCode_checkOutcome]
  split
  next hcollision => exact iff_of_false (by decide) fun h => hcollision h.1
  next hapart =>
    split
    next hstale => exact iff_of_true rfl ⟨not_not.1 hapart, hstale⟩
    next hfresh => exact iff_of_false (by decide) fun h => hfresh h.2

/-- **What the exit code of a check says.** A lock that was read has no more collisions than stale
entries. So its check ends with code zero exactly if every entry is fresh; with two exactly if there
is a collision, and then there is a stale entry too; and with one in all other cases. -/
theorem exitCode_checkOutcome_of_parse {text : String} {lock : Lock}
    (hlock : Lock.parse text = .ok lock) :
    lock.collisions.length ≤ lock.entries.countP (fun e => e.freshness ≠ .fresh) ∧
      ((checkOutcome lock).exitCode = 0 ↔ ∀ e ∈ lock.entries, e.freshness = .fresh) ∧
      ((checkOutcome lock).exitCode = 2 ↔
        lock.collisions ≠ [] ∧ ∃ e ∈ lock.entries, e.freshness ≠ .fresh) ∧
      ((checkOutcome lock).exitCode = 1 ↔
        lock.collisions = [] ∧ ∃ e ∈ lock.entries, e.freshness ≠ .fresh) ∧
      ∀ t settings, Settings.load t = .ok settings → t.readText settings.lockPath = .ok text →
        run t .check = (.ok (checkOutcome lock), t) := by
  have hsorted := Lock.sorted_of_parse hlock
  have hpaid := Lock.exists_stale_of_collisions hsorted
  refine ⟨Lock.length_collisions_le hsorted, ?_⟩
  simp only [ne_eq, LockEntry.freshness_eq_fresh_iff]
  refine ⟨?_, ?_, exitCode_checkOutcome_eq_one_iff lock, fun t settings hsettings htext => ?_⟩
  · rw [exitCode_checkOutcome_eq_zero_iff, Lock.clean_iff_of_sorted hsorted]
  · rw [exitCode_checkOutcome_eq_two_iff]
    exact ⟨fun hcollision => ⟨hcollision, hpaid hcollision⟩, And.left⟩
  · rw [run_check_eq hsettings htext, hlock]
    rfl

/-- A stale entry whose identifier has the key to which the fresh entry after it is pinned. -/
def crossedLock : Lock :=
  ⟨[⟨"a", .slashedPackage⟩, ⟨Identifier.slashedPath.key, .slashedPath⟩]⟩

theorem parse_crossedLock : Lock.parse crossedLock.serialize = .ok crossedLock := by
  have hsorted : Lock.Sorted crossedLock.entries := List.pairwise_pair.2 (by decide)
  have hformed : ∀ e ∈ crossedLock.entries, e.identifier.WellFormed :=
    List.forall_mem_cons.2 ⟨⟨by decide, by decide, by decide⟩,
      List.forall_mem_singleton.2 ⟨by decide, by decide, by decide⟩⟩
  rw [Lock.parse_serialize hsorted hformed, if_pos]
  decide

/-- The fresh entry collides, and the stale one pays for it. -/
theorem exitCode_checkOutcome_of_parse_crossed :
    Lock.parse crossedLock.serialize = .ok crossedLock ∧
      crossedLock.collisions.length = 1 ∧
      crossedLock.entries.countP (fun e => e.freshness ≠ .fresh) = 1 ∧
      ∃ o, run (treeOfLock crossedLock) .check = (.ok o, treeOfLock crossedLock) ∧
        o.exitCode = 2 := by
  obtain ⟨-, -, htwo, -, hrun⟩ := exitCode_checkOutcome_of_parse parse_crossedLock
  refine ⟨parse_crossedLock, by decide, by decide, _,
    hrun _ _ (load_treeOfLock _) (readText_treeOfLock _), htwo.2 ⟨by decide, ?_⟩⟩
  exact ⟨_, .head _, by decide⟩

end Command

end DocIdent
