import DocIdent.Lock.File
import DocIdent.Proofs.Lock.Order
import DocIdent.Proofs.Schema.Tables

/-!
# The text of a lock

The text of a lock gives back its entries if its identifiers fit, and nothing if one does not
(`Lock.entries_read_back`). With keys in order the lock itself is read back
(`Lock.parse_serialize_eq_ok_iff`); its keys need not be those that its identifiers have.
-/

namespace DocIdent

/-- An identifier is read back from its document as it stands in a text. -/
theorem Identifier.ofDocument?_tidied {d : Identifier} (h : d.WellFormed) :
    ofDocument? .toml (Toml.tidied d.toDocument) = some d := by
  rw [Toml.tidied_identifier]
  refine ofDocument?_fieldsWith h ?_
  cases d.callable with
  | none => rfl
  | some c =>
    obtain ⟨fs, hfs, hperm⟩ := Toml.tidied_callable c
    rw [Option.map_some, hfs, Document.optional?_record, Callable.ofDocument?_of_perm c hperm]
    rfl

namespace Lock

/-- **The entries of a lock are read back from its text** if its identifiers fit; if one does not,
the text cannot be read. -/
theorem entries_read_back {lock : Lock} (h : ∀ e ∈ lock.entries, e.identifier.WellFormed) :
    (Toml.read? lock.serialize).bind (entriesOfDocument? .toml) =
      if ∀ e ∈ lock.entries, e.identifier.FitsLock then some lock.entries else none := by
  have hread := Toml.read?_write (Toml.isTabular_lock lock)
  rw [serialize]
  by_cases hfits : ∀ e ∈ lock.entries, e.identifier.FitsLock
  · rw [if_pos ((Toml.headersFit_lock lock.entries).2 hfits)] at hread
    rw [if_pos hfits, toDocument, hread, Option.bind_some]
    exact (congrArg (entriesOfDocument? .toml) (Toml.tidied_lock lock)).trans
      (entriesOfDocument?_record fun e he =>
        LockEntry.ofDocument?_record (Identifier.ofDocument?_tidied (h e he)))
  · rw [if_neg (mt (Toml.headersFit_lock lock.entries).1 hfits)] at hread
    rw [if_neg hfits, toDocument, hread]
    rfl

/-- Reading the text of a lock whose keys increase is reading its entries. -/
theorem parse_serialize {lock : Lock} (hsorted : Sorted lock.entries)
    (h : ∀ e ∈ lock.entries, e.identifier.WellFormed) :
    parse lock.serialize =
      if ∀ e ∈ lock.entries, e.identifier.FitsLock then .ok lock else .error (.tomlRead "") := by
  rw [parse, entries_read_back h]
  by_cases hfits : ∀ e ∈ lock.entries, e.identifier.FitsLock
  · have hok : ofEntries lock.entries = .ok lock := ofEntries_eq_ok_iff.2 ⟨hsorted, rfl⟩
    rw [if_pos hfits, if_pos hfits]
    simp only [hok]
    rfl
  · rw [if_neg hfits, if_neg hfits]

/-- **A lock is read back from its text** exactly if its identifiers fit, provided that its keys
increase and its identifiers are well formed. The keys need not be those that the identifiers
have. -/
theorem parse_serialize_eq_ok_iff {lock : Lock} (hsorted : Sorted lock.entries)
    (h : ∀ e ∈ lock.entries, e.identifier.WellFormed) :
    parse lock.serialize = .ok lock ↔ ∀ e ∈ lock.entries, e.identifier.FitsLock := by
  rw [parse_serialize hsorted h]
  constructor
  · intro hok
    by_contra hfits
    rw [if_neg hfits] at hok
    cases hok
  · intro hfits
    rw [if_pos hfits]

/-! ## At the limit -/

end Lock

namespace TypeRef

/-- Any type, so many times or null. -/
def nullableStar : Nat → TypeRef
  | 0 => .star
  | n + 1 => .nullable (nullableStar n)

@[simp] theorem nesting_nullableStar (n : Nat) : (nullableStar n).nesting = n := by
  induction n with
  | zero => rfl
  | succ n ih => rw [nullableStar, nesting, ih]

end TypeRef

namespace Lock

/-- An extension function whose receiver is a type of so many levels, with unusual texts. -/
def receiving (levels : Nat) : Identifier where
  package := some "a\\'''\n"
  metadata := some "\x00\"\"\""
  callable := some { name := "#", receiver := some (TypeRef.nullableStar levels) }

theorem wellFormed_receiving (levels : Nat) : (receiving levels).WellFormed where
  package h := absurd (Option.some.inj h) (by decide)
  classPath h := nomatch h
  metadata h := absurd (Option.some.inj h) (by decide)

/-- It fits if its receiver does. -/
theorem fitsLock_receiving_iff (levels : Nat) :
    (receiving levels).FitsLock ↔ levels ≤ TypeRef.nestingLimit := by
  simp [receiving, Identifier.FitsLock, Callable.types]

/-- Two entries with one identifier, under other keys than its own. -/
def receivingTwice (levels : Nat) : Lock :=
  ⟨[⟨"", receiving levels⟩, ⟨"'\n", receiving levels⟩]⟩

theorem sorted_receivingTwice (levels : Nat) : Sorted (receivingTwice levels).entries := by
  have hbefore : Text.Before "" "'\n" := by decide
  exact List.pairwise_pair.2 hbefore

theorem identifier_receivingTwice {levels : Nat} :
    ∀ e ∈ (receivingTwice levels).entries, e.identifier = receiving levels := by
  intro e he
  simp only [receivingTwice, List.mem_cons, List.not_mem_nil, or_false] at he
  rcases he with rfl | rfl
  · rfl
  · rfl

theorem wellFormed_receivingTwice (levels : Nat) :
    ∀ e ∈ (receivingTwice levels).entries, e.identifier.WellFormed := fun e he => by
  rw [identifier_receivingTwice e he]
  exact wellFormed_receiving levels

theorem fitsLock_receivingTwice {levels : Nat} (h : levels ≤ TypeRef.nestingLimit) :
    ∀ e ∈ (receivingTwice levels).entries, e.identifier.FitsLock := fun e he => by
  rw [identifier_receivingTwice e he]
  exact (fitsLock_receiving_iff levels).2 h

/-- A lock gives back a receiver of 75 levels, but none of 76. -/
theorem parse_serialize_eq_ok_iff_receiving :
    parse (receivingTwice 75).serialize = .ok (receivingTwice 75) ∧
      parse (receivingTwice 76).serialize ≠ .ok (receivingTwice 76) := by
  constructor
  · exact (parse_serialize_eq_ok_iff (sorted_receivingTwice 75) (wellFormed_receivingTwice 75)).2
      (fitsLock_receivingTwice (by decide))
  · intro h
    have hfits := (parse_serialize_eq_ok_iff (sorted_receivingTwice 76)
      (wellFormed_receivingTwice 76)).1 h _ (.head _)
    exact absurd ((fitsLock_receiving_iff 76).1 hfits) (by decide)

end Lock

end DocIdent
