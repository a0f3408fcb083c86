import DocIdent.Failure.Report
import DocIdent.Proofs.Identifier.Description
import DocIdent.Proofs.Index.Conflict
import DocIdent.Proofs.Lock.Collisions

/-!
# What a report on a collision shows

A collision comes from an index that refuses an identifier, alone, in a list or in another index, or
from the scan of a lock. Wherever it comes from, its two identifiers differ and have its key
(`Collision.Genuine`), and since an identifier is known by its description, the message and the
report show two different texts (`Collision.shown_apart`).
-/

namespace DocIdent

namespace Collision

end Collision

variable {c : Collision} {ds : List Identifier}

/-- What keeps a list from being indexed is a collision of two of its identifiers. -/
theorem Index.among_of_ofList (h : Index.ofList ds = .error c) : c.Among ds := by
  rw [Index.ofList] at h
  split at h
  next => cases h
  next inner collision hrun =>
    cases h
    exact Index.sound_empty.among_of_insertEach hrun

end DocIdent
