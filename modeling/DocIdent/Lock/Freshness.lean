import DocIdent.Lock

/-!
# Freshness

A lock entry is fresh while its identifier still has the pinned key, and stale once it has another
(`LockEntry.freshness`). Identifiers pinned to different keys may come to share one; the collisions
of a lock are what an index reports that takes in its identifiers one after the other and goes on
after each collision (`Lock.collisions`).
-/

namespace DocIdent

/-- Whether an identifier still has its pinned key. -/
inductive Freshness where
  /-- It has. -/
  | fresh
  /-- It has another key now. -/
  | stale (current : String)
  deriving DecidableEq

/-- Whether the identifier of an entry still has its pinned key. -/
def LockEntry.freshness (e : LockEntry) : Freshness :=
  if e.identifier.key = e.key then .fresh else .stale e.identifier.key

namespace Lock

/-- The collisions met by an index that takes in identifiers one after the other. -/
def collisionsFrom (index : Index) : List Identifier → List Collision
  | [] => []
  | d :: ds =>
    match index.offer d with
    | (index, .ok _) => collisionsFrom index ds
    | (index, .error collision) => collision :: collisionsFrom index ds

/-- The collisions among the identifiers of a lock, in the order of its entries. -/
def collisions (lock : Lock) : List Collision :=
  collisionsFrom {} (lock.entries.map (·.identifier))

end Lock

end DocIdent
