import DocIdent.Index
import DocIdent.Text.Order

/-!
# Locks

A lock pins identifiers to the keys they had when it was made (`Lock`). The lock of an index holds
its entries in the order of their keys (`Lock.ofIndex`). A lock that was read is taken only if its
keys increase strictly from entry to entry (`Lock.corruption?`), so that no key stands twice.
-/

namespace DocIdent

/-- An identifier and the key to which it is pinned. -/
structure LockEntry where
  /-- The pinned key. -/
  key : String
  /-- The identifier. -/
  identifier : Identifier
  deriving DecidableEq, Inhabited

/-- Pinned identifiers. -/
structure Lock where
  /-- The pinned identifiers, in the order of their keys. -/
  entries : List LockEntry
  deriving DecidableEq, Inhabited

namespace Lock

/-- What is wrong with the entries of a lock. -/
inductive Corruption where
  /-- A key does not come before the key after it. -/
  | misplaced (key next : String)
  /-- There are no two entries to compare where there should be. -/
  | shortWindow
  /-- Something else, in the words of whoever found it. -/
  | stated (reason : String)
  deriving DecidableEq

/-- The windows of a list: each run of so many items, from left to right. -/
def windows {α : Type} (size : Nat) : List α → List (List α)
  | [] => []
  | a :: rest =>
    let window := (a :: rest).take size
    if window.length = size then window :: windows size rest else []

/-- What is wrong with a window of two entries. -/
def windowCorruption? : List LockEntry → Option Corruption
  | [a, b] => if Text.Before a.key b.key then none else some (.misplaced a.key b.key)
  | _ => some .shortWindow

/-- What is wrong with the first two neighbours that are not in order. -/
def corruption? (entries : List LockEntry) : Option Corruption :=
  (windows 2 entries).findSome? windowCorruption?

/-- The lock of entries whose keys increase. -/
def ofEntries (entries : List LockEntry) : Except Corruption Lock :=
  match corruption? entries with
  | none => .ok ⟨entries⟩
  | some corruption => .error corruption

/-- The lock of an index. -/
def ofIndex (index : Index) : Lock :=
  ⟨(index.entries.map fun e => ⟨e.1, e.2⟩).mergeSort fun a b => Text.notAfter a.key b.key⟩

/-- What a corruption says. -/
def Corruption.message : Corruption → String
  | .misplaced key next => "entries not sorted: `" ++ key ++ "` >= `" ++ next ++ "`"
  | .shortWindow => "window shorter than two entries"
  | .stated reason => reason

end Lock

end DocIdent
