import DocIdent.Identifier

/-!
# Indexes

An index holds identifiers under their keys, in the order in which they first came (`Index`). Two
different identifiers may have one key; the index then keeps the first and reports the collision
(`Index.offer`, whose answer alone is `Index.insert`). Whole lists are indexed one by one
(`Index.ofList`), and an index is taken into another entry by entry (`Index.merge`), up to the first
collision; what was taken in before it stays.
-/

namespace DocIdent

/-- Two different identifiers with one key. -/
structure Collision where
  /-- The key of both. -/
  key : String
  /-- The identifier that had the key. -/
  first : Identifier
  /-- The identifier that came later. -/
  second : Identifier
  deriving DecidableEq

/-- Identifiers under their keys. -/
abbrev Index := Ledger Identifier

namespace Index

/-- The index that is left when an identifier is offered to it, and whether the identifier is new
to it, or the collision that keeps it out. -/
def offer (index : Index) (d : Identifier) : Index × Except Collision Bool :=
  match index.get? d.key with
  | none => (⟨index.entries ++ [(d.key, d)]⟩, .ok true)
  | some first => (index, if first = d then .ok false else .error ⟨d.key, first, d⟩)

/-- The index with an identifier, and whether it is new to it, if nothing keeps it out. -/
def insert (index : Index) (d : Identifier) : Except Collision (Index × Bool) :=
  (index.offer d).2.map fun isNew => ((index.offer d).1, isNew)

/-- The index with identifiers taken in one by one, and the collision that ended this, if one
did. -/
def insertEach (index : Index) : List Identifier → Index × Option Collision
  | [] => (index, none)
  | d :: ds =>
    match index.offer d with
    | (index, .ok _) => insertEach index ds
    | (index, .error collision) => (index, some collision)

/-- The index of a list of identifiers. -/
def ofList (ds : List Identifier) : Except Collision Index :=
  match insertEach {} ds with
  | (index, none) => .ok index
  | (_, some collision) => .error collision

/-- The identifiers, oldest first. -/
def identifiers (index : Index) : List Identifier :=
  index.entries.map (·.2)

/-- An index with another taken into it. What came before a collision stays. -/
def merge (index other : Index) : Index × Option Collision :=
  index.insertEach other.identifiers

end Index

end DocIdent
