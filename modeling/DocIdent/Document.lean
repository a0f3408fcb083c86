import DocIdent.Document.Decimal

/-!
# Documents

What a JSON text or a TOML text says, apart from how it says it (`Document`): texts, numbers, lists,
and records, which keep their fields in the order of the text and keep a field that stands twice. A
document nests as deep as its lists and records do (`Document.depth`).

A text may be well formed and yet have a part that no one can take in, such as a number beyond all
range or a list nested too deep. Such a part is unreadable: it can be passed over like any other,
but nothing is read from it. A document is readable if it has no such part (`Document.isReadable`).
-/

namespace DocIdent

/-- Structured data. -/
inductive Document where
  /-- Nothing. -/
  | null
  /-- A truth value. -/
  | bool (b : Bool)
  /-- A whole number. -/
  | int (i : Int)
  /-- Another number; none for one that no decimal writes. -/
  | real (d : Option Decimal)
  /-- A text. -/
  | text (s : String)
  /-- Items in order. -/
  | list (items : List Document)
  /-- Fields by name, in order. -/
  | record (fields : List (String × Document))
  /-- Something that can only be passed over. -/
  | unreadable
  deriving Inhabited

namespace Document

mutual

/-- How deep lists and records nest. -/
def depth : Document → Nat
  | .list items => depthOfItems items + 1
  | .record fields => depthOfFields fields + 1
  | .null | .bool _ | .int _ | .real _ | .text _ | .unreadable => 0

/-- How deep the deepest of some items nests. -/
def depthOfItems : List Document → Nat
  | [] => 0
  | d :: ds => max (depth d) (depthOfItems ds)

/-- How deep the deepest of some fields nests. -/
def depthOfFields : List (String × Document) → Nat
  | [] => 0
  | (_, d) :: fs => max (depth d) (depthOfFields fs)

end

mutual

/-- No part is unreadable. -/
def isReadable : Document → Bool
  | .list items => itemsReadable items
  | .record fields => fieldsReadable fields
  | .unreadable => false
  | .null | .bool _ | .int _ | .real _ | .text _ => true

/-- No part of some items is unreadable. -/
def itemsReadable : List Document → Bool
  | [] => true
  | d :: ds => isReadable d && itemsReadable ds

/-- No part of some fields is unreadable. -/
def fieldsReadable : List (String × Document) → Bool
  | [] => true
  | (_, d) :: fs => isReadable d && fieldsReadable fs

end

/-- The number of a 32-bit word. -/
def word (n : UInt32) : Document :=
  .int n.toNat

/-- The field of a name, as a list of none or one. -/
def field (name : String) (d : Document) : List (String × Document) :=
  [(name, d)]

/-- The field of a name if there is something to put into it. -/
def optionalField (name : String) : Option Document → List (String × Document)
  | some d => field name d
  | none => []

end Document

end DocIdent
