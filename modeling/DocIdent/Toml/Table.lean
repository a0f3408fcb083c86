import DocIdent.Document

/-!
# TOML tables

A TOML text names the tables of a document by their paths, in any order, and says in three ways that
there is one: by a header, by a longer path in another header, or by a dotted key
(`Toml.Origin`). What has been said of a table limits what may still be said (`Toml.assign?`,
`Toml.declare?`). Lists of tables grow by one table with each of their headers; a path through such
a list goes to its last table.
-/

namespace DocIdent.Toml

/-- How it is known that there is a table. -/
inductive Origin where
  /-- It has a header. -/
  | stated
  /-- The header of a table inside it has its path. -/
  | implied
  /-- A dotted key goes through it. -/
  | dotted
  deriving DecidableEq

/-- What stands under a key. -/
inductive Node where
  /-- A value. -/
  | value (d : Document)
  /-- A table. -/
  | table (origin : Origin) (entries : List (String × Node))
  /-- A list of tables, the last one first. -/
  | tables (elements : List (List (String × Node)))
  deriving Inhabited

/-- Keys with what stands under them. -/
abbrev Entries := List (String × Node)

/-- Entries with something changed under a key, where there may be nothing yet. -/
def update? (key : String) (change : Option Node → Option Node) : Entries → Option Entries
  | [] => (change none).map fun n => [(key, n)]
  | (k, n) :: es =>
    if k = key then (change (some n)).map fun n => (k, n) :: es
    else (update? key change es).map ((k, n) :: ·)

/-- Entries with a value assigned to a path of keys. No key is assigned twice, and a path goes
through a table that has no header; the table that gets the value is one that dotted keys made. -/
def assign? (d : Document) : List String → Entries → Option Entries
  | [], _ => none
  | [key], es =>
    update? key (fun
      | none => some (.value d)
      | some _ => none) es
  | key :: key' :: path, es =>
    update? key (fun
      | none => (assign? d (key' :: path) []).map (.table .dotted)
      | some (.table .dotted inner) => (assign? d (key' :: path) inner).map (.table .dotted)
      | some (.table .implied inner) =>
        if path.isEmpty then none
        else (assign? d (key' :: path) inner).map (.table .implied)
      | some (.tables (last :: earlier)) =>
        if path.isEmpty then none
        else (assign? d (key' :: path) last).map fun last => .tables (last :: earlier)
      | some _ => none) es

/-- Entries with something changed at a path from a header. A table on the way is implied if it is
new. -/
def declare? (change : Option Node → Option Node) : List String → Entries → Option Entries
  | [], _ => none
  | [key], es => update? key change es
  | key :: key' :: path, es =>
    update? key (fun
      | none => (declare? change (key' :: path) []).map (.table .implied)
      | some (.table origin inner) => (declare? change (key' :: path) inner).map (.table origin)
      | some (.tables (last :: earlier)) =>
        (declare? change (key' :: path) last).map fun last => .tables (last :: earlier)
      | some _ => none) es

/-- The table that a header states, with its pairs put in. It is new or was only implied. -/
def stateTable? (fill : Entries → Option Entries) : Option Node → Option Node
  | none => (fill []).map (.table .stated)
  | some (.table .implied inner) => (fill inner).map (.table .stated)
  | some _ => none

/-- The list of tables that a header extends, with the pairs put into the new table. -/
def extendTables? (fill : Entries → Option Entries) : Option Node → Option Node
  | none => (fill []).map fun es => .tables [es]
  | some (.tables elements) => (fill []).map fun es => .tables (es :: elements)
  | some _ => none

mutual

/-- The document of what stands under a key. -/
def Node.toDocument : Node → Document
  | .value d => d
  | .table _ entries => .record (fieldsOf entries)
  | .tables elements => .list (itemsOf elements).reverse

/-- The fields that entries make. -/
def fieldsOf : List (String × Node) → List (String × Document)
  | [] => []
  | (key, n) :: es => (key, n.toDocument) :: fieldsOf es

/-- The items that tables make. -/
def itemsOf : List (List (String × Node)) → List Document
  | [] => []
  | es :: ess => .record (fieldsOf es) :: itemsOf ess

end

/-- Entries make one field each, in order. -/
theorem fieldsOf_eq_map (es : Entries) : fieldsOf es = es.map fun e => (e.1, e.2.toDocument) := by
  induction es with
  | nil => rfl
  | cons e es ih => simp [fieldsOf, ih]

/-- Tables make one record each, in order. -/
theorem itemsOf_eq_map (ess : List Entries) :
    itemsOf ess = ess.map fun es => .record (fieldsOf es) := by
  induction ess with
  | nil => rfl
  | cons es ess ih => simp [itemsOf, ih]

end DocIdent.Toml
