import DocIdent.Ledger
import DocIdent.Metadata.Property

/-!
# Metadata

Facts attached to an identifier beyond its structure. They travel as one text, the blob, in which
keys and values take turns with a slash between any two (`Metadata.blob`), and are worked on as a
ledger from keys to stored texts (`Metadata`). A blob is well formed when it has a value for every
key and no key twice (`Metadata.read`). Facts are set, read and removed through their properties; a
key that no property of the caller knows is kept as it is.
-/

namespace DocIdent

/-- The facts of an identifier, in the order in which they were set. -/
abbrev Metadata := Ledger String

namespace Metadata

/-- What keeps a blob from being read or a fact from being stored. -/
inductive Fault where
  /-- The last key of a blob has no value. -/
  | danglingKey (blob key : String)
  /-- A blob has a key twice. -/
  | repeatedKey (blob key : String)
  /-- A key is empty or holds a separator. -/
  | invalidKey (key : String)
  /-- A value's text holds a separator. -/
  | invalidValue (key value : String)
  deriving DecidableEq

/-- The character between keys and values. -/
def separator : Char := '/'

/-- Reads keys and values in turn, after the facts that were read before them. -/
def readPairs (blob : String) (read : List (String × String)) :
    List String → Except Fault (List (String × String))
  | [] => .ok read
  | [key] => .error (.danglingKey blob key)
  | key :: value :: rest =>
    if key ∈ read.map (·.1) then .error (.repeatedKey blob key)
    else readPairs blob (read ++ [(key, value)]) rest

/-- The pieces of a text between its separators. -/
def segments (blob : String) : List String :=
  (blob.toList.splitOn separator).map String.ofList

/-- The facts of a blob. No blob and the empty blob hold none. -/
def read (blob : Option String) : Except Fault Metadata :=
  match blob with
  | none => .ok {}
  | some blob =>
    if blob = "" then .ok {}
    else (readPairs blob [] (segments blob)).map fun entries => { entries }

/-- The blob of some facts; no facts make no blob. -/
def blob (m : Metadata) : Option String :=
  if m.isEmpty then none
  else
    let parts := m.entries.flatMap fun e => [e.1.toList, e.2.toList]
    some (String.ofList ([separator].intercalate parts))

/-- The value of a property, if its key holds a text that is one. -/
def value? {α : Type} (m : Metadata) (p : Property α) : Option α :=
  (m.get? p.key).bind p.decode

/-- The key of a property is there, whatever it holds. -/
def has {α : Type} (m : Metadata) (p : Property α) : Bool :=
  m.contains p.key

/-- The facts with a property set. A value that has nothing to store leaves them as they are. -/
def set {α : Type} (m : Metadata) (p : Property α) (a : α) : Except Fault Metadata :=
  if p.key = "" ∨ separator ∈ p.key.toList then .error (.invalidKey p.key)
  else
    match p.encode a with
    | none => .ok m
    | some text =>
      if separator ∈ text.toList then .error (.invalidValue p.key text)
      else .ok (m.store p.key text)

/-- The facts without a property. -/
def unset {α : Type} (m : Metadata) (p : Property α) : Metadata :=
  m.erase p.key

/-- What a fault says. -/
def Fault.message : Fault → String
  | .danglingKey blob key => "extra blob `" ++ blob ++ "` has a dangling key `" ++ key ++ "`"
  | .repeatedKey blob key => "extra blob `" ++ blob ++ "` repeats key `" ++ key ++ "`"
  | .invalidKey key => "extra key `" ++ key ++ "` is empty or contains `/`"
  | .invalidValue key value => "extra value `" ++ value ++ "` for `" ++ key ++ "` contains `/`"

end Metadata

end DocIdent
