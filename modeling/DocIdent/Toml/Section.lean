import DocIdent.Toml.Value

/-!
# TOML sections

A TOML text is a sequence of sections (`Toml.Section`): pairs of keys and values under a header,
which names a table or adds one to a list of tables. The first section has no header and belongs to
the whole document. A text is read statement by statement (`Toml.readSections?`), sections make up a
document (`Toml.ofSections?`), a document falls into sections (`Toml.sections`), and each section is
written with an empty line before it unless it is the first (`Toml.sectionsChars`).
-/

namespace DocIdent.Toml

/-- What a section is about. -/
inductive Header where
  /-- The whole document. -/
  | document
  /-- The table at a path. -/
  | table (path : List String)
  /-- A new table at the end of the list at a path. -/
  | element (path : List String)

/-- Pairs under a header. -/
structure Section where
  /-- What the section is about. -/
  header : Header
  /-- The pairs, each a path of keys with its value. -/
  pairs : List (List String × Document)

/-- One statement of a text. -/
inductive Statement where
  /-- The header of a section. -/
  | header (h : Header)
  /-- A pair. -/
  | pair (path : List String) (value : Document)

/-- What follows the end of a line, with blanks and a comment before it. -/
def afterLine? (cs : List Char) : Option (List Char) :=
  let cs := match skipSpaces cs with
    | '#' :: cs => cs.dropWhile isTextChar
    | cs => cs
  if cs.isEmpty then some [] else afterBreak? cs

/-- A header at the beginning, after its first bracket, and what follows its line. -/
def readHeader? : List Char → Option (Header × List Char)
  | '[' :: cs => do
    let (path, cs) ← readPath? cs
    return (.element path, ← afterLine? (← after? ']' (← after? ']' cs)))
  | cs => do
    let (path, cs) ← readPath? cs
    return (.table path, ← afterLine? (← after? ']' cs))

/-- The statement at the beginning, if the line has one, and what follows the line. -/
def readStatement? (cs : List Char) : Option (Option Statement × List Char) :=
  match skipSpaces cs with
  | '#' :: _ | '\n' :: _ | '\r' :: _ => (afterLine? cs).map fun rest => (none, rest)
  | '[' :: cs => (readHeader? cs).map fun r => (some (.header r.1), r.2)
  | cs => do
    let (path, cs) ← readPath? cs
    let (d, cs) ← readValue? (skipSpaces (← after? '=' cs))
    return (some (.pair path d), ← afterLine? cs)

/-- The statements of a text. Each takes at least one character, so there are no more of them than
`fuel` if the text is shorter than that. -/
def readStatements? : Nat → List Char → Option (List Statement)
  | 0, _ => none
  | fuel + 1, cs =>
    if (skipSpaces cs).isEmpty then some []
    else do
      let (statement, cs) ← readStatement? cs
      let rest ← readStatements? fuel cs
      return statement.toList ++ rest

/-- The sections that statements make, after the pairs that the first section has already, which
come last to first. -/
def sectionsOf (header : Header) (pairs : List (List String × Document)) :
    List Statement → List Section
  | [] => [⟨header, pairs.reverse⟩]
  | .pair path d :: rest => sectionsOf header ((path, d) :: pairs) rest
  | .header h :: rest => ⟨header, pairs.reverse⟩ :: sectionsOf h [] rest

/-- The sections of a text. -/
def readSections? (cs : List Char) : Option (List Section) :=
  (readStatements? (cs.length + 1) cs).map (sectionsOf .document [])

/-- Entries with the pairs of a section put in. -/
def fill? (pairs : List (List String × Document)) (es : Entries) : Option Entries :=
  pairs.foldlM (fun es p => assign? p.2 p.1 es) es

/-- Entries with a section put in. -/
def addSection? (es : Entries) (s : Section) : Option Entries :=
  match s.header with
  | .document => fill? s.pairs es
  | .table path => declare? (stateTable? (fill? s.pairs)) path es
  | .element path => declare? (extendTables? (fill? s.pairs)) path es

/-- The document that sections make up. -/
def ofSections? (ss : List Section) : Option Document :=
  (ss.foldlM addSection? []).map fun es => .record (fieldsOf es)

/-- The document is a record. -/
def isRecord : Document → Bool
  | .record _ => true
  | _ => false

/-- A value that gets sections of its own: a record, or a list of records that is not empty. -/
def hasSections : Document → Bool
  | .record _ => true
  | .list items => !items.isEmpty && items.all isRecord
  | _ => false

/-- The fields of a record that stand in its own section. -/
def ownPairs (fields : List (String × Document)) : List (List String × Document) :=
  (fields.filter fun f => !hasSections f.2).map fun f => ([f.1], f.2)

/-- The section of a table. A table that has nothing but tables inside does without. -/
def tableSection (path : List String) (fields : List (String × Document)) : List Section :=
  if fields.isEmpty || !(ownPairs fields).isEmpty then [⟨.table path, ownPairs fields⟩] else []

mutual

/-- The sections of the value at a path. -/
def sectionsAt (path : List String) : Document → List Section
  | .record fields => tableSection path fields ++ sectionsIn path fields
  | .list items => if hasSections (.list items) then elementsAt path items else []
  | .null | .bool _ | .int _ | .real _ | .text _ | .unreadable => []

/-- The sections of the fields of a table at a path. -/
def sectionsIn (path : List String) : List (String × Document) → List Section
  | [] => []
  | (key, d) :: fs => sectionsAt (path ++ [key]) d ++ sectionsIn path fs

/-- The sections of the tables of a list at a path. -/
def elementsAt (path : List String) : List Document → List Section
  | [] => []
  | .record fields :: ds =>
    ⟨.element path, ownPairs fields⟩ :: sectionsIn path fields ++ elementsAt path ds
  | .null :: ds | .bool _ :: ds | .int _ :: ds | .real _ :: ds | .text _ :: ds | .list _ :: ds
  | .unreadable :: ds => elementsAt path ds

end

/-- The sections of a document. Its own section is left out if it has no pairs. -/
def sections (d : Document) : List Section :=
  match d with
  | .record fields =>
    (if (ownPairs fields).isEmpty then [] else [⟨.document, ownPairs fields⟩]) ++
      sectionsIn [] fields
  | _ => []

/-- A header line. -/
def headerChars : Header → List Char
  | .document => []
  | .table path => '[' :: pathChars path ++ [']', '\n']
  | .element path => '[' :: '[' :: pathChars path ++ [']', ']', '\n']

/-- A line with a pair. -/
def pairLine (p : List String × Document) : List Char :=
  pathChars p.1 ++ [' ', '=', ' '] ++ valueChars p.2 ++ ['\n']

/-- A section as it is written. -/
def sectionChars (s : Section) : List Char :=
  headerChars s.header ++ s.pairs.flatMap pairLine

/-- Sections as they are written. -/
def sectionsChars (ss : List Section) : List Char :=
  ['\n'].intercalate (ss.map sectionChars)

/-- The text after a byte order mark. -/
def withoutMark : List Char → List Char
  | '\uFEFF' :: cs => cs
  | cs => cs

/-- The document of a TOML text. -/
def read? (s : String) : Option Document := do
  ofSections? (← readSections? (withoutMark s.toList))

/-- A document as a TOML text. -/
def write (d : Document) : String :=
  String.ofList (sectionsChars (sections d))

end DocIdent.Toml
