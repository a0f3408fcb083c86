import DocIdent.Json.Token

/-!
# Reading JSON

The tokens of a JSON text make up a document (`Json.ofTokens?`). The reader keeps the lists and
records that are open around it (`Json.Frame`) and what may come next (`Json.Expecting`); each token
takes it one step on (`Json.Reader.feed?`). Lists and records that nest deeper than the reader is
allowed to go are unreadable, and so is a record that has a field whose name is no text.
-/

namespace DocIdent.Json

/-- A list or record that is open. What it holds so far comes last to first. -/
inductive Frame where
  /-- A list. -/
  | list (items : List Document)
  /-- A record. -/
  | record (fields : List (Option String × Document))
  /-- A record with the name of the field whose value comes next. -/
  | field (fields : List (Option String × Document)) (name : Option String)

/-- What may come next. -/
inductive Expecting where
  /-- A value, or the end of a list that has no item yet. -/
  | value (orEnd : Bool)
  /-- The name of a field, or the end of a record that has no field yet. -/
  | name (orEnd : Bool)
  /-- The colon after a field's name. -/
  | colon
  /-- A comma or the end of the innermost list or record. -/
  | commaOrEnd
  /-- Nothing: the text is complete. -/
  | nothing (d : Document)

/-- Where the reader is. -/
structure Reader where
  /-- The open lists and records, innermost first. -/
  frames : List Frame
  /-- What may come next. -/
  expecting : Expecting

namespace Reader

/-- The reader before a text. -/
def start : Reader := ⟨[], .value false⟩

/-- The reader after a value that stands inside the given lists and records. -/
def complete? (d : Document) : List Frame → Option Reader
  | [] => some ⟨[], .nothing d⟩
  | .list items :: frames => some ⟨.list (d :: items) :: frames, .commaOrEnd⟩
  | .field fields name :: frames => some ⟨.record ((name, d) :: fields) :: frames, .commaOrEnd⟩
  | .record _ :: _ => none

/-- A document inside the given lists and records, unless it nests too deep there. No more of them
are counted than the limit needs. -/
def within (limit : Nat) (frames : List Frame) (d : Document) : Document :=
  if (frames.take limit).length < limit then d else .unreadable

/-- The record of fields, if all of them have names. -/
def recordOf (fields : List (Option String × Document)) : Document :=
  match fields.mapM fun f => f.1.map (·, f.2) with
  | some fields => .record fields
  | none => .unreadable

/-- The reader after the end of the innermost list. -/
def endList? (limit : Nat) : List Frame → Option Reader
  | .list items :: frames => complete? (within limit frames (.list items.reverse)) frames
  | _ => none

/-- The reader after the end of the innermost record. -/
def endRecord? (limit : Nat) : List Frame → Option Reader
  | .record fields :: frames => complete? (within limit frames (recordOf fields.reverse)) frames
  | _ => none

/-- The document of a text, if it is one. -/
def ofText : Option String → Document
  | some s => .text s
  | none => .unreadable

/-- The reader after one more token, if the token may come. -/
def feed? (limit : Nat) (r : Reader) (t : Token) : Option Reader :=
  match r.expecting, t with
  | .value _, .scalar d => complete? d r.frames
  | .value _, .text s => complete? (ofText s) r.frames
  | .value _, .openList => some ⟨.list [] :: r.frames, .value true⟩
  | .value _, .openRecord => some ⟨.record [] :: r.frames, .name true⟩
  | .value true, .closeList => endList? limit r.frames
  | .name true, .closeRecord => endRecord? limit r.frames
  | .name _, .text name =>
    match r.frames with
    | .record fields :: frames => some ⟨.field fields name :: frames, .colon⟩
    | _ => none
  | .colon, .colon => some ⟨r.frames, .value false⟩
  | .commaOrEnd, .comma =>
    match r.frames with
    | .list _ :: _ => some ⟨r.frames, .value false⟩
    | .record _ :: _ => some ⟨r.frames, .name false⟩
    | _ => none
  | .commaOrEnd, .closeList => endList? limit r.frames
  | .commaOrEnd, .closeRecord => endRecord? limit r.frames
  | _, _ => none

/-- The document of a reader that expects nothing more. -/
def document? (r : Reader) : Option Document :=
  match r.expecting with
  | .nothing d => some d
  | _ => none

end Reader

/-- The document that tokens make up, readable where at most `limit` lists and records are in each
other. -/
def ofTokens? (limit : Nat) (ts : List Token) : Option Document := do
  (← ts.foldlM (Reader.feed? limit) .start).document?

/-- How many lists and records may be in each other where a text is readable. -/
def nestingLimit : Nat := 127

/-- The document of a JSON text, readable where at most `limit` lists and records are in each
other. -/
def readWithin? (limit : Nat) (s : String) : Option Document := do
  ofTokens? limit (← tokens? s.toList)

/-- The document of a JSON text. -/
def read? (s : String) : Option Document :=
  readWithin? nestingLimit s

end DocIdent.Json
