import DocIdent.Document

/-!
# Writing JSON

A document is written as JSON on one line without any white space (`Json.compact`), or on as many
lines as it has items and fields, indented by two blanks for each list or record around them
(`Json.pretty`). An empty list or record takes no line of its own.
-/

namespace DocIdent.Json

/-- The written form of one character of a text. -/
def textChar (c : Char) : List Char :=
  if c = '"' then ['\\', '"']
  else if c = '\\' then ['\\', '\\']
  else if c = '\x08' then ['\\', 'b']
  else if c = '\x0c' then ['\\', 'f']
  else if c = '\n' then ['\\', 'n']
  else if c = '\r' then ['\\', 'r']
  else if c = '\t' then ['\\', 't']
  else if c.toNat < 0x20 then ['\\', 'u'] ++ Text.hexFixed 4 c.toNat
  else [c]

/-- The written form of a text. -/
def textChars (s : String) : List Char :=
  '"' :: s.toList.flatMap textChar ++ ['"']

/-- The written form of a whole number. -/
def intChars : Int → List Char
  | .ofNat n => Text.decimal n
  | .negSucc n => '-' :: Text.decimal (n + 1)

/-- The written form of another number. -/
def decimalChars (d : Decimal) : List Char :=
  (if d.negative then ['-'] else []) ++ Text.decimal d.significand ++ 'e' :: intChars d.exponent

/-- The written form of a document that is neither list nor record. What is unreadable is written
like nothing. -/
def scalarChars : Document → List Char
  | .bool true => "true".toList
  | .bool false => "false".toList
  | .int i => intChars i
  | .real (some d) => decimalChars d
  | .text s => textChars s
  | .null | .real none | .list _ | .record _ | .unreadable => "null".toList

mutual

/-- The characters of a document on one line. -/
def compactChars : Document → List Char
  | .list items => '[' :: [','].intercalate (compactItems items) ++ [']']
  | .record fields => '\x7b' :: [','].intercalate (compactFields fields) ++ ['\x7d']
  | d@(.null) | d@(.bool _) | d@(.int _) | d@(.real _) | d@(.text _) | d@(.unreadable) =>
    scalarChars d

/-- The characters of each item. -/
def compactItems : List Document → List (List Char)
  | [] => []
  | d :: ds => compactChars d :: compactItems ds

/-- The characters of each field. -/
def compactFields : List (String × Document) → List (List Char)
  | [] => []
  | (name, d) :: fs => (textChars name ++ ':' :: compactChars d) :: compactFields fs

end

/-- A line break with the indentation of a level. -/
def lineBreak (level : Nat) : List Char :=
  '\n' :: List.replicate (2 * level) ' '

/-- Parts on lines of their own one level further in, between an opening and a closing mark. -/
def block (level : Nat) (opening closing : Char) (parts : List (List Char)) : List Char :=
  if parts.isEmpty then [opening, closing]
  else
    opening :: (lineBreak (level + 1)) ++ (',' :: lineBreak (level + 1)).intercalate parts ++
      lineBreak level ++ [closing]

mutual

/-- The characters of a document whose first line stands at a level. -/
def prettyChars (level : Nat) : Document → List Char
  | .list items => block level '[' ']' (prettyItems (level + 1) items)
  | .record fields => block level '\x7b' '\x7d' (prettyFields (level + 1) fields)
  | d@(.null) | d@(.bool _) | d@(.int _) | d@(.real _) | d@(.text _) | d@(.unreadable) =>
    scalarChars d

/-- The characters of each item. -/
def prettyItems (level : Nat) : List Document → List (List Char)
  | [] => []
  | d :: ds => prettyChars level d :: prettyItems level ds

/-- The characters of each field. -/
def prettyFields (level : Nat) : List (String × Document) → List (List Char)
  | [] => []
  | (name, d) :: fs => (textChars name ++ ':' :: ' ' :: prettyChars level d) ::
    prettyFields level fs

end

/-- A document as JSON on one line. -/
def compact (d : Document) : String :=
  String.ofList (compactChars d)

/-- A document as JSON on indented lines. -/
def pretty (d : Document) : String :=
  String.ofList (prettyChars 0 d)

end DocIdent.Json
