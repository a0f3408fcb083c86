import DocIdent.Toml.Number
import DocIdent.Toml.Table
import DocIdent.Toml.Text

/-!
# TOML keys and values

A key is bare or quoted, and a path of keys has a point between any two (`Toml.readPath?`). A value
is a text, a number, a date, a truth value, a list in brackets, which may go over several lines and
have comments, or a table in braces, which may not (`Toml.readValue?`). Paths and nested values are
limited in length and depth.
-/

namespace DocIdent.Toml

/-- A blank within a line. -/
def isSpace (c : Char) : Bool :=
  c = ' ' || c = '\t'

/-- What follows the blanks at the beginning. -/
def skipSpaces (cs : List Char) : List Char :=
  cs.dropWhile isSpace

/-- A character of a bare key. -/
def isBareChar (c : Char) : Bool :=
  c.isAlphanum || c = '-' || c = '_'

/-- A key at the beginning, and what follows it. -/
def readKey? (cs : List Char) : Option (String × List Char) :=
  match cs.takeWhile isBareChar with
  | [] => readLineText? cs
  | key => some (String.ofList key, cs.dropWhile isBareChar)

/-- The number of keys that a path may have. -/
def pathLimit : Nat := 79

/-- A path of at most `limit` keys at the beginning, with blanks around each, and what follows. -/
def readPathWithin? : Nat → List Char → Option (List String × List Char)
  | 0, _ => none
  | limit + 1, cs => do
    let (key, cs) ← readKey? (skipSpaces cs)
    match skipSpaces cs with
    | '.' :: cs => (readPathWithin? limit cs).map fun r => (key :: r.1, r.2)
    | cs => return ([key], cs)

/-- A path of keys at the beginning, with blanks around each, and what follows it. -/
def readPath? (cs : List Char) : Option (List String × List Char) :=
  readPathWithin? pathLimit cs

/-- How many lists and tables may be in each other within a value. -/
def nestingLimit : Nat := 79

/-- What follows a line break at the beginning. -/
def afterBreak? : List Char → Option (List Char)
  | '\n' :: cs => some cs
  | '\r' :: '\n' :: cs => some cs
  | _ => none

/-- What follows blanks, line breaks and comments. A comment ends at a line break. -/
def skipBetween? : Nat → List Char → Option (List Char)
  | 0, _ => none
  | fuel + 1, cs =>
    match skipSpaces cs with
    | '#' :: cs => do skipBetween? fuel (← afterBreak? (cs.dropWhile isTextChar))
    | cs =>
      match afterBreak? cs with
      | some cs => skipBetween? fuel cs
      | none => some cs

/-- A value that is no list and no table, and what follows it. -/
def readScalar? (cs : List Char) : Option (Document × List Char) :=
  match cs with
  | '"' :: _ | '\'' :: _ => (readText? cs).map fun r => (.text r.1, r.2)
  | 't' :: 'r' :: 'u' :: 'e' :: rest => some (.bool true, rest)
  | 'f' :: 'a' :: 'l' :: 's' :: 'e' :: rest => some (.bool false, rest)
  | _ =>
    match readMoment? cs with
    | some r => some r
    | none => readNumber? cs

mutual

/-- A value at the beginning, inside lists and tables of which `left` may still begin, and what
follows it. -/
def readWithin? : Nat → Nat → List Char → Option (Document × List Char)
  | 0, _, _ => none
  | fuel + 1, left, '[' :: cs =>
    if left = 0 then none else readItems? fuel (left - 1) [] cs
  | fuel + 1, left, '\x7b' :: cs =>
    if left = 0 then none
    else
      match skipSpaces cs with
      | '\x7d' :: rest => some (.record [], rest)
      | cs => readPairs? fuel (left - 1) [] cs
  | _ + 1, _, cs => readScalar? cs

/-- The items of a list after those that were read before, which come last to first, and what
follows the list. A comma may stand after the last item. -/
def readItems? : Nat → Nat → List Document → List Char → Option (Document × List Char)
  | 0, _, _, _ => none
  | fuel + 1, left, read, cs => do
    let cs ← skipBetween? (cs.length + 1) cs
    match cs with
    | ']' :: rest => return (.list read.reverse, rest)
    | cs =>
      let (d, cs) ← readWithin? fuel left cs
      let cs ← skipBetween? (cs.length + 1) cs
      match cs with
      | ',' :: cs => readItems? fuel left (d :: read) cs
      | ']' :: rest => return (.list (d :: read).reverse, rest)
      | _ => none

/-- The pairs of a table in braces after those that were read before, and what follows the table. -/
def readPairs? : Nat → Nat → Entries → List Char → Option (Document × List Char)
  | 0, _, _, _ => none
  | fuel + 1, left, read, cs => do
    let (path, cs) ← readPath? cs
    let cs ← after? '=' cs
    let (d, cs) ← readWithin? fuel left (skipSpaces cs)
    let read ← assign? d path read
    match skipSpaces cs with
    | ',' :: cs => readPairs? fuel left read cs
    | '\x7d' :: rest => return (.record (fieldsOf read), rest)
    | _ => none

end

/-- A value at the beginning, and what follows it. -/
def readValue? (cs : List Char) : Option (Document × List Char) :=
  readWithin? (2 * cs.length + 1) nestingLimit cs

/-- A key as it is written: bare if it can be. -/
def keyChars (key : String) : List Char :=
  let cs := key.toList
  if !cs.isEmpty && cs.all isBareChar then cs
  else '"' :: escapedChars false 0 cs ++ ['"']

/-- A path of keys as it is written. -/
def pathChars (path : List String) : List Char :=
  ['.'].intercalate (path.map keyChars)

/-- A whole number as it is written. -/
def intChars : Int → List Char
  | .ofNat n => Text.decimal n
  | .negSucc n => '-' :: Text.decimal (n + 1)

mutual

/-- A value as it is written on one line. Nothing, or what is unreadable, is written as an empty
table. -/
def valueChars : Document → List Char
  | .null | .unreadable => ['\x7b', '\x7d']
  | .bool true => "true".toList
  | .bool false => "false".toList
  | .int i => intChars i
  | .real (some d) =>
    (if d.negative then ['-'] else []) ++ Text.decimal d.significand ++ 'e' :: intChars d.exponent
  | .real none => "nan".toList
  | .text s => textChars s
  | .list items => '[' :: [',', ' '].intercalate (valueCharsEach items) ++ [']']
  | .record fields => '\x7b' :: [',', ' '].intercalate (pairCharsEach fields) ++ ['\x7d']

/-- Each item as it is written. -/
def valueCharsEach : List Document → List (List Char)
  | [] => []
  | d :: ds => valueChars d :: valueCharsEach ds

/-- Each field as it is written. -/
def pairCharsEach : List (String × Document) → List (List Char)
  | [] => []
  | (key, d) :: fs => (keyChars key ++ [' ', '=', ' '] ++ valueChars d) :: pairCharsEach fs

end

end DocIdent.Toml
