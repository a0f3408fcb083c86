import DocIdent.Text.Digits

/-!
# TOML texts

A text in TOML stands between single or double quotes, one of them on each side or three
(`Toml.Form`). Three allow it to go over several lines. Between double quotes the backslash begins
an escape; between single quotes every character stands for itself. `Toml.readText?` reads a text of
any form, character by character; what it is in the middle of is its mode (`Toml.Mode`). For writing
there is a form for every text (`Toml.formOf`), the plainest that can hold it.
-/

namespace DocIdent.Toml

/-- How a text stands between its quotes. -/
structure Form where
  /-- The quotes are double, and there are escapes. -/
  escapes : Bool
  /-- There are three quotes on each side. -/
  multiline : Bool
  deriving DecidableEq

namespace Form

/-- The quote of a form. -/
def quote (f : Form) : Char :=
  if f.escapes then '"' else '\''

/-- What stands on each side of the text. -/
def delimiter (f : Form) : List Char :=
  List.replicate (if f.multiline then 3 else 1) f.quote

end Form

/-- What of a text's escapes, line breaks and quotes has been read. -/
inductive Mode where
  /-- Nothing: the next character stands for itself or begins something. -/
  | plain
  /-- A backslash. -/
  | begun
  /-- A backslash, a letter, and some hexadecimal digits with their value; `left` are missing. -/
  | code (left value : Nat)
  /-- A backslash and blanks up to the end of the line, or beyond it if `broken`. -/
  | gap (broken : Bool)
  /-- A carriage return that a line feed has to follow. -/
  | carriageReturn (inGap : Bool)
  /-- Some quotes, which may end the text. -/
  | quotes (n : Nat)

/-- A character that may stand in a text or comment: no control but the tab. -/
def isTextChar (c : Char) : Bool :=
  c = '\t' || (0x20 ≤ c.toNat && c.toNat ≠ 0x7F)

/-- The character that an escape of one letter stands for. -/
def escaped? (c : Char) : Option Char :=
  if c = '"' ∨ c = '\\' then some c
  else if c = 'b' then some '\x08'
  else if c = 't' then some '\t'
  else if c = 'n' then some '\n'
  else if c = 'f' then some '\x0c'
  else if c = 'r' then some '\r'
  else none

/-- What is read of a text before a character, and the mode after it. -/
structure Reading where
  /-- The characters, last to first. -/
  read : List Char
  /-- The mode. -/
  mode : Mode

/-- A character where nothing is pending. The quote of a form is not among these. -/
def plainStep? (f : Form) (read : List Char) (c : Char) : Option Reading :=
  if f.escapes ∧ c = '\\' then some ⟨read, .begun⟩
  else if f.multiline ∧ c = '\n' then some ⟨'\n' :: read, .plain⟩
  else if f.multiline ∧ c = '\r' then some ⟨read, .carriageReturn false⟩
  else if isTextChar c then some ⟨c :: read, .plain⟩
  else none

/-- A character in the gap that a backslash at the end of a line makes, before or after the line
break. -/
def gapStep? (broken : Bool) (read : List Char) (c : Char) : Option Reading :=
  if c = ' ' ∨ c = '\t' then some ⟨read, .gap broken⟩
  else if c = '\n' then some ⟨read, .gap true⟩
  else if c = '\r' then some ⟨read, .carriageReturn true⟩
  else none

/-- A character after a backslash. -/
def escapeStep? (f : Form) (read : List Char) (c : Char) : Option Reading :=
  if c = 'u' then some ⟨read, .code 4 0⟩
  else if c = 'U' then some ⟨read, .code 8 0⟩
  else
    match escaped? c with
    | some c => some ⟨c :: read, .plain⟩
    | none => if f.multiline then gapStep? false read c else none

/-- The character of a code point that has one. -/
def charOfCode? (n : Nat) : Option Char :=
  if n.isValidChar then some (Char.ofNat n) else none

/-- A hexadecimal digit of an escape with `left` digits missing before it. -/
def codeStep? (left value : Nat) (read : List Char) (c : Char) : Option Reading := do
  let value := 16 * value + (← Text.hexValue c)
  if left ≤ 1 then return ⟨(← charOfCode? value) :: read, .plain⟩
  else return ⟨read, .code (left - 1) value⟩

/-- Quotes that belong to a text, put before what is read of it. -/
def Form.withQuotes (f : Form) (n : Nat) (read : List Char) : List Char :=
  List.replicate n f.quote ++ read

/-- A text of a form from a mode on, after the characters that were read before, which come last to
first; and what follows its closing quotes. Of more quotes in a row than close a text the last three
close it, if there are not more than five. -/
def readFrom? (f : Form) (mode : Mode) (read : List Char) :
    List Char → Option (List Char × List Char)
  | [] =>
    match mode with
    | .quotes n => if 3 ≤ n then some ((f.withQuotes (n - 3) read).reverse, []) else none
    | _ => none
  | c :: cs =>
    let go (step : Option Reading) : Option (List Char × List Char) :=
      match step with
      | some r => readFrom? f r.mode r.read cs
      | none => none
    match mode with
    | .plain =>
      if c = f.quote then
        if f.multiline then readFrom? f (.quotes 1) read cs else some (read.reverse, cs)
      else go (plainStep? f read c)
    | .begun => go (escapeStep? f read c)
    | .code left value => go (codeStep? left value read c)
    | .gap broken =>
      match gapStep? broken read c with
      | some r => readFrom? f r.mode r.read cs
      | none =>
        if !broken then none
        else if c = f.quote then readFrom? f (.quotes 1) read cs
        else go (plainStep? f read c)
    | .carriageReturn inGap =>
      if c = '\n' then
        if inGap then readFrom? f (.gap true) read cs else readFrom? f .plain ('\n' :: read) cs
      else none
    | .quotes n =>
      if c = f.quote then
        if n = 4 then some ((f.withQuotes 2 read).reverse, cs)
        else readFrom? f (.quotes (n + 1)) read cs
      else if 3 ≤ n then some ((f.withQuotes (n - 3) read).reverse, c :: cs)
      else go (plainStep? f (f.withQuotes n read) c)

/-- The text after a line break right behind three opening quotes. -/
def afterOpening (f : Form) : List Char → List Char
  | '\n' :: cs => if f.multiline then cs else '\n' :: cs
  | '\r' :: '\n' :: cs => if f.multiline then cs else '\r' :: '\n' :: cs
  | cs => cs

/-- The form that the opening quotes of a text show, and what follows them. -/
def opening? : List Char → Option (Form × List Char)
  | '"' :: '"' :: '"' :: cs => some (⟨true, true⟩, cs)
  | '"' :: cs => some (⟨true, false⟩, cs)
  | '\'' :: '\'' :: '\'' :: cs => some (⟨false, true⟩, cs)
  | '\'' :: cs => some (⟨false, false⟩, cs)
  | _ => none

/-- The text of any form that stands at the beginning, and what follows it. -/
def readText? (cs : List Char) : Option (String × List Char) := do
  let (f, cs) ← opening? cs
  let (text, rest) ← readFrom? f .plain [] (afterOpening f cs)
  return (String.ofList text, rest)

/-- A text on one line that stands at the beginning, and what follows it. -/
def readLineText? : List Char → Option (String × List Char)
  | '"' :: cs => (readFrom? ⟨true, false⟩ .plain [] cs).map fun r => (String.ofList r.1, r.2)
  | '\'' :: cs => (readFrom? ⟨false, false⟩ .plain [] cs).map fun r => (String.ofList r.1, r.2)
  | _ => none

/-- The length of the longest run of a character, given how many were seen last. -/
def longestRun (c : Char) (seen : Nat) : List Char → Nat
  | [] => seen
  | x :: xs => if x = c then longestRun c (seen + 1) xs else max seen (longestRun c 0 xs)

/-- A control that no single quotes can hold: any but the tab and the line feed. -/
def isHardControl (c : Char) : Bool :=
  (c.toNat < 0x20 && c ≠ '\t' && c ≠ '\n') || c.toNat = 0x7F

/-- The form in which a text is written: double quotes if nothing needs an escape, else single
quotes if they can hold it, else three of either on each side, and with escapes if nothing else
will do. -/
def formOf (cs : List Char) : Form :=
  let control := cs.any isHardControl
  let backslash := cs.contains '\\'
  let single := longestRun '\'' 0 cs
  let double := longestRun '"' 0 cs
  let newline := cs.contains '\n'
  if !control && !backslash && double = 0 && !newline then ⟨true, false⟩
  else if !control && single = 0 && !newline then ⟨false, false⟩
  else if !control && !backslash && double ≤ 2 then ⟨true, true⟩
  else if !control && single ≤ 2 then ⟨false, true⟩
  else ⟨true, newline⟩

/-- The written form of a character between double quotes, apart from the quote and the line
feed. -/
def escapedChar (c : Char) : List Char :=
  if c = '\x08' then ['\\', 'b']
  else if c = '\t' then ['\\', 't']
  else if c = '\x0c' then ['\\', 'f']
  else if c = '\r' then ['\\', 'r']
  else if c = '\\' then ['\\', '\\']
  else if c.toNat < 0x20 ∨ c.toNat = 0x7F then
    ['\\', 'u'] ++ (Text.hexFixed 4 c.toNat).map Char.toUpper
  else [c]

/-- The written form of a text between double quotes, given how many quotes were just written. With
one quote on each side every quote and line feed is escaped, with three every third quote in a
row. -/
def escapedChars (multiline : Bool) (quotes : Nat) : List Char → List Char
  | [] => []
  | c :: cs =>
    if c = '"' then
      if !multiline ∨ quotes = 2 then '\\' :: '"' :: escapedChars multiline 0 cs
      else '"' :: escapedChars multiline (quotes + 1) cs
    else if c = '\n' ∧ !multiline then '\\' :: 'n' :: escapedChars multiline 0 cs
    else if c = '\n' then '\n' :: escapedChars multiline 0 cs
    else escapedChar c ++ escapedChars multiline 0 cs

/-- A text with its quotes. A text that has line breaks begins on a line of its own. -/
def textChars (s : String) : List Char :=
  let cs := s.toList
  let f := formOf cs
  let body := if f.escapes then escapedChars f.multiline 0 cs else cs
  f.delimiter ++ (if f.multiline && cs.contains '\n' then ['\n'] else []) ++ body ++ f.delimiter

end DocIdent.Toml
