import DocIdent.Document

/-!
# JSON tokens

A JSON text is a sequence of brackets, braces, commas, colons, texts, numbers and three words, with
white space between them at will (`Json.Token`). `Json.tokens?` reads the text character by
character; what it is in the middle of is its mode (`Json.Mode`).

A character beyond the first 65536 may be written as a pair of escapes. Half of a pair that stands
alone is well formed, but no text has it, and a number may have any size, but not every size is
taken in: such texts and numbers are unreadable.
-/

namespace DocIdent.Json

/-- A token. -/
inductive Token where
  /-- An opening bracket. -/
  | openList
  /-- A closing bracket. -/
  | closeList
  /-- An opening brace. -/
  | openRecord
  /-- A closing brace. -/
  | closeRecord
  /-- A comma. -/
  | comma
  /-- A colon. -/
  | colon
  /-- A text, unless half of a pair stands alone in it. -/
  | text (s : Option String)
  /-- A number, a truth value or null. -/
  | scalar (d : Document)

/-- What of a text's escape sequence has been read. -/
inductive Escape where
  /-- Nothing: the next character stands for itself or begins an escape. -/
  | none
  /-- The backslash. -/
  | begun
  /-- The backslash, the `u`, and hexadecimal digits with their value; `high` is the first half of
  a pair of which this is the second. -/
  | code (high : Option Nat) (digits value : Nat)
  /-- The first half of a pair, to which a second escape should follow. -/
  | half (high : Nat)
  /-- The first half of a pair and the backslash of the second escape. -/
  | halfBegun (high : Nat)

/-- What the reader is in the middle of. Characters read so far come last to first. -/
inductive Mode where
  /-- Between tokens. -/
  | between
  /-- In a word. -/
  | word (read : List Char)
  /-- In a number. -/
  | number (read : List Char)
  /-- In a text; nothing is kept of it once half of a pair stood alone. -/
  | text (read : Option (List Char)) (escape : Escape)

/-- JSON white space. -/
def isSpace (c : Char) : Bool :=
  c = ' ' || c = '\t' || c = '\n' || c = '\r'

/-- A character of which numbers consist. -/
def isNumberChar (c : Char) : Bool :=
  c.isDigit || c = '-' || c = '+' || c = '.' || c = 'e' || c = 'E'

/-- The token of a word. -/
def ofWord? (word : List Char) : Option Token :=
  if word = "true".toList then some (.scalar (.bool true))
  else if word = "false".toList then some (.scalar (.bool false))
  else if word = "null".toList then some (.scalar .null)
  else none

/-- The sign of an exponent, and what follows it. -/
def exponentSign : List Char → Bool × List Char
  | '-' :: cs => (true, cs)
  | '+' :: cs => (false, cs)
  | cs => (false, cs)

/-- The exponent that ends a number, zero if there is none. -/
def exponent? : List Char → Option Int
  | [] => some 0
  | c :: cs =>
    if c = 'e' ∨ c = 'E' then
      let (negative, digits) := exponentSign cs
      (Text.readDecimal digits).map fun n => if negative then -(n : Int) else n
    else none

/-- The digits after the point, if there is a point, and what follows them. -/
def fraction? : List Char → Option (List Char × List Char)
  | '.' :: cs =>
    let digits := cs.takeWhile Char.isDigit
    if digits.isEmpty then none else some (digits, cs.dropWhile Char.isDigit)
  | cs => some ([], cs)

/-- A number, unless it is beyond the range of double precision. -/
def inRange (d : Decimal) (number : Document) : Document :=
  if d.overflows then .unreadable else number

/-- The number without its sign. It begins with a zero only if that is its whole part. A number
without point and exponent is whole, but for minus zero. -/
def unsigned? (negative : Bool) (cs : List Char) : Option Document := do
  let whole := cs.takeWhile Char.isDigit
  let rest := cs.dropWhile Char.isDigit
  let n ← Text.readDecimal whole
  if whole.head? = some '0' ∧ whole ≠ ['0'] then none
  else if rest.isEmpty then
    let number : Document :=
      if negative then if n = 0 then .real (some ⟨true, 0, 0⟩) else .int (-(n : Int)) else .int n
    return inRange ⟨negative, n, 0⟩ number
  else
    let (digits, rest) ← fraction? rest
    let exponent ← exponent? rest
    let d : Decimal :=
      ⟨negative, Nat.ofDigitChars 10 (whole ++ digits) 0, exponent - digits.length⟩
    return inRange d (.real (some d))

/-- The number that a run of characters writes. -/
def ofNumber? : List Char → Option Document
  | '-' :: cs => unsigned? true cs
  | cs => unsigned? false cs

/-- The tokens that the end of a word or number brings. -/
def Mode.finish? : Mode → Option (List Token)
  | .between => some []
  | .word read => (ofWord? read.reverse).map fun t => [t]
  | .number read => (ofNumber? read.reverse).map fun d => [.scalar d]
  | .text .. => none

/-- What a character does between tokens. -/
def begin? (c : Char) : Option (List Token × Mode) :=
  if isSpace c then some ([], .between)
  else if c = '[' then some ([.openList], .between)
  else if c = ']' then some ([.closeList], .between)
  else if c = '\x7b' then some ([.openRecord], .between)
  else if c = '\x7d' then some ([.closeRecord], .between)
  else if c = ',' then some ([.comma], .between)
  else if c = ':' then some ([.colon], .between)
  else if c = '"' then some ([], .text (some []) .none)
  else if c = '-' ∨ c.isDigit then some ([], .number [c])
  else if c.isLower then some ([], .word [c])
  else none

/-- The character that an escape of one letter stands for. -/
def escaped? (c : Char) : Option Char :=
  if c = '"' ∨ c = '\\' ∨ c = '/' then some c
  else if c = 'b' then some '\x08'
  else if c = 'f' then some '\x0c'
  else if c = 'n' then some '\n'
  else if c = 'r' then some '\r'
  else if c = 't' then some '\t'
  else none

/-- The first half of a pair of escapes. -/
def isHighHalf (n : Nat) : Bool :=
  0xD800 ≤ n && n ≤ 0xDBFF

/-- The second half of a pair of escapes. -/
def isLowHalf (n : Nat) : Bool :=
  0xDC00 ≤ n && n ≤ 0xDFFF

/-- The text that goes on after a character. -/
def textAfter (read : Option (List Char)) (c : Char) : Mode :=
  .text (read.map (c :: ·)) .none

/-- The character that two halves make. -/
def joinHalves (high low : Nat) : Char :=
  Char.ofNat (0x10000 + (high - 0xD800) * 0x400 + (low - 0xDC00))

/-- What a complete code of four digits does in a text. -/
def completeCode (read : Option (List Char)) (high : Option Nat) (value : Nat) : Mode :=
  match high with
  | some high =>
    if isLowHalf value then textAfter read (joinHalves high value) else .text none .none
  | none =>
    if isHighHalf value then .text read (.half value)
    else if isLowHalf value then .text none .none
    else textAfter read (Char.ofNat value)

/-- What a character does in a text where no escape has begun. -/
def plainStep? (read : Option (List Char)) (c : Char) : Option (List Token × Mode) :=
  if c = '"' then some ([.text (read.map fun cs => String.ofList cs.reverse)], .between)
  else if c = '\\' then some ([], .text read .begun)
  else if c.toNat < 0x20 then none
  else some ([], textAfter read c)

/-- What a character does in a text after a backslash. -/
def escapeStep? (read : Option (List Char)) (c : Char) : Option (List Token × Mode) :=
  if c = 'u' then some ([], .text read (.code none 0 0))
  else (escaped? c).map fun c => ([], textAfter read c)

/-- What a character does in a text. -/
def textStep? (read : Option (List Char)) (escape : Escape) (c : Char) :
    Option (List Token × Mode) :=
  match escape with
  | .none => plainStep? read c
  | .begun => escapeStep? read c
  | .code high digits value => do
    let value := 16 * value + (← Text.hexValue c)
    if digits < 3 then return ([], .text read (.code high (digits + 1) value))
    else return ([], completeCode read high value)
  | .half high => if c = '\\' then some ([], .text read (.halfBegun high)) else plainStep? none c
  | .halfBegun high =>
    if c = 'u' then some ([], .text read (.code (some high) 0 0)) else escapeStep? none c

/-- The tokens that a character completes, and the mode that it leads to. -/
def Mode.step? (mode : Mode) (c : Char) : Option (List Token × Mode) :=
  match mode with
  | .between => begin? c
  | .word read =>
    if c.isLower then some ([], .word (c :: read))
    else do
      let ended ← mode.finish?
      let (begun, mode) ← begin? c
      return (ended ++ begun, mode)
  | .number read =>
    if isNumberChar c then some ([], .number (c :: read))
    else do
      let ended ← mode.finish?
      let (begun, mode) ← begin? c
      return (ended ++ begun, mode)
  | .text read escape => textStep? read escape c

/-- The tokens of a text from a mode on, after those that were read before, which come last to
first. -/
def tokensFrom? (mode : Mode) (before : List Token) : List Char → Option (List Token)
  | [] => mode.finish?.map fun ended => before.reverse ++ ended
  | c :: cs =>
    match mode.step? c with
    | some (ts, mode) => tokensFrom? mode (ts.reverse ++ before) cs
    | none => none

/-- The tokens of a JSON text. -/
def tokens? (cs : List Char) : Option (List Token) :=
  tokensFrom? .between [] cs

end DocIdent.Json
