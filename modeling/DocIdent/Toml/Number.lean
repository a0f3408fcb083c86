import DocIdent.Document

/-!
# TOML numbers and dates

Whole numbers fit into 64 bits and are written in decimal, or without a sign in hexadecimal, octal
or binary; other numbers have a fraction or an exponent, or are an infinity or no number at all.
Underscores may stand between digits (`Toml.readNumber?`). Dates and times follow RFC 3339
(`Toml.readMoment?`). No value of the library is a date: as a document it is a record that has
nothing.
-/

namespace DocIdent.Toml

/-- Digits for which a test holds, with an underscore between any two at will, and what follows
them. While one is `due` nothing but a digit may come. -/
def digitsFrom? (isDigit : Char → Bool) (due : Bool) : List Char → Option (List Char × List Char)
  | [] => if due then none else some ([], [])
  | c :: cs =>
    if isDigit c then (digitsFrom? isDigit false cs).map fun r => (c :: r.1, r.2)
    else if due then none
    else if c = '_' then digitsFrom? isDigit true cs
    else some ([], c :: cs)

/-- At least one digit for which a test holds, and what follows the digits. -/
def digitRun? (isDigit : Char → Bool) (cs : List Char) : Option (List Char × List Char) :=
  digitsFrom? isDigit true cs

/-- The digits of a whole number in decimal and what follows them: a zero stands alone. -/
def wholeRun? : List Char → Option (List Char × List Char)
  | '0' :: cs => some (['0'], cs)
  | cs => digitRun? Char.isDigit cs

/-- A whole number that fits into 64 bits. -/
def word64? (i : Int) : Option Document :=
  if -9223372036854775808 ≤ i ∧ i ≤ 9223372036854775807 then some (.int i) else none

/-- The value of digits to a base. -/
def ofDigits (base : Nat) (cs : List Char) : Nat :=
  cs.foldl (fun n c => base * n + (Text.hexValue c).getD 0) 0

/-- A digit below a base. -/
def isDigitBelow (base : Nat) (c : Char) : Bool :=
  match Text.hexValue c with
  | some d => d < base
  | none => false

/-- A whole number to a base, and what follows it. -/
def readRadix? (base : Nat) (cs : List Char) : Option (Document × List Char) := do
  let (digits, rest) ← digitRun? (isDigitBelow base) cs
  return (← word64? (ofDigits base digits), rest)

/-- The sign at the beginning, and what follows it. -/
def sign : List Char → Bool × List Char
  | '-' :: cs => (true, cs)
  | '+' :: cs => (false, cs)
  | cs => (false, cs)

/-- A number with fraction or exponent. One beyond the range of double precision is an infinity, and
only the negative one may be written so. -/
def real? (d : Decimal) : Option Document :=
  if !d.exceeds then some (.real (some d)) else if d.negative then some (.real none) else none

/-- The exponent at the beginning, if there is one, and what follows it. -/
def exponent? : List Char → Option (Option Int × List Char)
  | c :: cs =>
    if c = 'e' ∨ c = 'E' then do
      let (negative, cs) := sign cs
      let (digits, rest) ← digitRun? Char.isDigit cs
      let n : Int := Nat.ofDigitChars 10 digits 0
      return (some (if negative then -n else n), rest)
    else some (none, c :: cs)
  | [] => some (none, [])

/-- The digits after a point at the beginning, if there is one, and what follows them. -/
def fraction? : List Char → Option (Option (List Char) × List Char)
  | '.' :: cs => do
    let (digits, rest) ← digitRun? Char.isDigit cs
    return (some digits, rest)
  | cs => some (none, cs)

/-- A number in decimal without its sign, and what follows it. -/
def readDecimal? (negative : Bool) (cs : List Char) : Option (Document × List Char) := do
  let (whole, rest) ← wholeRun? cs
  let (fraction, rest) ← fraction? rest
  let (exponent, rest) ← exponent? rest
  match fraction, exponent with
  | none, none =>
    let n : Int := Nat.ofDigitChars 10 whole 0
    return (← word64? (if negative then -n else n), rest)
  | _, _ =>
    let digits := fraction.getD []
    let d : Decimal := ⟨negative, Nat.ofDigitChars 10 (whole ++ digits) 0,
      exponent.getD 0 - digits.length⟩
    return (← real? d, rest)

/-- A number at the beginning, and what follows it. -/
def readNumber? : List Char → Option (Document × List Char)
  | '0' :: 'x' :: cs => readRadix? 16 cs
  | '0' :: 'o' :: cs => readRadix? 8 cs
  | '0' :: 'b' :: cs => readRadix? 2 cs
  | cs =>
    match sign cs with
    | (_, 'i' :: 'n' :: 'f' :: rest) | (_, 'n' :: 'a' :: 'n' :: rest) => some (.real none, rest)
    | (negative, rest) => readDecimal? negative rest

/-- A number of exactly `width` digits at the beginning, and what follows it. -/
def fixed? (width : Nat) (cs : List Char) : Option (Nat × List Char) :=
  let digits := cs.take width
  if digits.length = width ∧ digits.all Char.isDigit then
    some (Nat.ofDigitChars 10 digits 0, cs.drop width)
  else none

/-- What follows a character at the beginning. -/
def after? (c : Char) : List Char → Option (List Char)
  | d :: cs => if d = c then some cs else none
  | [] => none

/-- The number of days of a month. -/
def daysOf (year month : Nat) : Nat :=
  if month = 2 then
    if year % 4 = 0 ∧ (year % 100 ≠ 0 ∨ year % 400 = 0) then 29 else 28
  else if month = 4 ∨ month = 6 ∨ month = 9 ∨ month = 11 then 30
  else 31

/-- What follows a date. -/
def afterDate? (cs : List Char) : Option (List Char) := do
  let (year, cs) ← fixed? 4 cs
  let (month, cs) ← fixed? 2 (← after? '-' cs)
  let (day, cs) ← fixed? 2 (← after? '-' cs)
  if 1 ≤ month ∧ month ≤ 12 ∧ 1 ≤ day ∧ day ≤ daysOf year month then return cs else none

/-- What follows hours and minutes. -/
def afterMinutes? (cs : List Char) : Option (List Char) := do
  let (hour, cs) ← fixed? 2 cs
  let (minute, cs) ← fixed? 2 (← after? ':' cs)
  if hour ≤ 23 ∧ minute ≤ 59 then return cs else none

/-- What follows the fraction of a second, if there is one. -/
def afterFraction? : List Char → Option (List Char)
  | '.' :: c :: cs => if c.isDigit then some (cs.dropWhile Char.isDigit) else none
  | '.' :: [] => none
  | cs => some cs

/-- What follows a time of day. -/
def afterTime? (cs : List Char) : Option (List Char) := do
  let (second, cs) ← fixed? 2 (← after? ':' (← afterMinutes? cs))
  if second ≤ 60 then afterFraction? cs else none

/-- What follows the distance from universal time, if it is there. -/
def afterOffset? : List Char → Option (List Char)
  | c :: cs =>
    if c = 'Z' ∨ c = 'z' then some cs
    else if c = '+' ∨ c = '-' then afterMinutes? cs
    else some (c :: cs)
  | [] => some []

/-- What follows a date and the time of day on it, if there is one. -/
def afterDateTime? (cs : List Char) : Option (List Char) := do
  let cs ← afterDate? cs
  match cs with
  | c :: rest =>
    if c = 'T' ∨ c = 't' ∨ c = ' ' then
      match afterTime? rest with
      | some rest => afterOffset? rest
      | none => return cs
    else return cs
  | [] => return []

/-- A date or time at the beginning, and what follows it. -/
def readMoment? (cs : List Char) : Option (Document × List Char) :=
  match afterDateTime? cs with
  | some rest => some (.record [], rest)
  | none => (afterTime? cs).map fun rest => (.record [], rest)

end DocIdent.Toml
