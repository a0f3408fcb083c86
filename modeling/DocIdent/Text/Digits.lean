/-!
# Digits

Whole numbers are written in decimal without leading zeros (`Text.decimal`) and read back from any
non-empty run of decimal digits (`Text.readDecimal`, `Text.readDecimal_decimal`). Code points are
written in hexadecimal, either with as few digits as they need (`Text.hex`) or with a fixed number
of them (`Text.hexFixed`).
-/

namespace DocIdent.Text

/-- A whole number in decimal. -/
def decimal (n : Nat) : List Char :=
  Nat.toDigits 10 n

/-- The number that a run of decimal digits writes; leading zeros are allowed, no digit is not. -/
def readDecimal (cs : List Char) : Option Nat :=
  if !cs.isEmpty && cs.all Char.isDigit then some (Nat.ofDigitChars 10 cs 0) else none

@[simp] theorem decimal_ne_nil (n : Nat) : decimal n ≠ [] :=
  Nat.toDigits_ne_nil

theorem isDigit_of_mem_decimal {n : Nat} {c : Char} (h : c ∈ decimal n) : c.isDigit :=
  Nat.isDigit_of_mem_toDigits (by decide) (by decide) h

@[simp] theorem ofDigitChars_decimal (n : Nat) : Nat.ofDigitChars 10 (decimal n) 0 = n :=
  Nat.ofDigitChars_toDigits (by decide) (by decide)

/-- What is written in decimal is read back. -/
@[simp] theorem readDecimal_decimal (n : Nat) : readDecimal (decimal n) = some n := by
  have h : (decimal n).all Char.isDigit = true :=
    List.all_eq_true.2 fun _ hc => isDigit_of_mem_decimal hc
  simp [readDecimal, h]

/-- The hexadecimal digit of a number below sixteen, in lower case. -/
def hexDigit (d : Nat) : Char :=
  Nat.digitChar d

/-- A number in hexadecimal, in lower case and without leading zeros. -/
def hex (n : Nat) : List Char :=
  Nat.toDigits 16 n

/-- The last `width` hexadecimal digits of a number, in lower case. -/
def hexFixed : Nat → Nat → List Char
  | 0, _ => []
  | width + 1, n => hexFixed width (n / 16) ++ [hexDigit (n % 16)]

/-- The value of a hexadecimal digit of either case. -/
def hexValue (c : Char) : Option Nat :=
  if c.isDigit then some (c.toNat - '0'.toNat)
  else if 'a' ≤ c ∧ c ≤ 'f' then some (c.toNat - 'a'.toNat + 10)
  else if 'A' ≤ c ∧ c ≤ 'F' then some (c.toNat - 'A'.toNat + 10)
  else none

/-- The number that hexadecimal digits write. -/
def readHex (cs : List Char) : Option Nat :=
  cs.foldlM (fun n c => (hexValue c).map (16 * n + ·)) 0

end DocIdent.Text
