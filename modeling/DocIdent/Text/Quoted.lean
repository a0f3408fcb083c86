import DocIdent.Text.Digits
import DocIdent.Text.Glyph

/-!
# Quoted text

A text inside a diagnostic stands between double quotes. The quote itself, the backslash and the
usual controls are written as a backslash and one character; whatever else does not show is written
as its code point in braces; the rest stands for itself (`Text.quote`).
-/

namespace DocIdent.Text

/-- The written form of one character between quotes. -/
def quoteChar (c : Char) : List Char :=
  if c = '\x00' then ['\\', '0']
  else if c = '\t' then ['\\', 't']
  else if c = '\r' then ['\\', 'r']
  else if c = '\n' then ['\\', 'n']
  else if c = '\\' then ['\\', '\\']
  else if c = '"' then ['\\', '"']
  else if shows c then [c]
  else ['\\', 'u', '\x7b'] ++ hex c.toNat ++ ['\x7d']

/-- A text between double quotes. -/
def quote (cs : List Char) : List Char :=
  '"' :: cs.flatMap quoteChar ++ ['"']

end DocIdent.Text
