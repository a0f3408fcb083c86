import DocIdent.Text.Digits

/-!
# Properties

A property names one fact of an identifier's metadata and says how its values are written as text
(`Property`). Code that knows the property never spells its key. A value may have nothing to store,
and a stored text need not be a value.
-/

namespace DocIdent

/-- A named fact with the text form of its values. -/
structure Property (α : Type) where
  /-- The key under which the fact is stored. -/
  key : String
  /-- The text of a value; some values have nothing to store. -/
  encode : α → Option String
  /-- The value of a text; some texts are none. -/
  decode : String → Option α

namespace Property

/-- The mark of an identifier that denotes an enum entry and not a nested class. -/
def enumEntry : Property Unit where
  key := "EnumEntry"
  encode _ := some ""
  decode _ := some ()

/-- The number that a decimal numeral writes; a plus sign may stand before it. -/
def readNumeral (cs : List Char) : Option UInt32 :=
  let digits := match cs with
    | '+' :: rest => rest
    | _ => cs
  (Text.readDecimal digits).bind fun n => if n < UInt32.size then some (.ofNat n) else none

/-- A count, stored in decimal. -/
def arity : Property UInt32 where
  key := "Arity"
  encode n := some (String.ofList (Text.decimal n.toNat))
  decode s := readNumeral s.toList

/-- A fact that is never stored and reads as true wherever its key stands. -/
def ephemeral : Property Bool where
  key := "Ephemeral"
  encode _ := none
  decode _ := some true

/-- A text stored as it is, under a key of the caller's choice. -/
def text (key : String) : Property String where
  key := key
  encode s := some s
  decode s := some s

end Property

end DocIdent
