import JustfileServer.Text.Utf8

/-!
# Columns in UTF-16 units and in bytes

A column on a line is a count of units before it.  Clients count UTF-16 units, spans count the
bytes of the UTF-8 encoding.  A column is carried over from one unit to the other by way of the
shortest beginning of the line that reaches it, so the result always falls between two code points
of the line: a column below zero goes to the start, one past the end goes to the end, and one
inside a code point goes to the end of that code point.
-/

namespace JustfileServer

/-- The number of UTF-16 units of a code point. -/
def CodePoint.utf16Width (c : CodePoint) : Nat := if 0xFFFF < c.val then 2 else 1

namespace Column

/-- The size of a line in the given unit. -/
def size (width : CodePoint → Nat) : Text → Nat
  | [] => 0
  | c :: rest => width c + size width rest

/-- The second unit's size of the shortest beginning of a line that has reached the column in the
first unit, or of the whole line when it has none. -/
def carry (source target : CodePoint → Nat) : Text → Int → Nat
  | [], _ => 0
  | c :: rest, column =>
      if column ≤ 0 then 0 else target c + carry source target rest (column - source c)

/-- The byte column of a column in UTF-16 units. -/
def utf16ToByte (line : Text) (column : Int) : Nat :=
  carry CodePoint.utf16Width CodePoint.utf8Width line column

/-- The column in UTF-16 units of a byte column. -/
def byteToUtf16 (line : Text) (column : Int) : Nat :=
  carry CodePoint.utf8Width CodePoint.utf16Width line column

end Column

end JustfileServer
