import JustfileServer.Justfile.Line

/-!
# Words on a line

A word is a maximal run of symbol bytes: ASCII letters and digits, the underscore and the hyphen.
Columns are counted in bytes.  A cursor touches a word when it stands on one of its bytes or just
behind the last of them.
-/

namespace JustfileServer

/-- Is the byte part of a symbol? -/
def Byte.isSymbol (b : UInt8) : Bool :=
  (0x61 ≤ b && b ≤ 0x7A) || (0x41 ≤ b && b ≤ 0x5A) || (0x30 ≤ b && b ≤ 0x39) || b == 0x5F
    || b == 0x2D

namespace Word

/-- Is the number the value of a symbol byte?  Numbers that are no byte are not. -/
def isSymbolValue (n : Int) : Bool :=
  0 ≤ n && n < 0x100 && Byte.isSymbol (UInt8.ofNat n.toNat)

/-- Does the line have a symbol byte at the column? -/
def isSymbolAt (line : Bytes) (column : Nat) : Bool :=
  (line.drop column).head?.any Byte.isSymbol

/-- The column on the line: zero for a negative one, the end of the line for one past it. -/
def clamp (line : Bytes) (column : Int) : Nat := min column.toNat line.length

/-- Moves a cursor from just behind a word onto the last byte of the word; any other cursor stays
where it is.  The column is first brought onto the line. -/
def snap (line : Bytes) (column : Int) : Nat :=
  let place := clamp line column
  if 0 < place && !isSymbolAt line place && isSymbolAt line (place - 1) then place - 1 else place

/-- The bounds of the word that a column touches, the second one just behind the word, or nothing
when the column touches no word or is not on the line. -/
def bounds? (line : Bytes) (column : Int) : Option (Nat × Nat) :=
  if column < 0 || line.length < column then none
  else
    let place := column.toNat
    let start := place - ((line.take place).reverse.takeWhile Byte.isSymbol).length
    let stop := place + ((line.drop place).takeWhile Byte.isSymbol).length
    if start = stop then none else some (start, stop)

end Word

end JustfileServer
