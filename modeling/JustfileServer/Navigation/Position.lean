/-!
# Positions

Clients name a place in a document by a line and a character, both counted from zero, the
character in UTF-16 units of its line.
-/

namespace JustfileServer

/-- A line as a client names it: by its number, or by a truth value standing for one or zero, which
is given back as it came. -/
inductive LineNumber
  | number (n : Int)
  | flag (b : Bool)
  deriving DecidableEq

/-- The number of the line. -/
def LineNumber.toInt : LineNumber → Int
  | .number n => n
  | .flag b => if b then 1 else 0

/-- A column as a client names it: so many UTF-16 units, or more than any line has. -/
inductive ClientColumn
  | units (n : Int)
  | lineEnd
  deriving DecidableEq

/-- A place in a document. -/
structure Position where
  line : LineNumber
  character : Int
  deriving DecidableEq

/-- A stretch of a document, from one place up to another. -/
structure Range where
  start : Position
  stop : Position
  deriving DecidableEq

end JustfileServer
