import JustfileServer.Text.CodePoint

/-!
# The lines of a buffer

A newline byte ends a line, so a buffer has one line more than it has newlines and the last line
may be empty.  `splitLines` cuts a buffer into its lines; `lineStarts` is the table of the offsets
where they begin, from which `lineBounds?` and `lineBytes?` find any line by its number.
-/

namespace JustfileServer

namespace Byte

/-- The byte that ends a line. -/
def newline : UInt8 := 0x0A

/-- The byte that separates a name from what defines it. -/
def colon : UInt8 := 0x3A

/-- The byte that turns a colon into the sign of an assignment. -/
def equals : UInt8 := 0x3D

/-- The byte that starts a comment. -/
def hash : UInt8 := 0x23

/-- Is the byte white space inside a line: a blank, tab, carriage return, vertical tab or form
feed? -/
def isBlank (b : UInt8) : Bool := b == 0x20 || b == 0x09 || b == 0x0D || b == 0x0B || b == 0x0C

end Byte

namespace Bytes

/-- The bytes without the white space at their start. -/
def trimStart (s : Bytes) : Bytes := s.dropWhile Byte.isBlank

/-- The bytes without the white space at their end. -/
def trimEnd (s : Bytes) : Bytes := (s.reverse.dropWhile Byte.isBlank).reverse

/-- The bytes without the white space at either end. -/
def trim (s : Bytes) : Bytes := trimEnd (trimStart s)

end Bytes

/-! ## Lines by cutting -/

/-- A line with its number, the offset where it starts, and its bytes without the newline. -/
structure Line where
  number : Nat
  start : Nat
  bytes : Bytes

/-- The parts of a buffer between its newlines. -/
def splitLines : Bytes → List Bytes
  | [] => [[]]
  | b :: rest =>
      if b = Byte.newline then [] :: splitLines rest
      else
        match splitLines rest with
        | [] => [[b]]
        | line :: lines => (b :: line) :: lines

/-- Numbers the lines and gives each the offset where it starts. -/
def placeLines : Nat → Nat → List Bytes → List Line
  | _, _, [] => []
  | number, start, bytes :: rest =>
      ⟨number, start, bytes⟩ :: placeLines (number + 1) (start + bytes.length + 1) rest

/-- The lines of a buffer. -/
def linesOf (data : Bytes) : List Line := placeLines 0 0 (splitLines data)

/-! ## Lines by number -/

/-- The offsets that follow a newline, when the first byte has the given offset. -/
def startsAfterNewlines : Nat → Bytes → List Nat
  | _, [] => []
  | offset, b :: rest =>
      if b = Byte.newline then (offset + 1) :: startsAfterNewlines (offset + 1) rest
      else startsAfterNewlines (offset + 1) rest

/-- The offset where each line starts; a newline at the very end opens a last, empty line. -/
def lineStarts (data : Bytes) : List Nat := 0 :: startsAfterNewlines 0 data

/-- Where the numbered line starts and where it stops, its newline left out, according to a table
of starts and the size of the buffer. -/
def lineBounds? (starts : List Nat) (size : Nat) (number : Int) : Option (Nat × Nat) :=
  if number < 0 then none
  else
    match starts[number.toNat]? with
    | none => none
    | some start =>
        match starts[number.toNat + 1]? with
        | some next => some (start, next - 1)
        | none => some (start, size)

/-- The bytes of the numbered line, its newline left out. -/
def lineBytes? (starts : List Nat) (data : Bytes) (number : Int) : Option Bytes :=
  (lineBounds? starts data.length number).map fun bounds =>
    (data.drop bounds.1).take (bounds.2 - bounds.1)

end JustfileServer
