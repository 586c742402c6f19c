import JustfileServer.Text.Utf16
import JustfileServer.Navigation.Word
import JustfileServer.Navigation.Scope
import JustfileServer.Navigation.Position

/-!
# The symbol under a position

`symbolAt` finds the word that a client's position touches and `definitionRange` gives the place of
a definition's name in the client's units.  Both decode the line that they are about, surrogates
included, so they can only fail on a line that is not the encoding of any text.
-/

namespace JustfileServer

/-- The word that a position touches. -/
structure Cursor where
  /-- The line, as the client names it. -/
  line : LineNumber
  /-- The bytes of the line. -/
  bytes : Bytes
  /-- The text of the line. -/
  text : Text
  /-- The byte column of the position itself. -/
  column : Nat
  /-- The byte column where the word starts. -/
  start : Nat
  /-- The byte column just behind the word. -/
  stop : Nat

namespace Cursor

/-- The word, which consists of ASCII characters. -/
def word (c : Cursor) : Text :=
  ((c.bytes.drop c.start).take (c.stop - c.start)).map CodePoint.ofByte

/-- The scope of the word, which depends on the column of the position itself. -/
def scope (c : Cursor) : Scope := Scope.atColumn c.bytes c.column

/-- The stretch of the line that the word takes up. -/
def range (c : Cursor) : Range :=
  ⟨⟨c.line, Column.byteToUtf16 c.text c.start⟩, ⟨c.line, Column.byteToUtf16 c.text c.stop⟩⟩

end Cursor

/-- The byte column of a client's column on a line. -/
def ClientColumn.toByte (text : Text) : ClientColumn → Nat
  | .units n => Column.utf16ToByte text n
  | .lineEnd => Column.size CodePoint.utf8Width text

namespace Justfile

/-- The word that a position touches, if the line exists and there is one. -/
def symbolAt (j : Justfile) (line : LineNumber) (character : ClientColumn) :
    Except Utf8.DecodeFault (Option Cursor) := do
  match j.lineBytes? line.toInt with
  | none => return none
  | some bytes =>
      let text ← Utf8.decode .codePoints bytes
      let column := character.toByte text
      match Word.bounds? bytes (Word.snap bytes column) with
      | none => return none
      | some (start, stop) => return some ⟨line, bytes, text, column, start, stop⟩

/-- The stretch of its line that a definition's name takes up. -/
def definitionRange (j : Justfile) (d : Definition) : Except Utf8.DecodeFault Range := do
  let text ← Utf8.decode .codePoints ((j.lineBytes? d.line).getD [])
  let length := d.name.last - d.name.first + 1
  return ⟨⟨.number d.line, Column.byteToUtf16 text d.column⟩,
    ⟨.number d.line, Column.byteToUtf16 text (d.column + length)⟩⟩

end Justfile

end JustfileServer
