import JustfileServer.Text.Numeral
import JustfileServer.Text.Printable

/-!
# Quoted text

How a text is shown inside a diagnostic: between apostrophes, or between quotation marks when it
holds an apostrophe and no quotation mark.  The mark in use and the backslash are written after a
backslash, and what is not printable is spelled as an escape of two, four or eight digits.
-/

namespace JustfileServer.Quoted

/-- The mark that goes around a text. -/
def mark (t : Text) : CodePoint :=
  if t.contains (.ofChar '\'') && !t.contains (.ofChar '"') then .ofChar '"' else .ofChar '\''

/-- The spelling of one code point between marks. -/
def spell (around : CodePoint) (c : CodePoint) : Text :=
  if c = around || c = .ofChar '\\' then [.ofChar '\\', c]
  else if c = .ofChar '\n' then "\\n"
  else if c = .ofChar '\r' then "\\r"
  else if c = .ofChar '\t' then "\\t"
  else if c.isPrintable then [c]
  else if c.val < 0x100 then Text.ofString "\\x" ++ Numeral.hex 2 c.val
  else if c.val < 0x10000 then Text.ofString "\\u" ++ Numeral.hex 4 c.val
  else Text.ofString "\\U" ++ Numeral.hex 8 c.val

/-- The quoted form of a text. -/
def quote (t : Text) : Text := mark t :: (t.flatMap (spell (mark t)) ++ [mark t])

end JustfileServer.Quoted
