import JustfileServer.Json.Value
import JustfileServer.Number.Shortest
import JustfileServer.Text.Quoted

/-!
# Writing JSON

`Json.render` is the compact form that goes over the wire, without any white space; code points
above ASCII are written as they are.  `Json.renderAscii` escapes those as well.  `Json.shown` is
the form that diagnostics use.
-/

namespace JustfileServer.Json

/-- A quotation mark, a backslash and the control characters have to be escaped in a string. -/
def escape? (c : CodePoint) : Option Text :=
  if c.val = 0x22 then some "\\\""
  else if c.val = 0x5C then some "\\\\"
  else if c.val = 0x0A then some "\\n"
  else if c.val = 0x0D then some "\\r"
  else if c.val = 0x09 then some "\\t"
  else if c.val = 0x0C then some "\\f"
  else if c.val = 0x08 then some "\\b"
  else if c.val < 0x20 then some (Text.ofString "\\u" ++ Numeral.hex 4 c.val)
  else none

/-- The spelling of a code point in a string, with only the necessary escapes. -/
def spell (c : CodePoint) : Text := (escape? c).getD [c]

/-- A numeric escape. -/
def numericEscape (n : Nat) : Text := Text.ofString "\\u" ++ Numeral.hex 4 n

/-- The spelling of a code point in a string of ASCII characters; a code point of two UTF-16 units
is written as a surrogate pair. -/
def spellAscii (c : CodePoint) : Text :=
  match escape? c with
  | some t => t
  | none =>
      if c.val < 0x80 then [c]
      else if c.val < 0x10000 then numericEscape c.val
      else
        numericEscape (0xD800 + (c.val - 0x10000) / 0x400)
          ++ numericEscape (0xDC00 + (c.val - 0x10000) % 0x400)

/-- A number is written positionally when its first digit stands for at least a ten thousandth and
for less than ten to the sixteenth. -/
def numberLayout : NumberLayout := ⟨-4, 16, "NaN", "Infinity"⟩

/-- A string between quotation marks. -/
def renderString (spelling : CodePoint → Text) (t : Text) : Text :=
  .ofChar '"' :: (t.flatMap spelling ++ [.ofChar '"'])

mutual

/-- The compact form of a value, for a given spelling of the code points in strings. -/
def renderWith (spelling : CodePoint → Text) : Json → Text
  | .null => "null"
  | .bool b => Text.ofString (if b then "true" else "false")
  | .int n => Numeral.ofInt n
  | .float x => numberLayout.render x
  | .str t => renderString spelling t
  | .arr [] => "[]"
  | .arr (e :: rest) =>
      .ofChar '[' :: (renderWith spelling e ++ renderElements spelling rest)
  | .obj [] => Text.ofString "\x7b\x7d"
  | .obj ((name, value) :: rest) =>
      .ofChar '\x7b' :: (renderString spelling name ++ .ofChar ':' :: renderWith spelling value
        ++ renderMembers spelling rest)

/-- The elements behind the first one, each after a comma, and the closing bracket. -/
def renderElements (spelling : CodePoint → Text) : List Json → Text
  | [] => "]"
  | e :: rest => .ofChar ',' :: (renderWith spelling e ++ renderElements spelling rest)

/-- The members behind the first one, each after a comma, and the closing brace. -/
def renderMembers (spelling : CodePoint → Text) : List (Text × Json) → Text
  | [] => Text.ofString "\x7d"
  | (name, value) :: rest =>
      .ofChar ',' :: (renderString spelling name ++ .ofChar ':' :: renderWith spelling value
        ++ renderMembers spelling rest)

end

/-- The compact form of a value. -/
def render (v : Json) : Text := renderWith spell v

/-- The compact form of a value in ASCII characters. -/
def renderAscii (v : Json) : Text := renderWith spellAscii v

/-- Is the value an integer with more digits than are written? -/
def isLongInteger : Json → Bool
  | .int n => Numeral.maxDigits < (Numeral.decimal n.natAbs).length
  | _ => false

/-- Has a value an integer in it with more digits than are written? -/
def hasLongInteger (v : Json) : Bool := v.parts.any isLongInteger

/-! ## Values in diagnostics -/

/-- In a diagnostic the special numbers have names of their own. -/
def diagnosticLayout : NumberLayout := ⟨-4, 16, "nan", "inf"⟩

mutual

/-- A value inside a diagnostic, its strings quoted. -/
def quoted : Json → Text
  | .null => "None"
  | .bool b => Text.ofString (if b then "True" else "False")
  | .int n => Numeral.ofInt n
  | .float x => diagnosticLayout.render x
  | .str t => Quoted.quote t
  | .arr elements => .ofChar '[' :: (Text.join ", " (quotedElements elements) ++ [.ofChar ']'])
  | .obj members =>
      .ofChar '\x7b' :: (Text.join ", " (quotedMembers members) ++ [.ofChar '\x7d'])

/-- Each element inside a diagnostic. -/
def quotedElements : List Json → List Text
  | [] => []
  | e :: rest => quoted e :: quotedElements rest

/-- Each member inside a diagnostic. -/
def quotedMembers : List (Text × Json) → List Text
  | [] => []
  | (name, value) :: rest =>
      (Quoted.quote name ++ Text.ofString ": " ++ quoted value) :: quotedMembers rest

end

/-- A value as a diagnostic: a string is given as it is, all else as inside a diagnostic. -/
def shown : Json → Text
  | .str t => t
  | v => quoted v

end JustfileServer.Json
