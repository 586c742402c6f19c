/-!
# Code points and text

A text is a list of code points.  Unlike `Char`, a code point may be a surrogate: a client can
write a lone surrogate as an escape, and such a text has to be stored, measured and searched like
any other.  Bytes are kept as a list of `UInt8`.
-/

namespace JustfileServer

/-- A sequence of bytes. -/
abbrev Bytes := List UInt8

/-- A number that the code space gives a meaning, the surrogates included. -/
structure CodePoint where
  val : Nat
  val_lt : val < 0x110000
  deriving DecidableEq

/-- A sequence of code points. -/
abbrev Text := List CodePoint

namespace CodePoint

/-- The replacement character, which stands for bytes that encode nothing. -/
def replacement : CodePoint := ⟨0xFFFD, by decide⟩

/-- The code point with this number; a number outside the code space becomes the replacement
character. -/
def ofNat (n : Nat) : CodePoint := if h : n < 0x110000 then ⟨n, h⟩ else replacement

/-- The code point of a character. -/
def ofChar (c : Char) : CodePoint := ofNat c.toNat

/-- The code point that has the value of the byte. -/
def ofByte (b : UInt8) : CodePoint := ofNat b.toNat

/-- The character of a code point; a surrogate has none and gives NUL. -/
def toChar (c : CodePoint) : Char := Char.ofNat c.val

/-- Is it the first half of a surrogate pair? -/
def isHighSurrogate (c : CodePoint) : Bool := 0xD800 ≤ c.val && c.val < 0xDC00

/-- Is it the second half of a surrogate pair? -/
def isLowSurrogate (c : CodePoint) : Bool := 0xDC00 ≤ c.val && c.val < 0xE000

/-- Is it a surrogate of either half? -/
def isSurrogate (c : CodePoint) : Bool := 0xD800 ≤ c.val && c.val < 0xE000

/-- The order of code points is the order of their numbers. -/
def ltb (a b : CodePoint) : Bool := a.val < b.val

@[simp] theorem ofNat_val (c : CodePoint) : ofNat c.val = c := by
  simp [ofNat, c.val_lt]

theorem val_ofNat {n : Nat} (h : n < 0x110000) : (ofNat n).val = n := by
  simp [ofNat, h]

end CodePoint

namespace Text

/-- The text of a string. -/
def ofString (s : String) : Text := s.toList.map CodePoint.ofChar

instance : Coe String Text := ⟨ofString⟩

/-- The string of a text; each surrogate becomes NUL. -/
def toString (t : Text) : String := String.ofList (t.map CodePoint.toChar)

/-- Texts compare by their first difference, a text coming before its extensions. -/
def ltb : Text → Text → Bool
  | [], [] => false
  | [], _ :: _ => true
  | _ :: _, [] => false
  | a :: s, b :: t => a.ltb b || (a == b && ltb s t)

/-- The parts with the separator between any two of them. -/
def join (separator : Text) : List Text → Text
  | [] => []
  | [t] => t
  | t :: u :: rest => t ++ separator ++ join separator (u :: rest)

/-- The text before the first occurrence of a code point and the text after it, or nothing when it
does not occur. -/
def splitFirst? (mark : CodePoint) : Text → Option (Text × Text)
  | [] => none
  | c :: rest =>
      if c = mark then some ([], rest)
      else (splitFirst? mark rest).map fun p => (c :: p.1, p.2)

/-- The ASCII letters of a text in lower case; all other code points stay. -/
def lowerAscii (t : Text) : Text :=
  t.map fun c => if 0x41 ≤ c.val && c.val ≤ 0x5A then CodePoint.ofNat (c.val + 32) else c

end Text

end JustfileServer
