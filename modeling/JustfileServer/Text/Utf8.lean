import JustfileServer.Text.Numeral

/-!
# UTF-8

Encoding writes every code point, a surrogate as the three bytes that its number asks for.  The
strict form refuses a text with surrogates and says where the first run of them stands.

Decoding cuts the bytes into pieces: a piece is either the whole encoding of a code point or a
broken one, which is the longest beginning of an encoding found there, at least one byte.  Strict
decoding fails at the first broken piece; replacing decoding puts one replacement character for
each.  Which code points have an encoding is a parameter, the `Repertoire`.
-/

namespace JustfileServer

namespace CodePoint

/-- The number of bytes in the encoding of a code point. -/
def utf8Width (c : CodePoint) : Nat :=
  if c.val < 0x80 then 1 else if c.val < 0x800 then 2 else if c.val < 0x10000 then 3 else 4

/-- The byte that continues an encoding with six more bits. -/
def continuation (n : Nat) : UInt8 := UInt8.ofNat (0x80 + n % 0x40)

/-- The encoding of a code point. -/
def utf8 (c : CodePoint) : Bytes :=
  if c.val < 0x80 then [UInt8.ofNat c.val]
  else if c.val < 0x800 then [UInt8.ofNat (0xC0 + c.val / 0x40), continuation c.val]
  else if c.val < 0x10000 then
    [UInt8.ofNat (0xE0 + c.val / 0x1000), continuation (c.val / 0x40), continuation c.val]
  else
    [UInt8.ofNat (0xF0 + c.val / 0x40000), continuation (c.val / 0x1000),
      continuation (c.val / 0x40), continuation c.val]

@[simp] theorem length_utf8 (c : CodePoint) : c.utf8.length = c.utf8Width := by
  unfold utf8 utf8Width
  by_cases h₁ : c.val < 0x80
  · simp [h₁]
  · by_cases h₂ : c.val < 0x800
    · simp [h₁, h₂]
    · by_cases h₃ : c.val < 0x10000 <;> simp [h₁, h₂, h₃]

theorem utf8Width_pos (c : CodePoint) : 0 < c.utf8Width := by
  unfold utf8Width
  split
  · decide
  · split
    · decide
    · split <;> decide

end CodePoint

namespace Utf8

/-! ## Encoding -/

/-- The encoding of a text, its surrogates as three bytes each. -/
def encode (t : Text) : Bytes := t.flatMap CodePoint.utf8

/-- A text that has no strict encoding: its surrogates from `start` up to before `stop` are the
first run of them. -/
structure EncodeFault where
  text : Text
  start : Nat
  stop : Nat

/-- The strict encoding, which a text with a surrogate does not have. -/
def encodeStrict (t : Text) : Except EncodeFault Bytes :=
  let before := t.takeWhile fun c => !c.isSurrogate
  let run := (t.dropWhile fun c => !c.isSurrogate).takeWhile CodePoint.isSurrogate
  if run.isEmpty then .ok (encode t)
  else .error ⟨t, before.length, before.length + run.length⟩

/-- A text in which each surrogate is spelled out as a backslash, `u` and four digits. -/
def spellSurrogates (t : Text) : Text :=
  t.flatMap fun c => if c.isSurrogate then Text.ofString "\\u" ++ Numeral.hex 4 c.val else [c]

/-- Says which code points cannot be encoded. -/
def EncodeFault.message (f : EncodeFault) : Text :=
  let place : Text :=
    if f.stop = f.start + 1 then
      Text.ofString "character '" ++ spellSurrogates ((f.text.drop f.start).take 1)
        ++ Text.ofString "' in position " ++ Numeral.decimal f.start
    else
      Text.ofString "characters in position " ++ Numeral.decimal f.start ++ Text.ofString "-"
        ++ Numeral.decimal (f.stop - 1)
  Text.ofString "'utf-8' codec can't encode " ++ place ++ Text.ofString ": surrogates not allowed"

/-! ## Decoding -/

/-- The code points that bytes may encode: all but the surrogates, or all. -/
inductive Repertoire
  | scalars
  | codePoints
  deriving DecidableEq

/-- Why a piece is broken. -/
inductive Reason
  /-- The byte begins no encoding. -/
  | start
  /-- The byte after the piece does not continue it. -/
  | continuation
  /-- The bytes end inside the piece. -/
  | ending
  deriving DecidableEq

/-- A range of byte values, both ends included. -/
structure ByteRange where
  low : UInt8
  high : UInt8

namespace ByteRange

/-- Is the byte in the range? -/
def contains (g : ByteRange) (b : UInt8) : Bool := g.low ≤ b && b ≤ g.high

/-- The bytes that may continue an encoding where nothing else restricts them. -/
def trail : ByteRange := ⟨0x80, 0xBF⟩

end ByteRange

/-- What a first byte announces: the bits that it carries itself, and the range of each byte that
has to follow.  The ranges leave out encodings longer than necessary and numbers above the code
space. -/
def announced (repertoire : Repertoire) (b : UInt8) : Option (Nat × List ByteRange) :=
  if b < 0x80 then some (b.toNat, [])
  else if b < 0xC2 then none
  else if b < 0xE0 then some (b.toNat - 0xC0, [.trail])
  else if b = 0xE0 then some (0, [⟨0xA0, 0xBF⟩, .trail])
  else if b = 0xED then
    match repertoire with
    | .scalars => some (0xD, [⟨0x80, 0x9F⟩, .trail])
    | .codePoints => some (0xD, [.trail, .trail])
  else if b < 0xF0 then some (b.toNat - 0xE0, [.trail, .trail])
  else if b = 0xF0 then some (0, [⟨0x90, 0xBF⟩, .trail, .trail])
  else if b < 0xF4 then some (b.toNat - 0xF0, [.trail, .trail, .trail])
  else if b = 0xF4 then some (4, [⟨0x80, 0x8F⟩, .trail, .trail])
  else none

/-- A piece of a byte sequence. -/
inductive Piece
  /-- The whole encoding of a code point. -/
  | point (c : CodePoint)
  /-- Bytes that encode nothing: how many, the first of them, and why. -/
  | broken (count : Nat) (first : UInt8) (reason : Reason)

namespace Piece

/-- The number of bytes in a piece. -/
def width : Piece → Nat
  | .point c => c.utf8Width
  | .broken count _ _ => count

end Piece

/-- Reads the bytes that have to follow a first byte, collecting their bits: the first piece and
what is left after it. -/
def continued (first : UInt8) : Nat → Nat → List ByteRange → Bytes → Piece × Bytes
  | _, value, [], rest => (.point (.ofNat value), rest)
  | count, _, _ :: _, [] => (.broken count first .ending, [])
  | count, value, g :: gs, b :: rest =>
      if g.contains b then continued first (count + 1) (value * 0x40 + (b.toNat - 0x80)) gs rest
      else (.broken count first .continuation, b :: rest)

/-- The piece that starts with the given byte, and the bytes after the piece. -/
def nextPiece (repertoire : Repertoire) (b : UInt8) (rest : Bytes) : Piece × Bytes :=
  match announced repertoire b with
  | none => (.broken 1 b .start, rest)
  | some (value, ranges) => continued b 1 value ranges rest

theorem length_continued_le (first : UInt8) (count value : Nat) (ranges : List ByteRange)
    (rest : Bytes) : (continued first count value ranges rest).2.length ≤ rest.length := by
  induction ranges generalizing count value rest with
  | nil => simp [continued]
  | cons g gs ih =>
      cases rest with
      | nil => simp [continued]
      | cons b r =>
          unfold continued
          split
          · exact Nat.le_succ_of_le (ih _ _ _)
          · exact Nat.le_refl _

/-- A piece is at least one byte long, so what is left is shorter. -/
theorem length_nextPiece_le (repertoire : Repertoire) (b : UInt8) (rest : Bytes) :
    (nextPiece repertoire b rest).2.length ≤ rest.length := by
  unfold nextPiece
  split
  · exact Nat.le_refl _
  · exact length_continued_le _ _ _ _ _

/-- Cuts bytes into pieces, from the left, each as long as it can be. -/
def pieces (repertoire : Repertoire) : Bytes → List Piece
  | [] => []
  | b :: rest =>
      (nextPiece repertoire b rest).1 :: pieces repertoire (nextPiece repertoire b rest).2
termination_by data => data.length
decreasing_by exact Nat.lt_succ_of_le (length_nextPiece_le _ _ _)

/-- A place where bytes encode nothing. -/
structure DecodeFault where
  start : Nat
  count : Nat
  first : UInt8
  reason : Reason

/-- The code points of the pieces, or the first broken piece, its offset counted from `offset`. -/
def wholePoints (offset : Nat) : List Piece → Except DecodeFault Text
  | [] => .ok []
  | .point c :: rest => (wholePoints (offset + c.utf8Width) rest).map (c :: ·)
  | .broken count first reason :: _ => .error ⟨offset, count, first, reason⟩

/-- Decodes bytes, failing at the first place where they encode nothing. -/
def decode (repertoire : Repertoire) (data : Bytes) : Except DecodeFault Text :=
  wholePoints 0 (pieces repertoire data)

/-- The code point that a piece is shown as. -/
def Piece.shown : Piece → CodePoint
  | .point c => c
  | .broken _ _ _ => .replacement

/-- Decodes bytes, one replacement character for each broken piece; surrogates count as broken. -/
def decodeReplacing (data : Bytes) : Text := (pieces .scalars data).map Piece.shown

/-- The wording of a reason. -/
def Reason.message : Reason → Text
  | .start => "invalid start byte"
  | .continuation => "invalid continuation byte"
  | .ending => "unexpected end of data"

/-- Says which bytes cannot be decoded, and why. -/
def DecodeFault.message (f : DecodeFault) : Text :=
  let place : Text :=
    if f.count = 1 then
      Text.ofString "byte 0x" ++ Numeral.hex 2 f.first.toNat ++ Text.ofString " in position "
        ++ Numeral.decimal f.start
    else
      Text.ofString "bytes in position " ++ Numeral.decimal f.start ++ Text.ofString "-"
        ++ Numeral.decimal (f.start + f.count - 1)
  Text.ofString "'utf-8' codec can't decode " ++ place ++ Text.ofString ": " ++ f.reason.message

end Utf8

end JustfileServer
