import JustfileServer.Text.Utf8

/-!
# Spans

A span names a range of bytes in a buffer by its first and its last offset, both included, so the
shortest span covers one byte.  Offsets are integers and a span may be any pair of them; one that
does not lie in the buffer covers nothing.
-/

namespace JustfileServer

/-- A range of byte offsets, both ends included. -/
structure Span where
  first : Int
  last : Int
  deriving DecidableEq

namespace Span

/-- The span of `length` bytes that starts at an offset; `length` is at least one. -/
def ofLength (start length : Nat) : Span := ⟨start, start + length - 1⟩

/-- Does the span lie in a buffer of the given size? -/
def fits (s : Span) (size : Nat) : Bool := 0 ≤ s.first && s.first ≤ s.last && s.last < size

/-- The bytes that the span covers in a buffer, none when it does not fit. -/
def bytes (s : Span) (data : Bytes) : Bytes :=
  if s.fits data.length then (data.drop s.first.toNat).take (s.last - s.first + 1).toNat else []

/-- The text that the span covers in a buffer, none when it does not fit.  Bytes that encode
nothing are replaced. -/
def text (s : Span) (data : Bytes) : Text := Utf8.decodeReplacing (s.bytes data)

end Span

end JustfileServer
