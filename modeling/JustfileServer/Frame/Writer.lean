import JustfileServer.Json.Writer
import JustfileServer.Rpc.Fault

/-!
# Sending frames

A frame is written as one header line with the length of the body in bytes, a blank line, and the
body.  A value has no body when a lone surrogate is in it, or an integer that is too long to be
written; then nothing of its frame is written.
-/

namespace JustfileServer.Frame

/-- The bytes of a text of ASCII characters. -/
def ascii (s : String) : Bytes := Utf8.encode (Text.ofString s)

/-- The header block of a body of the given length. -/
def header (length : Nat) : Bytes :=
  ascii "Content-Length: " ++ Utf8.encode (Numeral.decimal length) ++ ascii "\r\n\r\n"

/-- A body with its header block. -/
def ofBody (body : Bytes) : Bytes := header body.length ++ body

/-- The frame of a value whose integers can be written. -/
def ofValue (v : Json) : Except Utf8.EncodeFault Bytes :=
  (Utf8.encodeStrict v.render).map ofBody

/-- What is sent for a value: its frame, or the fault that it has none. -/
def send (v : Json) : Except Fault Bytes :=
  if v.hasLongInteger then .error .longInteger
  else
    match ofValue v with
    | .ok bytes => .ok bytes
    | .error f => .error (.unencodable f)

end JustfileServer.Frame
