import JustfileServer.Frame.Source

/-!
# The body buffer

The bodies of all frames are read into one buffer, which is replaced by a larger one when a longer
body is announced and is never cleared, so bytes of earlier bodies may stand behind the present
one.  Of a buffer only the beginning is kept that has ever been written; the rest holds zeros.
-/

namespace JustfileServer

/-- A buffer: its size, and the bytes at its beginning that have been written. -/
structure Buffer where
  size : Nat
  written : Bytes

namespace Buffer

/-- The buffer of a new reader. -/
def initial : Buffer := ⟨4096, []⟩

/-- A buffer with room for `length` bytes: the same, or a new one of just that size. -/
def reserve (buffer : Buffer) (length : Nat) : Buffer :=
  if buffer.size < length then ⟨length, []⟩ else buffer

/-- The first `length` bytes of the buffer. -/
def view (buffer : Buffer) (length : Nat) : Bytes :=
  buffer.written.take length ++ List.replicate (length - buffer.written.length) 0

/-- The buffer with some bytes written at an offset. -/
def store (buffer : Buffer) (offset : Nat) (chunk : Bytes) : Buffer :=
  { buffer with
    written := buffer.view offset ++ chunk ++ buffer.written.drop (offset + chunk.length) }

end Buffer

/-- The outcome of filling a buffer from a stream. -/
structure Filling where
  /-- Did the stream have all the bytes? -/
  complete : Bool
  source : ByteSource
  buffer : Buffer

/-- Reads into the buffer, where `received` bytes have arrived, until there are `length` or the
stream has ended. -/
def fill (source : ByteSource) (buffer : Buffer) (received length : Nat) : Filling :=
  if _more : received < length then
    let chunk := (source.read (length - received)).1
    let after := (source.read (length - received)).2
    if _ended : chunk = [] then ⟨false, after, buffer⟩
    else fill after (buffer.store received chunk) (received + chunk.length) length
  else ⟨true, source, buffer⟩
termination_by length - received
decreasing_by
  have : 0 < (source.read (length - received)).1.length := List.length_pos_iff.2 _ended
  omega

theorem length_read_unread_le (source : ByteSource) (wanted : Nat) :
    (source.read wanted).2.unread.length ≤ source.unread.length := by
  simp [ByteSource.read]

/-- Filling a buffer never gives bytes back to the stream. -/
theorem length_fill_unread_le (source : ByteSource) (buffer : Buffer) (received length : Nat) :
    (fill source buffer received length).source.unread.length ≤ source.unread.length := by
  fun_induction fill source buffer received length with
  | case1 => exact length_read_unread_le _ _
  | case2 _ _ _ _ _ _ _ ih => exact Nat.le_trans ih (length_read_unread_le _ _)
  | case3 => exact Nat.le_refl _

end JustfileServer
