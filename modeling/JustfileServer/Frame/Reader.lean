import JustfileServer.Frame.Header
import JustfileServer.Frame.Buffer
import JustfileServer.Json.Reader
import JustfileServer.Rpc.Fault

/-!
# Receiving frames

A frame is a header block and a body of the announced length.  `Reader.receive` takes one frame off
the stream and decodes its body.  A body that is not UTF-8 or not JSON is undecodable, which is
told to the other side and does no harm to the frames behind it.  A stream that ends, and a block
without a usable length, finish the reading.
-/

namespace JustfileServer

/-- A stream being read frame by frame. -/
structure Reader where
  source : ByteSource
  buffer : Buffer

/-- What one attempt to receive a frame gives. -/
inductive Received
  /-- The value of a body. -/
  | value (v : Json)
  /-- A whole frame whose body is not JSON. -/
  | undecodable (e : RpcError)
  /-- A whole frame whose body cannot be turned into a value. -/
  | failed (f : Fault)
  /-- No further frame. -/
  | finished
  /-- The program was interrupted while it waited for a frame. -/
  | interrupted

namespace Received

/-- The message received, if any: a null value cannot be told from the end. -/
def message? : Received → Option Json
  | .value v => if v.isNull then none else some v
  | _ => none

/-- Was a whole frame taken off the stream? -/
def isFrame : Received → Bool
  | .value _ | .undecodable _ | .failed _ => true
  | .finished | .interrupted => false

end Received

/-- What receiving a frame gives and leaves. -/
structure Receipt where
  diagnostics : List Diagnostic
  received : Received
  reader : Reader

/-- The remote error about a body that is not JSON. -/
def undecodableError (reason : Text) : RpcError :=
  ⟨RpcError.parseCode, Text.ofString "Invalid JSON: " ++ reason, .null⟩

/-- Decodes a body. -/
def decodeBody (body : Bytes) : Received :=
  match Utf8.decode .scalars body with
  | .error f => .undecodable (undecodableError f.message)
  | .ok t =>
      match Json.ofText t with
      | .ok v => .value v
      | .error (.malformed m) => .undecodable (undecodableError m.message)
      | .error (.tooManyDigits count) => .failed (.tooManyDigits count)

theorem isFrame_decodeBody (body : Bytes) : (decodeBody body).isFrame = true := by
  unfold decodeBody
  split
  · rfl
  · split <;> rfl

namespace Reader

/-- A reader at the beginning of a stream. -/
def ofSource (source : ByteSource) : Reader := ⟨source, .initial⟩

/-- Receives the next frame. -/
def receive (r : Reader) : Receipt :=
  let block := takeBlock r.source.unread
  let source := { r.source with unread := block.rest }
  match block.length? with
  | none =>
      let received := if !block.ended && source.interrupts then .interrupted else .finished
      ⟨block.diagnostics, received, ⟨source, r.buffer⟩⟩
  | some length =>
      let filling := fill source (r.buffer.reserve length) 0 length
      let reader := ⟨filling.source, filling.buffer⟩
      if filling.complete then
        ⟨block.diagnostics, decodeBody (filling.buffer.view length), reader⟩
      else ⟨block.diagnostics ++ [.cutShort length], .finished, reader⟩

/-- Receiving a frame takes something off the stream. -/
theorem length_receive_unread_lt {r : Reader} (h : r.receive.received.isFrame = true) :
    r.receive.reader.source.unread.length < r.source.unread.length := by
  unfold receive at h ⊢
  cases hl : (takeBlock r.source.unread).length? with
  | none =>
      simp only [hl] at h
      split at h <;> simp [Received.isFrame] at h
  | some length =>
      have ended : (takeBlock r.source.unread).ended = true := by
        cases he : (takeBlock r.source.unread).ended with
        | true => rfl
        | false => simp [HeaderBlock.length?, he] at hl
      have shorter := length_takeBlock_rest_lt ended
      have filled := length_fill_unread_le
        { r.source with unread := (takeBlock r.source.unread).rest } (r.buffer.reserve length) 0
        length
      simp only [hl]
      split
      · exact Nat.lt_of_le_of_lt filled shorter
      · exact Nat.lt_of_le_of_lt filled shorter

/-- The messages up to the end of the stream, or up to a frame that has no value. -/
def messages (r : Reader) : List Json × Receipt :=
  match _given : r.receive.received with
  | .value v =>
      if v.isNull then ([], r.receive)
      else
        let later := messages r.receive.reader
        (v :: later.1, later.2)
  | _ => ([], r.receive)
termination_by r.source.unread.length
decreasing_by exact length_receive_unread_lt (by rw [_given]; rfl)

end Reader

end JustfileServer
