import JustfileServer.Command.Run

/-!
# The program

What the other modules decide is done here: bytes are read from the standard input frame by frame,
and what a command or a turn of the main loop leaves is written out before anything more is read.
-/

namespace JustfileServer.Console

/-! ## Files -/

/-- The number and the wording of an error of the system. -/
def systemError : IO.Error → Nat × String
  | .noFileOrDirectory _ code details | .interrupted _ code details
  | .alreadyExists _ code details | .invalidArgument _ code details
  | .permissionDenied _ code details | .resourceExhausted _ code details
  | .inappropriateType _ code details | .noSuchThing _ code details
  | .otherError code details | .resourceBusy code details | .resourceVanished code details
  | .unsupportedOperation code details | .hardwareFault code details
  | .unsatisfiedConstraints code details | .illegalOperation code details
  | .protocolError code details | .timeExpired code details => (code.toNat, details)
  | .unexpectedEof => (0, "end of file")
  | .userError details => (0, details)

/-- Carries out something that needs a file. -/
def onFile {α : Type} (action : IO α) : IO (Except FileError α) := do
  try
    return .ok (← action)
  catch e =>
    let (code, details) := systemError e
    return .error (.ofNumber code (Text.ofString details))

/-! ## Streams -/

/-- Writes bytes to a stream. -/
def put (stream : IO.FS.Stream) (bytes : Bytes) : IO Unit := do
  unless bytes.isEmpty do
    stream.write (ByteArray.mk bytes.toArray)
    stream.flush

/-- Reads a number of bytes, or fewer if the stream ends before. -/
partial def take (stream : IO.FS.Stream) (count : Nat) : IO Bytes := do
  if count = 0 then return []
  let chunk := (← stream.read (USize.ofNat (min count 65536))).toList
  if chunk.isEmpty then return []
  return chunk ++ (← take stream (count - chunk.length))

/-- Reads a line with its newline, the bytes before it given in reverse. -/
partial def takeLine (stream : IO.FS.Stream) (before : Bytes) : IO Bytes := do
  match ← take stream 1 with
  | [] => return before.reverse
  | bytes =>
      if bytes = [Byte.newline] then return (bytes ++ before).reverse
      else takeLine stream (bytes ++ before)

/-- Reads lines behind the given ones until they are a header block, or the stream ends. -/
partial def takeHeader (stream : IO.FS.Stream) (lines : Bytes) : IO Bytes := do
  let line ← takeLine stream []
  let lines' := lines ++ line
  if line.isEmpty || (takeBlock lines').ended then return lines' else takeHeader stream lines'

/-- Reads just the bytes that receiving the next frame takes off the stream. -/
def takeFrame (stream : IO.FS.Stream) : IO Bytes := do
  let header ← takeHeader stream []
  match (takeBlock header).length? with
  | none => return header
  | some length => return header ++ (← take stream length)

/-! ## Commands -/

/-- Writes out the result of a command and gives its exit code. -/
def finish (result : CommandResult) : IO UInt32 := do
  put (← IO.getStdout) (Utf8.encode result.output)
  put (← IO.getStderr) (Utf8.encode (Utf8.spellSurrogates result.errors))
  match result.ending with
  | .ok code => return UInt32.ofNat code
  | .error f =>
      put (← IO.getStderr) (Utf8.encode (Report.outputLine
        (f.className ++ Text.ofString ": " ++ Utf8.spellSurrogates f.message)))
      return 1

/-- Writes out what the server has sent and reported, and takes it from the exchange. -/
def release (keep : Bytes → IO Unit) (x : Exchange Server) : IO (Exchange Server) := do
  let journal := x.state.journal
  keep (Utf8.encode journal.file)
  put (← IO.getStderr) (Utf8.encode journal.screen)
  put (← IO.getStdout) x.output
  return ⟨{ x.state with journal := .empty journal.keepsFile }, []⟩

/-- Answers frames until the main loop ends: the reason for it, and what it leaves. -/
partial def converse (keep : Bytes → IO Unit) (buffer : Buffer) (x : Exchange Server) :
    IO (Ending × Exchange Server) := do
  let source : ByteSource := ⟨← takeFrame (← IO.getStdin), .constant 65535, 0, false⟩
  let receipt := Reader.receive ⟨source, buffer⟩
  let (ending, x) := Server.dispatcher.turn Server.stopPredicate receipt x
  let x ← release keep x
  match ending with
  | some ending => return (ending, x)
  | none => converse keep receipt.reader.buffer x

/-- Runs the server to its end and gives the exit code. -/
def serve (keepsFile : Bool) (keep : Bytes → IO Unit) : IO UInt32 := do
  let x ← release keep (Server.after Server.opening ⟨.initial keepsFile, []⟩)
  let (ending, x) ← converse keep .initial x
  let x ← release keep (Server.after (Server.closing ending) x)
  let (code, last) := Command.exitOf ending x.state
  finish ⟨.ok code, [], last⟩

/-- Runs the server with its journal in a file. -/
def serveWithFile (path : Text) : IO UInt32 := do
  match pathFault? path with
  | some f => finish (Command.notStarted f.message).result
  | none =>
      match ← onFile (IO.FS.Handle.mk path.toString .write) with
      | .error e => finish (Command.notStarted (e.message path)).result
      | .ok file => serve true fun bytes => put (IO.FS.Stream.ofHandle file) bytes

end JustfileServer.Console

open JustfileServer in
/-- Carries out the command line. -/
def main (args : List String) : IO UInt32 := do
  match Arguments.read (args.map Text.ofString) with
  | .error refusal => Console.finish (Command.refused refusal)
  | .ok (.report path) =>
      let contents ← Console.onFile do
        let file ← IO.FS.Handle.mk path.toString .read
        return (← file.readBinToEnd).toList
      Console.finish (Report.ofFile path contents)
  | .ok (.serve path) =>
      if path.isEmpty then Console.serve false fun _ => pure ()
      else Console.serveWithFile path
