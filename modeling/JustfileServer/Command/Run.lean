import JustfileServer.Command.Arguments
import JustfileServer.Command.Report
import JustfileServer.Server.Session

/-!
# Carrying out a command

A command that asks for nothing to be done shows a text.  The server reports on the error stream
and exits with its own code; when a fault ends it, or its file cannot be made or takes nothing, that
is reported as well and the code is one.  `Command.run` carries a whole command line out on a tree of files and a
stream.
-/

namespace JustfileServer.Command

/-- The result of a command line that asks for nothing to be done. -/
def refused : Refusal → CommandResult
  | .help g => ⟨.ok 0, g.help, []⟩
  | .version => ⟨.ok 0, Grammar.versionText, []⟩
  | .misuse g message => ⟨.ok 2, [], g.complaint message⟩

/-- The line about a server that could not start or go on. -/
def serverFailure (reason : Text) : Text :=
  Report.outputLine (Text.ofString "Error starting LSP server: " ++ reason)

/-- The exit code of a session and what is shown about its end. -/
def exitOf (ending : Ending) (s : Server) : Nat × Text :=
  match ending with
  | .failed f => (1, serverFailure f.message)
  | _ => (s.exitCode, [])

/-- What a command line leaves: its result, the bytes that a session has written, and the file in
the current directory that it has made or replaced. -/
structure Trace where
  result : CommandResult
  frames : Bytes
  written : Option (FilePath × Bytes)

/-- Runs the server with a journal's file at the given spot, or without one. -/
def serve (file : Option Spot) (source : ByteSource) : Trace :=
  let (ending, _, x) := Server.session file.isSome source
  let (code, last) := exitOf ending x.state
  ⟨⟨.ok code, [], x.state.journal.screen ++ Utf8.spellSurrogates last⟩, x.output,
    match file with
    | some ⟨true, names⟩ => some (names, Utf8.encode x.state.journal.file)
    | _ => none⟩

/-- A server that did not start, for the given reason. -/
def notStarted (reason : Text) : Trace :=
  ⟨⟨.ok 1, [], Utf8.spellSurrogates (serverFailure reason)⟩, [], none⟩

/-- A command that works on no stream. -/
def withoutStream (result : CommandResult) : Trace :=
  ⟨{ result with errors := Utf8.spellSurrogates result.errors }, [], none⟩

/-- Carries a command line out. -/
def run (args : List Text) (tree : FileTree) (source : ByteSource) : Trace :=
  match Arguments.read args with
  | .error refusal => withoutStream (refused refusal)
  | .ok (.report path) => withoutStream (Report.ofFile path (tree.read path))
  | .ok (.serve path) =>
      if path.isEmpty then serve none source
      else
        match pathFault? path with
        | some f => notStarted f.message
        | none =>
            match tree.create path with
            | .error e => notStarted (e.message path)
            | .ok spot =>
                match FileTree.noRoom? spot with
                | some reason => notStarted reason
                | none => serve (some spot) source

end JustfileServer.Command
