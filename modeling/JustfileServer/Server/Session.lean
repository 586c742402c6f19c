import JustfileServer.Server.Handlers
import JustfileServer.Rpc.Loop

/-!
# A session

The server reports that it starts, runs the main loop until it is shutting down or the stream ends,
and reports that it has stopped, whatever ended the loop.
-/

namespace JustfileServer.Server

/-- The loop stops after a message that has made the server shut down. -/
def stopPredicate : StopPredicate Server := some fun s => (s.isShuttingDown, s)

/-- What is reported before the loop. -/
def opening : Action Server Unit := log "Just Language Server starting"

/-- What is reported after the loop, and the last stage. -/
def closing (ending : Ending) : Action Server Unit := do
  match ending with
  | .interrupted => log "Interrupted"
  | .failed f => log (Text.ofString "Server error: " ++ f.message)
  | .finished | .stopped => pure ()
  advance .terminated
  log "Server stopped"

/-- The state after an action that cannot fail. -/
def after (action : Action Server Unit) (x : Exchange Server) : Exchange Server :=
  { x with state := (action.perform x.state).2 }

/-- Runs the server on a stream: why the loop ended, and what it leaves. -/
def run (r : Reader) (x : Exchange Server) : Ending × Reader × Exchange Server :=
  let (ending, r, x) := dispatcher.run stopPredicate r (after opening x)
  (ending, r, after (closing ending) x)

/-- Runs a new server on a stream. -/
def session (keepsFile : Bool) (source : ByteSource) : Ending × Reader × Exchange Server :=
  run (.ofSource source) ⟨.initial keepsFile, []⟩

end JustfileServer.Server
