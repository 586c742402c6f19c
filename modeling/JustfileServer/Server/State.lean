import JustfileServer.Server.Journal
import JustfileServer.Server.Documents

/-!
# The state of the server

The life of the server passes through four stages and never goes back.  With it are kept whether
the client has asked for a shutdown, the exit code, the open documents and the journal.
-/

namespace JustfileServer

/-- The stages in the life of the server. -/
inductive Stage
  | initializing
  | ready
  | shuttingDown
  | terminated
  deriving DecidableEq

namespace Stage

/-- The place of a stage in the order of all. -/
def rank : Stage → Nat
  | .initializing => 0
  | .ready => 1
  | .shuttingDown => 2
  | .terminated => 3

/-- The word for a stage. -/
def label : Stage → Text
  | .initializing => "INITIALIZING"
  | .ready => "READY"
  | .shuttingDown => "SHUTTING_DOWN"
  | .terminated => "TERMINATED"

end Stage

/-- The state of the server. -/
structure Server where
  stage : Stage
  shutdownRequested : Bool
  exitCode : Nat
  documents : DocumentTable
  journal : Journal

namespace Server

/-- The state of a server that has seen no message. -/
def initial (keepsFile : Bool) : Server := ⟨.initializing, false, 0, [], .empty keepsFile⟩

/-- Enters a line in the journal. -/
def log (line : Text) : Action Server Unit := fun s =>
  let (result, journal) := (Journal.enter line).perform s.journal
  (result, { s with journal := journal })

/-- Moves on to a stage, unless the server is there or beyond it already. -/
def advance (stage : Stage) : Action Server Unit := do
  let present := (← get).stage
  if present.rank < stage.rank then
    log (Text.ofString "State " ++ present.label ++ Text.ofString " -> " ++ stage.label)
    modify fun s => { s with stage := stage }

/-- Is the server shutting down, or done with it? -/
def isShuttingDown (s : Server) : Bool := Stage.shuttingDown.rank ≤ s.stage.rank

end Server

end JustfileServer
