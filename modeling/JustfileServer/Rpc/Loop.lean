import JustfileServer.Rpc.Dispatcher
import JustfileServer.Frame.Reader
import JustfileServer.Frame.Writer

/-!
# The main loop

The loop receives a frame, handles its message and writes the reply before it receives the next.
A body that is not JSON is answered with an error and the loop goes on.  After each message that
was handled a stop predicate is asked, if there is one.  A reply is written as a whole or, when it
has no encoding, not at all, and then its fault ends the loop.

Every frame takes at least one byte off the stream, so the loop ends.
-/

namespace JustfileServer

/-- Why a loop has ended. -/
inductive Ending
  /-- There is no further message. -/
  | finished
  /-- The stop predicate said so. -/
  | stopped
  /-- The program was interrupted. -/
  | interrupted
  /-- Something went wrong that no reply can report. -/
  | failed (f : Fault)

/-- The state that handlers work on, with all bytes written so far. -/
structure Exchange (σ : Type) where
  state : σ
  output : Bytes

namespace Exchange

variable {σ α : Type}

/-- An action on the state alone. -/
def onState (action : Action σ α) : Action (Exchange σ) α := fun x =>
  let (result, s) := action.perform x.state
  (result, { x with state := s })

/-- Writes the frame of a value. -/
def write (v : Json) : Action (Exchange σ) Unit :=
  match Frame.send v with
  | .ok bytes => modify fun x => { x with output := x.output ++ bytes }
  | .error f => throw f

end Exchange

/-- Decides after a message whether the loop is to stop. -/
abbrev StopPredicate (σ : Type) := Option (StateM σ Bool)

namespace Dispatcher

variable {σ : Type}

/-- Enters diagnostics in the journal. -/
def report (d : Dispatcher σ) (diagnostics : List Diagnostic) : Action (Exchange σ) Unit :=
  diagnostics.forM fun g => Exchange.onState (d.log g.message)

/-- Asks the stop predicate. -/
def asksToStop (stop : StopPredicate σ) : Action (Exchange σ) Bool :=
  match stop with
  | none => return false
  | some ask => Exchange.onState (ExceptT.lift ask)

/-- Handles a message and writes the reply, if it asks for one: does it? -/
def respond (d : Dispatcher σ) (message : Json) : Action (Exchange σ) Bool := do
  match ← Exchange.onState (d.handle message) with
  | some reply => do
      Exchange.write reply.toJson
      return true
  | none => return false

/-- Handles a message and asks whether to stop: does the loop end, and why? -/
def serve (d : Dispatcher σ) (stop : StopPredicate σ) (message : Json) :
    Action (Exchange σ) (Option Ending) := do
  let _ ← d.respond message
  return if ← asksToStop stop then some .stopped else none

/-- Deals with what has been received: does the loop end, and why? -/
def deal (d : Dispatcher σ) (stop : StopPredicate σ) (received : Received) :
    Action (Exchange σ) (Option Ending) :=
  match received with
  | .value v => if v.isNull then return some .finished else d.serve stop v
  | .undecodable e => do
      Exchange.onState (d.log (Text.ofString "Undecodable message: " ++ e.message))
      Exchange.write (Reply.toJson ⟨.null, .error e⟩)
      return none
  | .failed f => return some (.failed f)
  | .finished => return some .finished
  | .interrupted => return some .interrupted

/-- One turn of the loop, given what has been received: the reason to end, if there is one, and
what the turn leaves. -/
def turn (d : Dispatcher σ) (stop : StopPredicate σ) (receipt : Receipt) (x : Exchange σ) :
    Option Ending × Exchange σ :=
  let action : Action (Exchange σ) (Option Ending) := do
    d.report receipt.diagnostics
    d.deal stop receipt.received
  match action.perform x with
  | (.ok ending, x) => (ending, x)
  | (.error f, x) => (some (.failed f), x)

/-- Runs the loop on a stream to its end: why it ended, and what it leaves. -/
def run (d : Dispatcher σ) (stop : StopPredicate σ) (r : Reader) (x : Exchange σ) :
    Ending × Reader × Exchange σ :=
  match d.turn stop r.receive x with
  | (some ending, x) => (ending, r.receive.reader, x)
  | (none, x) =>
      if _frame : r.receive.received.isFrame = true then run d stop r.receive.reader x
      else (.finished, r.receive.reader, x)
termination_by r.source.unread.length
decreasing_by exact Reader.length_receive_unread_lt _frame

end Dispatcher

end JustfileServer
