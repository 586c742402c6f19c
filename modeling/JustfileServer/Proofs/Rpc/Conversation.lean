import JustfileServer.Proofs.Frame.Receiving
import JustfileServer.Proofs.Rpc.Actions
import JustfileServer.Proofs.Rpc.Replies

/-!
# The main loop, message by message

`Conversation` tells what the main loop does without a reader, a buffer or an output: frame by
frame, with what happens on the way as a list of events.  Each frame is a `Turn`, and a turn either
goes on to the bytes behind the frame or ends the conversation.

The loop does just that (`exists_conversation`): it has a conversation, and what it has written in
the end are the frames that were sent in it, in order.
-/

namespace JustfileServer

/-- Something that happens in a conversation. -/
inductive Event
  /-- A body was undecodable. -/
  | refused (e : RpcError)
  /-- A message was handled. -/
  | handled (message : Json)
  /-- A whole frame was written. -/
  | sent (frame : Bytes)
  /-- The stop predicate was asked and gave this answer. -/
  | asked (answer : Bool)

namespace Event

/-- The bytes that an event writes. -/
def written : Event → Bytes
  | .sent frame => frame
  | _ => []

end Event

namespace Dispatcher

variable {σ : Type}

/-! ## Turns -/

/-- What the stop predicate gives for a state: the events, the reason to end, and the state. -/
def askedToStop (stop : StopPredicate σ) (s : σ) : List Event × Option Ending × σ :=
  match stop with
  | none => ([], none, s)
  | some ask =>
      let (answer, s) := ask.run s
      ([.asked answer], if answer then some .stopped else none, s)

/-- The reply, if there is one, is sent with these events. -/
inductive Delivered : Option Reply → List Event → Prop
  | silent : Delivered none []
  | sent {reply : Reply} {frame : Bytes} : Frame.send reply.toJson = .ok frame →
      Delivered (some reply) [.sent frame]

/-- Enters diagnostics in the journal. -/
def enter (d : Dispatcher σ) (diagnostics : List Diagnostic) : Action σ Unit :=
  diagnostics.forM fun g => d.log g.message

/-- Enters an undecodable body in the journal. -/
def enterUndecodable (d : Dispatcher σ) (e : RpcError) : Action σ Unit :=
  d.log (Text.ofString "Undecodable message: " ++ e.message)

/-- What is done about something that was received: the events, and the reason to end, if any. -/
inductive Turn (d : Dispatcher σ) (stop : StopPredicate σ) :
    Received → σ → List Event → Option Ending → σ → Prop
  /-- There is no further frame. -/
  | finished {s : σ} : Turn d stop .finished s [] (some .finished) s
  | interrupted {s : σ} : Turn d stop .interrupted s [] (some .interrupted) s
  /-- A null value counts as the end. -/
  | null {s : σ} : Turn d stop (.value .null) s [] (some .finished) s
  /-- The body could not be turned into a value. -/
  | failed {s : σ} {f : Fault} : Turn d stop (.failed f) s [] (some (.failed f)) s
  /-- An undecodable body is answered with an error, and the stop predicate is not asked. -/
  | refused {s s' : σ} {e : RpcError} {frame : Bytes} :
      (d.enterUndecodable e).perform s = (.ok (), s') → Frame.send (refusal e) = .ok frame →
      Turn d stop (.undecodable e) s [.refused e, .sent frame] none s'
  | unentered {s s' : σ} {e : RpcError} {f : Fault} :
      (d.enterUndecodable e).perform s = (.error f, s') →
      Turn d stop (.undecodable e) s [.refused e] (some (.failed f)) s'
  /-- A message is handled, its reply is sent, and then the stop predicate is asked. -/
  | handled {s s₁ s₂ : σ} {v : Json} {reply : Option Reply} {sent answers : List Event}
      {ending : Option Ending} : v.isNull = false →
      (d.handle v).perform s = (.ok reply, s₁) → Delivered reply sent →
      askedToStop stop s₁ = (answers, ending, s₂) →
      Turn d stop (.value v) s (.handled v :: (sent ++ answers)) ending s₂
  /-- A reply that cannot be sent ends the conversation, and nothing of it is written. -/
  | undeliverable {s s' : σ} {v : Json} {reply : Reply} {f : Fault} : v.isNull = false →
      (d.handle v).perform s = (.ok (some reply), s') → Frame.send reply.toJson = .error f →
      Turn d stop (.value v) s [.handled v] (some (.failed f)) s'
  | unhandled {s s' : σ} {v : Json} {f : Fault} : v.isNull = false →
      (d.handle v).perform s = (.error f, s') →
      Turn d stop (.value v) s [.handled v] (some (.failed f)) s'

/-- A conversation over the bytes of a stream: what happens, why it ends, and which bytes are left
then. -/
inductive Conversation (d : Dispatcher σ) (stop : StopPredicate σ) (interrupts : Bool) :
    Bytes → σ → List Event → Ending → Bytes → σ → Prop
  /-- What there is to report about a frame cannot be entered. -/
  | unreported {input left : Bytes} {s s' : σ} {diagnostics : List Diagnostic}
      {received : Received} {f : Fault} : Reader.Takes interrupts input diagnostics received left →
      (d.enter diagnostics).perform s = (.error f, s') →
      Conversation d stop interrupts input s [] (.failed f) left s'
  /-- The last turn. -/
  | last {input left : Bytes} {s s₁ s₂ : σ} {diagnostics : List Diagnostic} {received : Received}
      {events : List Event} {ending : Ending} :
      Reader.Takes interrupts input diagnostics received left →
      (d.enter diagnostics).perform s = (.ok (), s₁) →
      Turn d stop received s₁ events (some ending) s₂ →
      Conversation d stop interrupts input s events ending left s₂
  /-- A turn after which there are others. -/
  | more {input rest left : Bytes} {s s₁ s₂ s' : σ} {diagnostics : List Diagnostic}
      {received : Received} {events later : List Event} {ending : Ending} :
      Reader.Takes interrupts input diagnostics received rest →
      (d.enter diagnostics).perform s = (.ok (), s₁) →
      Turn d stop received s₁ events none s₂ →
      Conversation d stop interrupts rest s₂ later ending left s' →
      Conversation d stop interrupts input s (events ++ later) ending left s'

/-! ## The loop takes turns -/

/-- A fault that nothing caught ends the loop. -/
def conclude {α : Type} : Except Fault (Option Ending) × α → Option Ending × α
  | (.ok ending, x) => (ending, x)
  | (.error f, x) => (some (.failed f), x)

variable (d : Dispatcher σ) (stop : StopPredicate σ)

theorem perform_report (diagnostics : List Diagnostic) (x : Exchange σ) :
    (d.report diagnostics).perform x
      = (((d.enter diagnostics).perform x.state).1,
          ⟨((d.enter diagnostics).perform x.state).2, x.output⟩) := by
  induction diagnostics generalizing x with
  | nil => rfl
  | cons g diagnostics ih =>
      show (Exchange.onState (d.log g.message) >>= fun _ => d.report diagnostics).perform x
        = (((d.log g.message >>= fun _ => d.enter diagnostics).perform x.state).1,
            ⟨((d.log g.message >>= fun _ => d.enter diagnostics).perform x.state).2, x.output⟩)
      rw [Action.perform_bind, Action.perform_bind, Exchange.perform_onState]
      rcases (d.log g.message).perform x.state with ⟨_ | _, s⟩
      · rfl
      · exact ih ⟨s, x.output⟩

/-- Handling a message and writing its reply: of a reply that cannot be sent nothing is written. -/
theorem perform_respond (v : Json) (x : Exchange σ) :
    (d.respond v).perform x = match (d.handle v).perform x.state with
      | (.error f, s) => (.error f, ⟨s, x.output⟩)
      | (.ok none, s) => (.ok false, ⟨s, x.output⟩)
      | (.ok (some reply), s) =>
          match Frame.send reply.toJson with
          | .ok frame => (.ok true, ⟨s, x.output ++ frame⟩)
          | .error f => (.error f, ⟨s, x.output⟩) := by
  rw [respond, Action.perform_bind, Exchange.perform_onState]
  rcases (d.handle v).perform x.state with ⟨f | reply, s⟩
  · rfl
  cases reply with
  | none => rfl
  | some reply =>
      dsimp only
      cases h : Frame.send reply.toJson with
      | ok frame => rw [Action.perform_bind_ok (Exchange.perform_write_ok h _)]; rfl
      | error f => rw [Action.perform_bind_error (Exchange.perform_write_error h _)]

/-- Serving a message: when the reply has been written, the stop predicate is asked. -/
theorem conclude_serve (v : Json) (x : Exchange σ) :
    conclude ((d.serve stop v).perform x) = match (d.respond v).perform x with
      | (.error f, x) => (some (.failed f), x)
      | (.ok _, x) =>
          ((askedToStop stop x.state).2.1, ⟨(askedToStop stop x.state).2.2, x.output⟩) := by
  rw [serve, Action.perform_bind]
  rcases (d.respond v).perform x with ⟨_ | _, x⟩
  · rfl
  · cases stop <;> rfl

theorem written_askedToStop (s : σ) : (askedToStop stop s).1.flatMap Event.written = [] := by
  cases stop <;> rfl

/-- Dealing with something that was received is a turn. -/
theorem deal_turn {received : Received}
    (answerable : ∀ e, received = .undecodable e → ∃ frame, Frame.send (refusal e) = .ok frame)
    (x : Exchange σ) :
    ∃ events ending s, Turn d stop received x.state events ending s ∧
      conclude ((d.deal stop received).perform x)
        = (ending, ⟨s, x.output ++ events.flatMap Event.written⟩) := by
  cases received with
  | value v =>
      rw [deal]
      split
      · rename_i null
        obtain rfl := Json.eq_null_of_isNull null
        exact ⟨_, _, _, .null, by simp [conclude]⟩
      · rename_i notNull
        rw [Bool.not_eq_true] at notNull
        rw [conclude_serve, perform_respond]
        rcases handled : (d.handle v).perform x.state with ⟨f | reply, s⟩
        · exact ⟨_, _, _, .unhandled notNull handled, by simp [Event.written]⟩
        obtain ⟨answers, ending, s', asked⟩ :
            ∃ answers ending s', askedToStop stop s = (answers, ending, s') := ⟨_, _, _, rfl⟩
        have silent : answers.flatMap Event.written = [] := by
          have written := written_askedToStop stop s
          rwa [asked] at written
        cases reply with
        | none =>
            refine ⟨_, _, _, .handled notNull handled .silent asked, ?_⟩
            dsimp only
            rw [asked, List.nil_append, List.flatMap_cons, silent]
            simp [Event.written]
        | some reply =>
            cases h : Frame.send reply.toJson with
            | ok frame =>
                refine ⟨_, _, _, .handled notNull handled (.sent h) asked, ?_⟩
                dsimp only
                rw [h]
                dsimp only
                rw [asked, List.flatMap_cons, List.flatMap_append, silent]
                simp [Event.written]
            | error f =>
                exact ⟨_, _, _, .undeliverable notNull handled h, by simp [Event.written, h]⟩
  | undecodable e =>
      obtain ⟨frame, hframe⟩ := answerable e rfl
      rcases entered : (d.enterUndecodable e).perform x.state with ⟨f | _, s⟩
      · refine ⟨_, _, _, .unentered entered, ?_⟩
        have failed : (Exchange.onState (d.enterUndecodable e)).perform x
            = (.error f, ⟨s, x.output⟩) := by rw [Exchange.perform_onState, entered]
        rw [deal, ← enterUndecodable, Action.perform_bind_error failed]
        simp [conclude, Event.written]
      · refine ⟨_, _, _, .refused entered hframe, ?_⟩
        have entered : (Exchange.onState (d.enterUndecodable e)).perform x
            = (.ok (), ⟨s, x.output⟩) := by rw [Exchange.perform_onState, entered]
        rw [deal, ← enterUndecodable, Action.perform_bind_ok entered, ← refusal,
          Action.perform_bind_ok (Exchange.perform_write_ok hframe _)]
        simp [conclude, Event.written]
  | failed f => exact ⟨_, _, _, .failed, by simp [deal, conclude]⟩
  | finished => exact ⟨_, _, _, .finished, by simp [deal, conclude]⟩
  | interrupted => exact ⟨_, _, _, .interrupted, by simp [deal, conclude]⟩

/-- A turn of the loop. -/
theorem turn_eq (receipt : Receipt) (x : Exchange σ) :
    d.turn stop receipt x = match (d.report receipt.diagnostics).perform x with
      | (.ok _, x) => conclude ((d.deal stop receipt.received).perform x)
      | (.error f, x) => (some (.failed f), x) := by
  have whole : d.turn stop receipt x = conclude
      ((d.report receipt.diagnostics >>= fun _ => d.deal stop receipt.received).perform x) := by
    unfold turn
    dsimp only
    rcases (d.report receipt.diagnostics >>= fun _ =>
      d.deal stop receipt.received).perform x with ⟨_ | _, x⟩ <;> rfl
  rw [whole, Action.perform_bind]
  rcases (d.report receipt.diagnostics).perform x with ⟨_ | _, x⟩ <;> rfl

/-- After a turn that goes on the loop is where it was, with a new reader. -/
theorem run_of_turn_none {d : Dispatcher σ} {stop : StopPredicate σ} {r : Reader} {f : WholeFrame}
    {rest : Bytes} {x y : Exchange σ}
    (whole : r.source.unread = f.bytes ++ rest) (turn : d.turn stop r.receive x = (none, y)) :
    d.run stop r x = d.run stop r.next y := by
  rw [run, turn]
  dsimp only
  rw [dif_pos (Reader.isFrame_receive whole)]
  rfl

/-- The last turn is the end of the loop. -/
theorem run_of_turn_some {d : Dispatcher σ} {stop : StopPredicate σ} {r : Reader}
    {x y : Exchange σ} {ending : Ending}
    (turn : d.turn stop r.receive x = (some ending, y)) :
    d.run stop r x = (ending, r.next, y) := by
  rw [run, turn]
  rfl

/-- A turn that goes on was about a whole frame. -/
theorem Turn.isFrame {d : Dispatcher σ} {stop : StopPredicate σ} {received : Received} {s s' : σ}
    {events : List Event} (h : Turn d stop received s events none s') :
    received.isFrame = true := by
  cases h <;> rfl

/-- What was received from a body that is undecodable can be answered. -/
theorem exists_send_refusal_of_takes {interrupts : Bool} {input left : Bytes}
    {diagnostics : List Diagnostic} {e : RpcError}
    (h : Reader.Takes interrupts input diagnostics (.undecodable e) left) :
    ∃ frame, Frame.send (refusal e) = .ok frame := by
  generalize hr : Received.undecodable e = received at h
  cases h with
  | frame f _ => exact exists_send_refusal hr.symm
  | cutShort => cases hr
  | unusable => split at hr <;> cases hr

/-- **The loop has a conversation**, and what it has written in the end are just the frames that
were sent in it. -/
theorem exists_conversation (r : Reader) (x : Exchange σ) :
    ∃ events, Conversation d stop r.source.interrupts r.source.unread x.state events
        (d.run stop r x).1 (d.run stop r x).2.1.source.unread (d.run stop r x).2.2.state ∧
      (d.run stop r x).2.2.output = x.output ++ events.flatMap Event.written := by
  induction size : r.source.unread.length using Nat.strongRecOn generalizing r x with
  | _ n ih =>
      have takes := Reader.takes_receive r
      have answerable : ∀ e, r.receive.received = .undecodable e →
          ∃ frame, Frame.send (refusal e) = .ok frame := fun e he =>
        exists_send_refusal_of_takes (he ▸ takes)
      rw [run, turn_eq, perform_report]
      rcases entered : (d.enter r.receive.diagnostics).perform x.state with ⟨f | _, s⟩
      · exact ⟨[], .unreported takes entered, by simp⟩
      obtain ⟨events, ending, s', turn, dealt⟩ := d.deal_turn stop answerable ⟨s, x.output⟩
      dsimp only at dealt turn ⊢
      rw [dealt]
      cases ending with
      | some ending => exact ⟨events, .last takes entered turn, rfl⟩
      | none =>
          have frame := turn.isFrame
          have shorter := Reader.length_receive_unread_lt frame
          obtain ⟨later, conversation, written⟩ := ih _ (by omega) r.receive.reader
            ⟨s', x.output ++ events.flatMap Event.written⟩ rfl
          rw [Reader.interrupts_receive] at conversation
          dsimp only
          rw [dif_pos frame]
          refine ⟨events ++ later, .more takes entered turn conversation, ?_⟩
          rw [written, List.flatMap_append, List.append_assoc]

end Dispatcher

end JustfileServer
