import JustfileServer.Proofs.Rpc.Conversation
import JustfileServer.Proofs.Rpc.Preservation

/-!
# What is handled in a conversation

A conversation handles messages one after another (`handledIn`).  Whatever the journal does not
touch and the stop predicate leaves alone can be followed along them: what holds at the beginning,
for the messages before, and is carried on by every single message, holds in the end for all of them
(`Conversation.tracks`).
-/

namespace JustfileServer

/-- The messages that are handled in events, from first to last. -/
def handledIn (events : List Event) : List Json :=
  events.filterMap fun
    | .handled v => some v
    | _ => none

@[simp] theorem handledIn_append (events later : List Event) :
    handledIn (events ++ later) = handledIn events ++ handledIn later := List.filterMap_append

namespace Dispatcher

variable {σ : Type} {d : Dispatcher σ} {stop : StopPredicate σ} {s s' : σ}

/-- Writing a reply and asking the stop predicate handles no further message. -/
theorem handledIn_handled {v : Json} {reply : Option Reply} {sent answers : List Event}
    {ending : Option Ending} (delivered : Delivered reply sent)
    (asked : askedToStop stop s = (answers, ending, s')) :
    handledIn (.handled v :: (sent ++ answers)) = [v] := by
  have quiet : handledIn sent = [] := by cases delivered <;> rfl
  have silent : handledIn answers = [] := by
    cases stop <;> cases asked <;> rfl
  show v :: handledIn (sent ++ answers) = [v]
  rw [handledIn_append, quiet, silent, List.append_nil]

/-- Entering diagnostics preserves what every line does. -/
theorem preserves_enter {P : σ → Prop} (log : ∀ line, (d.log line).Preserves P)
    (diagnostics : List Diagnostic) : (d.enter diagnostics).Preserves P := by
  induction diagnostics with
  | nil => exact .pure _
  | cons g diagnostics ih => exact .bind (log g.message) fun _ => ih

/-- A property of a state and of the messages handled so far that every further message, the
journal and the stop predicate carry on. -/
structure Tracks (d : Dispatcher σ) (stop : StopPredicate σ) (I : List Json → σ → Prop) : Prop where
  log : ∀ messages line, (d.log line).Preserves (I messages)
  handle : ∀ messages v s, I messages s → I (messages ++ [v]) ((d.handle v).perform s).2
  ask : ∀ messages ask s, stop = some ask → I messages s → I messages (ask.run s).2

namespace Tracks

variable {I : List Json → σ → Prop} (tracks : Tracks d stop I) {messages : List Json}
include tracks

theorem askedToStop {answers : List Event} {ending : Option Ending}
    (asked : Dispatcher.askedToStop stop s = (answers, ending, s')) (h : I messages s) :
    I messages s' := by
  cases stop with
  | none =>
      cases asked
      exact h
  | some ask =>
      cases asked
      exact tracks.ask _ ask s rfl h

theorem turn {received : Received} {events : List Event} {ending : Option Ending}
    (h : Turn d stop received s events ending s') (now : I messages s) :
    I (messages ++ handledIn events) s' := by
  have same {events : List Event} {s : σ} (none : handledIn events = []) (h : I messages s) :
      I (messages ++ handledIn events) s := by rwa [none, List.append_nil]
  have logged {e : RpcError} {result : Except Fault Unit} {s' : σ}
      (entered : (d.enterUndecodable e).perform s = (result, s')) : I messages s' := by
    have held := tracks.log messages (Text.ofString "Undecodable message: " ++ e.message) s now
    rwa [show (d.log _).perform s = (result, s') from entered] at held
  have handled {v : Json} {result : Except Fault (Option Reply)} {s' : σ}
      (done : (d.handle v).perform s = (result, s')) : I (messages ++ [v]) s' := by
    have held := tracks.handle messages v s now
    rwa [done] at held
  cases h with
  | finished => exact same rfl now
  | interrupted => exact same rfl now
  | null => exact same rfl now
  | failed => exact same rfl now
  | refused entered _ => exact same rfl (logged entered)
  | unentered entered => exact same rfl (logged entered)
  | handled _ done delivered asked =>
      rw [handledIn_handled delivered asked]
      exact tracks.askedToStop asked (handled done)
  | undeliverable _ done _ => exact handled done
  | unhandled _ done => exact handled done

/-- **What is tracked holds in the end**, for the messages before and those of the conversation. -/
theorem conversation (messages : List Json) {interrupts : Bool} {input left : Bytes}
    {events : List Event} {ending : Ending}
    (h : Conversation d stop interrupts input s events ending left s')
    (now : I messages s) : I (messages ++ handledIn events) s' := by
  have entering {diagnostics : List Diagnostic} {messages : List Json} {result : Except Fault Unit}
      {s s' : σ} (entered : (d.enter diagnostics).perform s = (result, s')) (now : I messages s) :
      I messages s' := by
    have held := preserves_enter (tracks.log _) diagnostics s now
    rwa [entered] at held
  induction h generalizing messages with
  | unreported _ entered =>
      rw [show handledIn [] = [] from rfl, List.append_nil]
      exact entering entered now
  | last _ entered turn => exact tracks.turn turn (entering entered now)
  | more _ entered turn _ ih =>
      rw [handledIn_append, ← List.append_assoc]
      exact ih _ (tracks.turn turn (entering entered now))

end Tracks

/-- What every message, the journal and the stop predicate preserve is preserved by a run. -/
theorem Conversation.preserves {P : σ → Prop} {interrupts : Bool} {input left : Bytes}
    {events : List Event} {ending : Ending}
    (h : Conversation d stop interrupts input s events ending left s')
    (log : ∀ line, (d.log line).Preserves P) (handle : ∀ v, (d.handle v).Preserves P)
    (ask : ∀ ask s, stop = some ask → P s → P (ask.run s).2) (now : P s) : P s' := by
  have tracks : Tracks d stop fun _ => P :=
    ⟨fun _ => log, fun _ v s h => handle v s h, fun _ => ask⟩
  exact tracks.conversation [] h now

end Dispatcher

end JustfileServer
