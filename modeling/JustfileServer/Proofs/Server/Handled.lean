import JustfileServer.Proofs.Rpc.Dispatching
import JustfileServer.Proofs.Server.Answers
import JustfileServer.Proofs.Server.Steadiness

/-!
# What handling a message comes to

The server knows no method whose name has a surrogate in it, and a fault is described without one, so
the line about the fault of a handler is always entered.  Hence every message is handled without a
fault, in any state (`exists_handled`): it leaves the state that its handler left, but for that line.
-/

namespace JustfileServer

namespace Stage

/-- The later one of two stages. -/
def later (a b : Stage) : Stage := if a.rank < b.rank then b else a

@[simp] theorem later_terminated (a : Stage) : a.later .terminated = .terminated := by
  cases a <;> rfl

theorem rank_le_later (a b : Stage) : a.rank ≤ (a.later b).rank := by
  unfold later
  split <;> omega

end Stage

namespace Server

open Dispatcher (handlerFor settled unserved)

variable {s : Server} {v : Json}

/-- Only the journal differs, and not in whether there is a file. -/
def Noted (s s' : Server) : Prop :=
  ∃ journal, s' = { s with journal := journal } ∧ journal.keepsFile = s.journal.keepsFile

namespace Noted

theorem refl (s : Server) : Noted s s := ⟨s.journal, rfl, rfl⟩

theorem trans {s₁ s₂ s₃ : Server} : Noted s₁ s₂ → Noted s₂ s₃ → Noted s₁ s₃ := by
  rintro ⟨j, rfl, h⟩ ⟨j', rfl, h'⟩
  exact ⟨j', rfl, h'.trans h⟩

/-- What does not depend on the lines of the journal still holds. -/
theorem keeps {P : Server → Prop} {s s' : Server} (quiet : IsQuiet P) :
    Noted s s' → P s → P s' := by
  rintro ⟨j, rfl, same⟩ h
  exact quiet s j same h

theorem isQuiet (s : Server) : IsQuiet (Noted s) := by
  rintro _ j same ⟨j', rfl, h⟩
  exact ⟨j, rfl, same.trans h⟩

end Noted

/-- A line is entered unless the file cannot take it. -/
theorem perform_log_fitting {line : Text}
    (fits : s.journal.keepsFile = true → line.hasSurrogate = false) :
    ∃ s', (log line).perform s = (.ok (), s') ∧ Noted s s' := by
  have taken : ((log line).perform s).1 = .ok () := by
    show ((Journal.enter line).perform s.journal).1 = .ok ()
    rw [Journal.perform_enter]
    split
    · rename_i file
      have scalar : (line ++ Text.ofString "\n").hasSurrogate = false := by simp [fits file]
      rw [Utf8.encodeStrict_eq_ok (Text.hasSurrogate_eq_false_iff.1 scalar)]
    · rfl
  exact ⟨_, Prod.ext taken rfl, (Noted.isQuiet s).log line s (.refl s)⟩

/-- A line without a surrogate is entered. -/
theorem perform_log_noted {line : Text} (scalar : line.hasSurrogate = false) (s : Server) :
    ∃ s', (log line).perform s = (.ok (), s') ∧ Noted s s' :=
  perform_log_fitting fun _ => scalar

/-- Moving on to a stage cannot fail. -/
theorem perform_advance (stage : Stage) (s : Server) :
    ∃ s', (advance stage).perform s = (.ok (), s') ∧
      Noted { s with stage := s.stage.later stage } s' := by
  have present : (get : Action Server Server).perform s = (.ok s, s) := rfl
  rw [advance, Action.perform_bind_ok present, Stage.later]
  dsimp only
  split
  · have line : Text.hasSurrogate (Text.ofString "State " ++ s.stage.label ++ Text.ofString " -> "
        ++ stage.label) = false := by
      have label (stage : Stage) : stage.label.hasSurrogate = false := by cases stage <;> decide
      simp [label]
    obtain ⟨_, logged, journal, rfl, same⟩ := perform_log_noted line s
    rw [Action.perform_bind_ok logged]
    exact ⟨_, rfl, journal, rfl, same⟩
  · exact ⟨s, rfl, .refl s⟩

/-- A notification leaves what its handler left. -/
theorem perform_handle_notification {h : NotificationHandler Server}
    (given : handlerFor dispatcher v = some (.inr h)) (s : Server) :
    ∃ s', (dispatcher.handle v).perform s = (.ok none, s') ∧
      Noted ((h (Message.params v)).perform s).2 s' := by
  obtain ⟨method, named, null, found⟩ := Dispatcher.handlerFor_eq_inr_iff.1 given
  obtain ⟨scalar, -⟩ := lookup_notifications found
  have notified : ∃ s', (dispatcher.notify method (Message.params v)).perform s = (.ok (), s') ∧
      Noted ((h (Message.params v)).perform s).2 s' := by
    unfold Dispatcher.notify
    rw [found]
    dsimp only
    rw [Action.perform_tryCatch]
    rcases (h (Message.params v)).perform s with ⟨f | _, s₁⟩
    · exact perform_log_noted (by simp [scalar, f.hasSurrogate_describe]) s₁
    · exact ⟨s₁, rfl, .refl s₁⟩
  obtain ⟨s', notified, noted⟩ := notified
  rw [Dispatcher.handle_of_notification named null, Action.perform_bind_ok notified]
  exact ⟨s', rfl, noted⟩

/-- A request leaves what its handler left, and is answered with what it did. -/
theorem perform_handle_request {h : RequestHandler Server}
    (given : handlerFor dispatcher v = some (.inl h)) (s : Server) :
    ∃ s', (dispatcher.handle v).perform s
        = (.ok (some ⟨Message.id v, settled ((h (Message.params v)).perform s).1⟩), s') ∧
      Noted ((h (Message.params v)).perform s).2 s' := by
  obtain ⟨method, named, notNull, found⟩ := Dispatcher.handlerFor_eq_inl_iff.1 given
  obtain ⟨scalar, -⟩ := lookup_requests found
  have answered : ∃ s', (dispatcher.answer (Message.id v) method (Message.params v)).perform s
        = (.ok ⟨Message.id v, settled ((h (Message.params v)).perform s).1⟩, s') ∧
      Noted ((h (Message.params v)).perform s).2 s' := by
    unfold Dispatcher.answer
    rw [found]
    dsimp only
    rw [Action.perform_tryCatch, Action.perform_bind]
    rcases (h (Message.params v)).perform s with ⟨f | outcome, s₁⟩
    · have line : Text.hasSurrogate (Text.ofString "Request " ++ method
          ++ Text.ofString " failed: " ++ f.describe) = false := by
        simp [scalar, f.hasSurrogate_describe]
      obtain ⟨s', logged, noted⟩ := perform_log_noted line s₁
      cases f with
      | remote e => exact ⟨s₁, rfl, .refl s₁⟩
      | _ => exact ⟨s', Action.perform_bind_ok logged _, noted⟩
    · cases outcome <;> exact ⟨s₁, rfl, .refl s₁⟩
  obtain ⟨s', answered, noted⟩ := answered
  rw [Dispatcher.handle_of_request named notNull, Action.perform_bind_ok answered]
  exact ⟨s', rfl, noted⟩

/-- **Every message is handled without a fault**, whatever it is and in any state. -/
theorem exists_handled (s : Server) (v : Json) :
    ∃ reply s', (dispatcher.handle v).perform s = (.ok reply, s') := by
  cases given : handlerFor dispatcher v with
  | none => exact ⟨_, s, by rw [Dispatcher.handle_of_nobody given]; rfl⟩
  | some handler =>
      cases handler with
      | inl h =>
          obtain ⟨s', handled, -⟩ := perform_handle_request given s
          exact ⟨_, s', handled⟩
      | inr h =>
          obtain ⟨s', handled, -⟩ := perform_handle_notification given s
          exact ⟨_, s', handled⟩

end Server

end JustfileServer
