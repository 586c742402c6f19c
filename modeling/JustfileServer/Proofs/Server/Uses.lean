import JustfileServer.Proofs.Rpc.Refinement
import JustfileServer.Proofs.Rpc.Tracking
import JustfileServer.Proofs.Server.Handled

/-!
# A server in use

A server can be given single messages, and it can run on streams, in any order (`Use`).  A run enters
a line, has a conversation, enters why it ended, and moves on to the last stage; none of this can
fail, since a fault that ends the conversation is always one of the program's own, which can be
entered (`isForeign_of_conversation`).

So a property of a new server that does not depend on the journal, and that messages and the last
stage preserve, is one of every server in use (`holds_of_used`).
-/

namespace JustfileServer

/-- Something that is done with a server. -/
inductive Use
  /-- A message is handled. -/
  | message (v : Json)
  /-- The server runs on a stream. -/
  | stream (r : Reader)

namespace Server

/-- The server after a use. -/
def use (s : Server) : Use → Server
  | .message v => ((dispatcher.handle v).perform s).2
  | .stream r => (run r ⟨s, []⟩).2.2.state

/-- A new server after uses, one after another. -/
def used (keepsFile : Bool) (uses : List Use) : Server := uses.foldl use (.initial keepsFile)

theorem used_concat (keepsFile : Bool) (uses : List Use) (u : Use) :
    used keepsFile (uses ++ [u]) = (used keepsFile uses).use u := List.foldl_concat ..

/-! ## Faults that end a conversation -/

variable {s s' : Server} {f : Fault}

theorem isForeign_of_log {line : Text} (h : (log line).perform s = (.error f, s')) :
    f.isForeign = false := by
  obtain ⟨result, journal, performed, own, -⟩ := perform_log line s
  rw [performed] at h
  exact own f (congrArg Prod.fst h)

theorem isForeign_of_enter {diagnostics : List Diagnostic}
    (h : (dispatcher.enter diagnostics).perform s = (.error f, s')) : f.isForeign = false := by
  induction diagnostics generalizing s with
  | nil => cases h
  | cons g diagnostics ih =>
      have h : (log g.message >>= fun _ => dispatcher.enter diagnostics).perform s
          = (.error f, s') := h
      rw [Action.perform_bind] at h
      rcases entered : (log g.message).perform s with ⟨_ | _, s₁⟩ <;> rw [entered] at h
      · cases h
        exact isForeign_of_log entered
      · exact ih h

theorem isForeign_of_send {v : Json} (h : Frame.send v = .error f) : f.isForeign = false := by
  unfold Frame.send at h
  split at h
  · cases h
    rfl
  · split at h <;> cases h
    rfl

theorem isForeign_of_takes {interrupts : Bool} {input left : Bytes}
    {diagnostics : List Diagnostic}
    (h : Reader.Takes interrupts input diagnostics (.failed f) left) : f.isForeign = false := by
  generalize about : Received.failed f = received at h
  cases h with
  | frame whole _ =>
      unfold decodeBody at about
      split at about
      · cases about
      · split at about <;> cases about
        rfl
  | cutShort => cases about
  | unusable => split at about <;> cases about

theorem isForeign_of_turn {received : Received} {events : List Event}
    (own : ∀ g, received = .failed g → g.isForeign = false)
    (h : Dispatcher.Turn dispatcher stopPredicate received s events (some (.failed f)) s') :
    f.isForeign = false := by
  generalize ends : some (Ending.failed f) = ending at h
  cases h with
  | failed =>
      cases ends
      exact own f rfl
  | unentered entered =>
      cases ends
      exact isForeign_of_log entered
  | undeliverable _ _ refused =>
      cases ends
      exact isForeign_of_send refused
  | @unhandled s _ v _ _ failed =>
      obtain ⟨reply, s₁, handled⟩ := exists_handled s v
      rw [handled] at failed
      cases failed
  | handled _ _ _ asked =>
      rcases Dispatcher.askedToStop_cases asked with ⟨-, -, none⟩ | ⟨b, -, -, stopped⟩
      · rw [none] at ends
        cases ends
      · rw [stopped] at ends
        cases b <;> cases ends
  | _ => cases ends

/-- **A fault that ends a conversation is the program's own.** -/
theorem isForeign_of_conversation {interrupts : Bool} {input left : Bytes} {events : List Event}
    (h : Dispatcher.Conversation dispatcher stopPredicate interrupts input s events (.failed f) left
      s') : f.isForeign = false := by
  generalize ends : Ending.failed f = ending at h
  induction h with
  | unreported _ entered =>
      cases ends
      exact isForeign_of_enter entered
  | last takes _ turn =>
      subst ends
      exact isForeign_of_turn (fun g about => isForeign_of_takes (about ▸ takes)) turn
  | more _ _ _ _ ih => exact ih ends

/-! ## Runs -/

/-- What is entered when a loop has ended. -/
def entersEnding : Ending → Action Server Unit
  | .interrupted => log "Interrupted"
  | .failed f => log (Text.ofString "Server error: " ++ f.message)
  | .finished | .stopped => pure ()

theorem perform_entersEnding {ending : Ending}
    (own : ∀ f, ending = .failed f → f.isForeign = false) (s : Server) :
    ∃ s', (entersEnding ending).perform s = (.ok (), s') ∧ Noted s s' := by
  cases ending with
  | interrupted => exact perform_log_noted (Text.hasSurrogate_ofString _) s
  | failed f =>
      exact perform_log_noted (by simp [Fault.hasSurrogate_message (own f rfl)]) s
  | _ => exact ⟨s, rfl, .refl s⟩

theorem closing_eq (ending : Ending) : closing ending
    = (do entersEnding ending; advance .terminated; log "Server stopped") := by
  cases ending <;> rfl

/-- **The end of a run**: the server is at the last stage, and apart from that only the journal has
changed. -/
theorem perform_closing {ending : Ending} (own : ∀ f, ending = .failed f → f.isForeign = false)
    (s : Server) : ∃ s', (closing ending).perform s = (.ok (), s') ∧
      Noted { s with stage := .terminated } s' := by
  obtain ⟨s₁, entered, j₁, rfl, same₁⟩ := perform_entersEnding own s
  obtain ⟨s₂, advanced, noted₂⟩ := perform_advance .terminated ({ s with journal := j₁ } : Server)
  rw [Stage.later_terminated] at noted₂
  obtain ⟨s₃, logged, noted₃⟩ :=
    perform_log_noted (Text.hasSurrogate_ofString "Server stopped") s₂
  rw [closing_eq, Action.perform_bind_ok entered, Action.perform_bind_ok advanced]
  exact ⟨s₃, logged, .trans ⟨j₁, rfl, same₁⟩ (.trans noted₂ noted₃)⟩

/-- The run of a server on a stream, up to what is done when the loop has ended. -/
def ranOn (s : Server) (r : Reader) : Ending × Reader × Exchange Server :=
  dispatcher.run stopPredicate r (after opening ⟨s, []⟩)

theorem use_stream (s : Server) (r : Reader) : s.use (.stream r)
    = ((closing (s.ranOn r).1).perform (s.ranOn r).2.2.state).2 := rfl

/-- **A run of a server**: it enters a line, has a conversation, and is at the last stage then. -/
theorem exists_ranOn (s : Server) (r : Reader) :
    ∃ s₁ events, Noted s s₁ ∧ (opening.perform s).2 = s₁ ∧
      Dispatcher.Conversation dispatcher stopPredicate r.source.interrupts r.source.unread s₁ events
        (s.ranOn r).1 (s.ranOn r).2.1.source.unread (s.ranOn r).2.2.state ∧
      Noted { (s.ranOn r).2.2.state with stage := .terminated } (s.use (.stream r)) := by
  obtain ⟨s₁, opened, noted⟩ :=
    perform_log_noted (Text.hasSurrogate_ofString "Just Language Server starting") s
  have state : (opening.perform s).2 = s₁ := congrArg Prod.snd opened
  obtain ⟨events, conversation, -⟩ :=
    dispatcher.exists_conversation stopPredicate r (after opening ⟨s, []⟩)
  rw [show (after opening ⟨s, []⟩).state = s₁ from state, ← ranOn] at conversation
  have own : ∀ f, (s.ranOn r).1 = .failed f → f.isForeign = false := by
    intro f failed
    rw [failed] at conversation
    exact isForeign_of_conversation conversation
  obtain ⟨s₂, closed, last⟩ := perform_closing own (s.ranOn r).2.2.state
  rw [use_stream, closed]
  exact ⟨s₁, events, noted, state, conversation, last⟩

/-- The messages that a new server has handled in its uses, from first to last. -/
inductive HandledBy (keepsFile : Bool) : List Use → List Json → Prop
  | new : HandledBy keepsFile [] []
  | message {uses : List Use} {messages : List Json} (v : Json) :
      HandledBy keepsFile uses messages →
      HandledBy keepsFile (uses ++ [.message v]) (messages ++ [v])
  /-- On a stream the messages of the conversation are handled. -/
  | stream {uses : List Use} {messages : List Json} (r : Reader) {events : List Event} :
      HandledBy keepsFile uses messages →
      Dispatcher.Conversation dispatcher stopPredicate r.source.interrupts r.source.unread
        (opening.perform (used keepsFile uses)).2 events ((used keepsFile uses).ranOn r).1
        ((used keepsFile uses).ranOn r).2.1.source.unread
        ((used keepsFile uses).ranOn r).2.2.state →
      HandledBy keepsFile (uses ++ [.stream r]) (messages ++ handledIn events)

theorem exists_handledBy (keepsFile : Bool) (uses : List Use) :
    ∃ messages, HandledBy keepsFile uses messages := by
  induction uses using List.reverseRecOn with
  | nil => exact ⟨[], .new⟩
  | append_singleton uses u ih =>
      obtain ⟨messages, handled⟩ := ih
      cases u with
      | message v => exact ⟨_, .message v handled⟩
      | stream r =>
          obtain ⟨_, events, -, rfl, conversation, -⟩ := exists_ranOn (used keepsFile uses) r
          exact ⟨_, .stream r handled conversation⟩

/-! ## What holds of a server in use -/

theorem holds_of_use {P : Server → Prop} (quiet : IsQuiet P)
    (handle : ∀ v, (dispatcher.handle v).Preserves P)
    (last : ∀ s, P s → P { s with stage := .terminated }) (u : Use) (h : P s) : P (s.use u) := by
  cases u with
  | message v => exact handle v s h
  | stream r =>
      obtain ⟨s₁, events, opened, -, conversation, closed⟩ := exists_ranOn s r
      have now := conversation.preserves quiet.log handle
        (by rintro ask s ⟨⟩ h; exact h) (opened.keeps quiet h)
      exact closed.keeps quiet (last _ now)

/-- **What holds of a new server and is preserved holds of every server in use.** -/
theorem holds_of_used {P : Server → Prop} (keepsFile : Bool) (quiet : IsQuiet P)
    (handle : ∀ v, (dispatcher.handle v).Preserves P)
    (last : ∀ s, P s → P { s with stage := .terminated }) (h : P (.initial keepsFile))
    (uses : List Use) : P (used keepsFile uses) := by
  induction uses using List.reverseRecOn with
  | nil => exact h
  | append_singleton uses u ih =>
      rw [used_concat]
      exact holds_of_use quiet handle last u ih

end Server

end JustfileServer
