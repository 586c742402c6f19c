import JustfileServer.Proofs.Server.Lifecycle

/-!
# How a session closes

A session stops behind the first message that ends it, the request for a shutdown or the notification
of an exit, and handles nothing behind that (`Closes`); the exit code tells which of the two it was
(`Closes.exitCode_eq`).  `lifecycle` puts this together with what the life of a server tells.
-/

namespace JustfileServer.Server

open Message (IsRequest IsNotification EndsSession endsSession_iff)

variable {s s' : Server}

theorem isQuiet_goesOn : IsQuiet fun s => s.isShuttingDown = false :=
  isQuiet_life fun l => decide (Stage.shuttingDown.rank ≤ l.stage.rank) = false

/-- While the server is not shutting down, just the messages that end the session make it. -/
theorem isShuttingDown_handle (goesOn : s.isShuttingDown = false) (v : Json) :
    ((dispatcher.handle v).perform s).2.isShuttingDown = true ↔ EndsSession v := by
  have before : s.life.stage.rank < Stage.shuttingDown.rank := by
    simpa [isShuttingDown, life] using goesOn
  show decide (Stage.shuttingDown.rank ≤ ((dispatcher.handle v).perform s).2.life.stage.rank) = true
    ↔ _
  rw [life_handle, decide_eq_true_iff, endsSession_iff]
  unfold Life.past
  generalize s.life = l at before
  obtain ⟨stage, requested, code⟩ := l
  split_ifs with shutdown exit asked greets <;>
    cases stage <;> simp_all [Stage.later, Stage.rank]

/-- The messages in frames. -/
def messagesIn (frames : List WholeFrame) : List Json :=
  frames.flatMap fun f => (decodeBody f.body).message?.toList

/-- A turn while the server is not shutting down: it goes on, or it is about a message that ends the
session and stops, or it ends without a message, or it fails. -/
inductive ServingTurn (received : Received) (events : List Event) (s' : Server) :
    Option Ending → Prop
  | goesOn : s'.isShuttingDown = false → handledIn events = received.message?.toList →
      (∀ m ∈ handledIn events, ¬ EndsSession m) → ServingTurn received events s' none
  | stops {v : Json} : received = .value v → handledIn events = [v] → EndsSession v →
      ServingTurn received events s' (some .stopped)
  | ends {ending : Ending} : handledIn events = [] → ServingTurn received events s' (some ending)
  | fails (f : Fault) : ServingTurn received events s' (some (.failed f))

theorem servingTurn {received : Received} {events : List Event} {ending : Option Ending}
    (h : Dispatcher.Turn dispatcher stopPredicate received s events ending s')
    (goesOn : s.isShuttingDown = false) : ServingTurn received events s' ending := by
  cases h with
  | finished => exact .ends rfl
  | interrupted => exact .ends rfl
  | null => exact .ends rfl
  | failed => exact .ends rfl
  | @refused _ _ e _ entered _ =>
      have still := isQuiet_goesOn.log (Text.ofString "Undecodable message: " ++ e.message) s goesOn
      rw [show (log _).perform s = (.ok (), s') from entered] at still
      exact .goesOn still rfl nofun
  | unentered => exact .fails _
  | undeliverable => exact .fails _
  | unhandled => exact .fails _
  | @handled _ _ _ v _ _ _ _ notNull done delivered asked =>
      have ends := isShuttingDown_handle goesOn v
      have one := Dispatcher.handledIn_handled (v := v) delivered asked
      rw [done] at ends
      cases asked
      cases stage : s'.isShuttingDown with
      | true =>
          rw [stage] at one
          exact .stops rfl one (ends.1 stage)
      | false =>
          have other : ¬ EndsSession v := fun h => by rw [ends.2 h] at stage; cases stage
          rw [stage] at one
          refine .goesOn stage (one.trans ?_) (by rw [one]; simpa using other)
          simp [Received.message?, notNull]

/-- **What a conversation with a server that is not shutting down handles**, if it does not fail: no
message that ends the session, or one as the last, with just the bytes behind its frame left. -/
inductive Closes (input left : Bytes) : List Json → Prop
  | stopped {frames : List WholeFrame} {f : WholeFrame} {last : Json} :
      input = frames.flatMap WholeFrame.bytes ++ (f.bytes ++ left) →
      decodeBody f.body = .value last → EndsSession last →
      (∀ m ∈ messagesIn frames, ¬ EndsSession m) → Closes input left (messagesIn frames ++ [last])
  | ended {messages : List Json} : (∀ m ∈ messages, ¬ EndsSession m) → Closes input left messages

theorem Closes.cons {input left : Bytes} {messages : List Json} (f : WholeFrame)
    (other : ∀ m ∈ messagesIn [f], ¬ EndsSession m) (h : Closes input left messages) :
    Closes (f.bytes ++ input) left (messagesIn [f] ++ messages) := by
  have split (frames : List WholeFrame) :
      messagesIn (f :: frames) = messagesIn [f] ++ messagesIn frames := by
    simp [messagesIn]
  cases h with
  | @stopped frames g last whole decoded ends others =>
      rw [← List.append_assoc, ← split]
      refine .stopped (by rw [whole, List.flatMap_cons, List.append_assoc]) decoded ends ?_
      rw [split]
      exact fun m hm => (List.mem_append.1 hm).elim (other m) (others m)
  | ended others => exact .ended fun m hm => (List.mem_append.1 hm).elim (other m) (others m)

theorem closes_of_conversation {interrupts : Bool} {input left : Bytes} {events : List Event}
    {ending : Ending} (h : Dispatcher.Conversation dispatcher stopPredicate interrupts input s events
      ending left s') (goesOn : s.isShuttingDown = false) (returned : ∀ f, ending ≠ .failed f) :
    Closes input left (handledIn events) := by
  have entering {diagnostics : List Diagnostic} {s s' : Server}
      (entered : (dispatcher.enter diagnostics).perform s = (.ok (), s'))
      (goesOn : s.isShuttingDown = false) : s'.isShuttingDown = false := by
    have still : (dispatcher.enter diagnostics).Preserves fun s => s.isShuttingDown = false :=
      Dispatcher.preserves_enter isQuiet_goesOn.log diagnostics
    have held := still s goesOn
    rwa [entered] at held
  induction h with
  | unreported => exact absurd rfl (returned _)
  | last takes entered turn =>
      cases servingTurn turn (entering entered goesOn) with
      | stops about one ends =>
          obtain ⟨f, whole, decoded⟩ := Dispatcher.exists_frame_of_takes takes (by rw [about]; rfl)
          rw [one]
          show Closes _ _ (messagesIn [] ++ [_])
          exact .stopped whole (decoded.symm.trans about) ends nofun
      | ends none =>
          rw [none]
          exact .ended nofun
      | fails f => exact absurd rfl (returned f)
  | more takes entered turn _ ih =>
      obtain ⟨f, rfl, rfl⟩ := Dispatcher.exists_frame_of_takes takes turn.isFrame
      cases servingTurn turn (entering entered goesOn) with
      | goesOn still one others =>
          have messages : messagesIn [f] = (decodeBody f.body).message?.toList :=
            List.flatMap_singleton ..
          rw [one, ← messages] at others
          rw [handledIn_append, one, ← messages]
          exact .cons f others (ih still returned)

/-- Then the exit code tells whether the message that ended it was an exit. -/
theorem Closes.exitCode_eq {input left : Bytes} {messages : List Json} {l : Life} {uses : List Use}
    (h : Closes input left messages) (told : l.Tells uses messages) :
    l.exitCode = if ∃ m ∈ messages, IsNotification "exit" m then 1 else 0 := by
  have early : LeavesEarly messages ↔ ∃ m ∈ messages, IsNotification "exit" m := by
    constructor
    · rintro ⟨before, v, after, rfl, exit, -⟩
      exact ⟨v, by simp, exit⟩
    · rintro ⟨v, hv, exit⟩
      cases h with
      | @stopped frames f last whole decoded ends others =>
          rcases List.mem_append.1 hv with hv | hv
          · exact absurd (endsSession_iff.2 (.inr exit)) (others v hv)
          · obtain rfl := List.mem_singleton.1 hv
            refine (leavesEarly_concat_exit exit).2 fun m hm shutdown => ?_
            exact others m hm (endsSession_iff.2 (.inl shutdown))
      | ended others => exact absurd (endsSession_iff.2 (.inr exit)) (others v hv)
  have least := told.exitCode_le
  have code := told.exitCode.trans early
  split_ifs with exit
  · exact code.2 exit
  · have other : l.exitCode ≠ 1 := fun one => exit (code.1 one)
    omega

/-- **The life of a server and its exit code.**  Whatever a server is used for, its life tells of
its uses and of the messages that it has handled in them, and no use takes it back to an earlier
stage.  A program that runs a new server on a stream and returns has handled no message behind the
first that ends the session and left the bytes behind it; its exit code tells whether that message
was an exit. -/
theorem lifecycle (keepsFile : Bool) :
    (∀ uses, ∃ messages, HandledBy keepsFile uses messages) ∧
    (∀ uses messages, HandledBy keepsFile uses messages →
      (used keepsFile uses).life.Tells uses messages) ∧
    (∀ (s : Server) (u : Use), s.stage.rank ≤ (s.use u).stage.rank) ∧
    ∀ source : ByteSource, (∀ f, (session keepsFile source).1 ≠ .failed f) →
      ∃ messages, HandledBy keepsFile [.stream (.ofSource source)] messages ∧
        Closes source.unread (session keepsFile source).2.1.source.unread messages ∧
        (session keepsFile source).2.2.state.exitCode
          = if ∃ m ∈ messages, IsNotification "exit" m then 1 else 0 := by
  refine ⟨exists_handledBy keepsFile, fun _ _ => tells_of_handledBy, rank_le_use, ?_⟩
  intro source returned
  obtain ⟨_, events, opened, rfl, conversation, -⟩ :=
    exists_ranOn (initial keepsFile) (.ofSource source)
  have unused : HandledBy keepsFile [] [] := .new
  have handled : HandledBy keepsFile [.stream (.ofSource source)] (handledIn events) :=
    unused.stream (.ofSource source) conversation
  have closes := closes_of_conversation conversation (opened.keeps isQuiet_goesOn rfl) returned
  exact ⟨_, handled, closes, closes.exitCode_eq (tells_of_handledBy handled)⟩

/-- The notification of an exit is handled and counts; the request behind it is not read. -/
theorem lifecycle_at_exit :
    let behind := Frame.ofBody (Utf8.encode "\x7b\"id\":1,\"method\":\"shutdown\"\x7d")
    let source : ByteSource :=
      ⟨Frame.ofBody (Utf8.encode "\x7b\"method\":\"exit\"\x7d") ++ behind, .constant 0, 0, false⟩
    ∃ messages, HandledBy false [.stream (.ofSource source)] messages ∧
      Closes source.unread behind messages ∧ ∃ m ∈ messages, IsNotification "exit" m := by
  intro behind source
  have stopped : (session false source).1 matches .stopped := by decide +kernel
  have returned : ∀ f, (session false source).1 ≠ .failed f := by
    intro f failed
    rw [failed] at stopped
    cases stopped
  have left : (session false source).2.1.source.unread = behind := by decide +kernel
  have code : (session false source).2.2.state.exitCode = 1 := by decide +kernel
  obtain ⟨messages, handled, closes, told⟩ := (lifecycle false).2.2.2 source returned
  rw [left] at closes
  rw [code] at told
  refine ⟨messages, handled, closes, ?_⟩
  by_contra none
  rw [if_neg none] at told
  cases told

end JustfileServer.Server
