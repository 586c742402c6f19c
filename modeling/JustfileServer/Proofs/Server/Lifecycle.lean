import JustfileServer.Proofs.Server.Uses

/-!
# The life of a server

Of the life of a server three things are kept: its stage, whether a shutdown was asked for, and the
exit code.  Three messages change them: the request of an introduction, the request for a shutdown
and the notification of an exit (`Life.past`).  No other message does, and none of these handlers can
fail half way, so the life can be told from the messages alone (`life_handle`).  What it tells after
any messages and runs is `Life.Tells` (`tells_of_handledBy`).
-/

namespace JustfileServer

namespace Message

/-- **A request of a method** has an identifier. -/
def IsRequest (method : Text) (v : Json) : Prop := method? v = some method ∧ (id v).isNull = false

/-- **A notification of a method** has none. -/
def IsNotification (method : Text) (v : Json) : Prop :=
  method? v = some method ∧ (id v).isNull = true

instance (method : Text) (v : Json) : Decidable (IsRequest method v) :=
  inferInstanceAs (Decidable (_ ∧ _))

instance (method : Text) (v : Json) : Decidable (IsNotification method v) :=
  inferInstanceAs (Decidable (_ ∧ _))

theorem IsRequest.eq {method other : Text} {v : Json} (h : IsRequest method v)
    (named : method? v = some other) : method = other := Option.some.inj (h.1.symm.trans named)

theorem IsRequest.not_isNotification {method other : Text} {v : Json} (h : IsRequest method v) :
    ¬ IsNotification other v := by
  rintro ⟨-, null⟩
  rw [h.2] at null
  cases null

theorem endsSession_iff {v : Json} :
    EndsSession v ↔ IsRequest "shutdown" v ∨ IsNotification "exit" v := by
  unfold EndsSession IsRequest IsNotification
  cases (id v).isNull <;> simp

end Message

open Message (IsRequest IsNotification EndsSession endsSession_iff)

/-- What is kept of the life of a server. -/
structure Life where
  stage : Stage
  shutdownRequested : Bool
  exitCode : Nat

namespace Life

/-- The life after a message. -/
def past (l : Life) (v : Json) : Life :=
  if IsRequest "shutdown" v then ⟨l.stage.later .shuttingDown, true, l.exitCode⟩
  else if IsNotification "exit" v then
    ⟨l.stage.later .shuttingDown, l.shutdownRequested, if l.shutdownRequested then 0 else 1⟩
  else if IsRequest "initialize" v then ⟨l.stage.later .ready, l.shutdownRequested, l.exitCode⟩
  else l

/-- The four things that a message can do. -/
theorem past_cases (l : Life) (v : Json) :
    (IsRequest "shutdown" v ∧ l.past v = ⟨l.stage.later .shuttingDown, true, l.exitCode⟩) ∨
    (¬ IsRequest "shutdown" v ∧ IsNotification "exit" v ∧ l.past v
      = ⟨l.stage.later .shuttingDown, l.shutdownRequested,
        if l.shutdownRequested then 0 else 1⟩) ∨
    (¬ IsRequest "shutdown" v ∧ ¬ IsNotification "exit" v ∧ IsRequest "initialize" v ∧
      l.past v = ⟨l.stage.later .ready, l.shutdownRequested, l.exitCode⟩) ∨
    (¬ IsRequest "shutdown" v ∧ ¬ IsNotification "exit" v ∧ ¬ IsRequest "initialize" v ∧
      l.past v = l) := by
  unfold past
  by_cases shutdown : IsRequest "shutdown" v
  · exact .inl ⟨shutdown, if_pos shutdown⟩
  rw [if_neg shutdown]
  by_cases exit : IsNotification "exit" v
  · exact .inr (.inl ⟨shutdown, exit, if_pos exit⟩)
  rw [if_neg exit]
  by_cases greets : IsRequest "initialize" v
  · exact .inr (.inr (.inl ⟨shutdown, exit, greets, if_pos greets⟩))
  · exact .inr (.inr (.inr ⟨shutdown, exit, greets, if_neg greets⟩))

theorem rank_le_past (l : Life) (v : Json) : l.stage.rank ≤ (l.past v).stage.rank := by
  rcases l.past_cases v with ⟨-, past⟩ | ⟨-, -, past⟩ | ⟨-, -, -, past⟩ | ⟨-, -, -, past⟩ <;>
    rw [past]
  · exact Stage.rank_le_later ..
  · exact Stage.rank_le_later ..
  · exact Stage.rank_le_later ..

theorem terminated_past (l : Life) (v : Json) :
    (l.past v).stage = .terminated ↔ l.stage = .terminated := by
  obtain ⟨stage, requested, code⟩ := l
  unfold past
  split_ifs <;> cases stage <;> simp [Stage.later, Stage.rank]

end Life

namespace Server

open Dispatcher (handlerFor)

variable {s : Server} {v params : Json}

/-- What is kept of the server's life. -/
def life (s : Server) : Life := ⟨s.stage, s.shutdownRequested, s.exitCode⟩

theorem isQuiet_life (P : Life → Prop) : IsQuiet fun s => P s.life := fun _ _ _ h => h

theorem isSteady_life (P : Life → Prop) : IsSteady fun s => P s.life :=
  ⟨isQuiet_life P, fun _ _ _ _ _ _ h => h, fun _ _ h => h⟩

theorem Noted.life {s s' : Server} (h : Noted s s') : s'.life = s.life :=
  h.keeps (isQuiet_life fun l => l = s.life) rfl

/-! ## The handlers that change it -/

theorem perform_greet (params : Json) (s : Server) :
    ∃ s', (greet params).perform s = (.ok (.ok capabilities), s') ∧
      Noted { s with stage := s.stage.later .ready } s' := by
  obtain ⟨_, logged, journal, rfl, same⟩ :=
    perform_log_noted (Text.hasSurrogate_ofString "Received initialize request") s
  obtain ⟨s', advanced, noted⟩ := perform_advance .ready { s with journal := journal }
  rw [greet, Action.perform_bind_ok logged, Action.perform_bind_ok advanced]
  exact ⟨s', rfl, .trans ⟨journal, rfl, same⟩ noted⟩

theorem perform_shutDown (params : Json) (s : Server) :
    ∃ s', (shutDown params).perform s = (.ok (.ok .null), s') ∧
      Noted { s with shutdownRequested := true, stage := s.stage.later .shuttingDown } s' := by
  obtain ⟨_, logged, journal, rfl, same⟩ :=
    perform_log_noted (Text.hasSurrogate_ofString "Shutdown requested") s
  have requested : (modify fun s => { s with shutdownRequested := true } :
      Action Server PUnit).perform { s with journal := journal }
        = (.ok (), { s with shutdownRequested := true, journal := journal }) := rfl
  obtain ⟨s', advanced, noted⟩ := perform_advance .shuttingDown
    { s with shutdownRequested := true, journal := journal }
  rw [shutDown, Action.perform_bind_ok logged, Action.perform_bind_ok requested,
    Action.perform_bind_ok advanced]
  exact ⟨s', rfl, .trans ⟨journal, rfl, same⟩ noted⟩

theorem perform_leave (params : Json) (s : Server) :
    ∃ s', (leave params).perform s = (.ok (), s') ∧ Noted { s with
      exitCode := if s.shutdownRequested then 0 else 1
      stage := s.stage.later .shuttingDown } s' := by
  obtain ⟨_, logged, journal, rfl, same⟩ :=
    perform_log_noted (Text.hasSurrogate_ofString "Exit notification received") s
  have coded : (modify fun s => { s with exitCode := if s.shutdownRequested then 0 else 1 } :
      Action Server PUnit).perform { s with journal := journal }
        = (.ok (), { s with
            exitCode := if s.shutdownRequested then 0 else 1, journal := journal }) := rfl
  obtain ⟨s', advanced, noted⟩ := perform_advance .shuttingDown
    { s with exitCode := if s.shutdownRequested then 0 else 1, journal := journal }
  rw [leave, Action.perform_bind_ok logged, Action.perform_bind_ok coded, advanced]
  exact ⟨s', rfl, .trans ⟨journal, rfl, same⟩ noted⟩

/-! ## Messages -/

/-- Around a handler nothing is done to the life of the server. -/
theorem life_handle_request {h : RequestHandler Server}
    (given : handlerFor dispatcher v = some (.inl h)) (s : Server) :
    ((dispatcher.handle v).perform s).2.life = ((h (Message.params v)).perform s).2.life := by
  obtain ⟨s', handled, noted⟩ := perform_handle_request given s
  rw [handled, noted.life]

theorem life_handle_notification {h : NotificationHandler Server}
    (given : handlerFor dispatcher v = some (.inr h)) (s : Server) :
    ((dispatcher.handle v).perform s).2.life = ((h (Message.params v)).perform s).2.life := by
  obtain ⟨s', handled, noted⟩ := perform_handle_notification given s
  rw [handled, noted.life]

/-- A handler for another method leaves the life of the server alone. -/
theorem life_handle_other (shutdown : ¬ IsRequest "shutdown" v) (exit : ¬ IsNotification "exit" v)
    (greets : ¬ IsRequest "initialize" v) (s : Server) :
    ((dispatcher.handle v).perform s).2.life = s.life := by
  have steady := isSteady_life fun l => l = s.life
  cases given : handlerFor dispatcher v with
  | none =>
      rw [Dispatcher.handle_of_nobody given]
      rfl
  | some handler =>
      cases handler with
      | inl h =>
          obtain ⟨method, named, notNull, found⟩ := Dispatcher.handlerFor_eq_inl_iff.1 given
          rw [life_handle_request given]
          obtain ⟨-, ⟨rfl, rfl⟩ | ⟨rfl, rfl⟩ | ⟨rfl, rfl⟩ | ⟨rfl, rfl⟩⟩ := lookup_requests found
          · exact steady.quiet.describeWord _ s rfl
          · exact steady.quiet.findDefinitions _ s rfl
          · exact absurd ⟨named, notNull⟩ shutdown
          · exact absurd ⟨named, notNull⟩ greets
      | inr h =>
          obtain ⟨method, named, null, found⟩ := Dispatcher.handlerFor_eq_inr_iff.1 given
          rw [life_handle_notification given]
          obtain ⟨-, ⟨rfl, rfl⟩ | ⟨rfl, rfl⟩ | ⟨rfl, rfl⟩ | ⟨rfl, rfl⟩ | ⟨rfl, rfl⟩⟩ :=
            lookup_notifications found
          · exact steady.closeDocument _ s rfl
          · exact steady.changeDocument _ s rfl
          · exact steady.openDocument _ s rfl
          · exact absurd ⟨named, null⟩ exit
          · exact steady.quiet.confirm _ s rfl

/-- **What a message does to the life of the server.** -/
theorem life_handle (s : Server) (v : Json) :
    ((dispatcher.handle v).perform s).2.life = s.life.past v := by
  rcases s.life.past_cases v with ⟨shutdown, past⟩ | ⟨-, exit, past⟩ | ⟨-, -, greets, past⟩ |
    ⟨shutdown, exit, greets, past⟩ <;> rw [past]
  · have given : handlerFor dispatcher v = some (.inl shutDown) :=
      Dispatcher.handlerFor_eq_inl_iff.2 ⟨_, shutdown.1, shutdown.2, rfl⟩
    obtain ⟨s', done, noted⟩ := perform_shutDown (Message.params v) s
    rw [life_handle_request given, done, noted.life]
    rfl
  · have given : handlerFor dispatcher v = some (.inr leave) :=
      Dispatcher.handlerFor_eq_inr_iff.2 ⟨_, exit.1, exit.2, rfl⟩
    obtain ⟨s', done, noted⟩ := perform_leave (Message.params v) s
    rw [life_handle_notification given, done, noted.life]
    rfl
  · have given : handlerFor dispatcher v = some (.inl greet) :=
      Dispatcher.handlerFor_eq_inl_iff.2 ⟨_, greets.1, greets.2, rfl⟩
    obtain ⟨s', done, noted⟩ := perform_greet (Message.params v) s
    rw [life_handle_request given, done, noted.life]
    rfl
  · exact life_handle_other shutdown exit greets s

/-! ## Uses -/

/-- **An exit came too early**: before the last one, no shutdown was asked for. -/
def LeavesEarly (messages : List Json) : Prop :=
  ∃ before v after, messages = before ++ v :: after ∧ IsNotification "exit" v ∧
    (∀ m ∈ after, ¬ IsNotification "exit" m) ∧ ∀ m ∈ before, ¬ IsRequest "shutdown" m

/-- A further exit is the last one. -/
theorem leavesEarly_concat_exit {messages : List Json} (exit : IsNotification "exit" v) :
    LeavesEarly (messages ++ [v]) ↔ ∀ m ∈ messages, ¬ IsRequest "shutdown" m := by
  constructor
  · rintro ⟨before, last, after, whole, -, others, none⟩
    rcases List.eq_nil_or_concat after with rfl | ⟨after, w, rfl⟩
    · obtain ⟨rfl, -⟩ := List.append_inj' whole rfl
      exact none
    · rw [List.concat_eq_append, ← List.cons_append, ← List.append_assoc] at whole
      obtain ⟨-, same⟩ := List.append_inj' whole rfl
      obtain rfl : v = w := List.singleton_inj.1 same
      exact absurd exit (others v (by simp))
  · exact fun none => ⟨messages, v, [], rfl, exit, by simp, none⟩

/-- No other message has a part in it once the last exit has come. -/
theorem leavesEarly_concat {messages : List Json} (other : ¬ IsNotification "exit" v) :
    LeavesEarly (messages ++ [v]) ↔ LeavesEarly messages := by
  constructor
  · rintro ⟨before, last, after, whole, exit, others, none⟩
    rcases List.eq_nil_or_concat after with rfl | ⟨after, w, rfl⟩
    · obtain ⟨-, same⟩ := List.append_inj' whole rfl
      obtain rfl : v = last := List.singleton_inj.1 same
      exact absurd exit other
    · rw [List.concat_eq_append, ← List.cons_append, ← List.append_assoc] at whole
      obtain ⟨rfl, -⟩ := List.append_inj' whole rfl
      exact ⟨before, last, after, rfl, exit, fun m hm => others m (by simp [hm]), none⟩
  · rintro ⟨before, last, after, rfl, exit, others, none⟩
    refine ⟨before, last, after ++ [v], by simp, exit, ?_, none⟩
    simpa [or_imp, forall_and] using ⟨others, other⟩

end Server

/-- **What the life of a server tells** of its uses and of the messages that it has handled. -/
structure Life.Tells (l : Life) (uses : List Use) (messages : List Json) : Prop where
  shutdownRequested : l.shutdownRequested = true ↔ ∃ m ∈ messages, IsRequest "shutdown" m
  terminated : l.stage = .terminated ↔ ∃ r, Use.stream r ∈ uses
  exitCode : l.exitCode = 1 ↔ Server.LeavesEarly messages
  exitCode_le : l.exitCode ≤ 1

namespace Life.Tells

variable {l : Life} {uses : List Use} {messages : List Json}

/-- A further message is told of as well. -/
theorem past (h : l.Tells uses messages) (v : Json) : (l.past v).Tells uses (messages ++ [v]) := by
  have stage := (l.terminated_past v).trans h.terminated
  have asked (other : ¬ IsRequest "shutdown" v) :
      l.shutdownRequested = true ↔ ∃ m ∈ messages ++ [v], IsRequest "shutdown" m := by
    rw [h.shutdownRequested]
    simp only [List.mem_append, List.mem_singleton, or_and_right, exists_or, exists_eq_left,
      other, or_false]
  have early (other : ¬ IsNotification "exit" v) :
      l.exitCode = 1 ↔ Server.LeavesEarly (messages ++ [v]) :=
    h.exitCode.trans (Server.leavesEarly_concat other).symm
  rcases l.past_cases v with ⟨shutdown, past⟩ | ⟨other, exit, past⟩ | ⟨other, stays, -, past⟩ |
    ⟨other, stays, -, past⟩ <;> rw [past] at stage ⊢
  · exact ⟨iff_of_true rfl ⟨v, by simp, shutdown⟩, stage, early shutdown.not_isNotification,
      h.exitCode_le⟩
  · refine ⟨asked other, stage, ?_, by dsimp only; split <;> omega⟩
    have none : (∀ m ∈ messages, ¬ IsRequest "shutdown" m) ↔ ¬ l.shutdownRequested = true := by
      rw [h.shutdownRequested]
      simp
    rw [Server.leavesEarly_concat_exit exit, none]
    cases l.shutdownRequested <;> simp
  · exact ⟨asked other, stage, early stays, h.exitCode_le⟩
  · exact ⟨asked other, stage, early stays, h.exitCode_le⟩

end Life.Tells

namespace Server

variable {s s' : Server}

/-- **The life of a server in use**, told from its uses and the messages that it has handled. -/
theorem tells_of_handledBy {keepsFile : Bool} {uses : List Use} {messages : List Json}
    (h : HandledBy keepsFile uses messages) : (used keepsFile uses).life.Tells uses messages := by
  induction h with
  | new =>
      refine ⟨by simp [used, initial, life], by simp [used, initial, life], ?_, Nat.zero_le _⟩
      refine ⟨nofun, ?_⟩
      rintro ⟨before, v, after, whole, -⟩
      simp at whole
  | @message uses messages v _ ih =>
      rw [used_concat]
      show ((dispatcher.handle v).perform _).2.life.Tells _ _
      rw [life_handle]
      have told := ih.past v
      exact ⟨told.shutdownRequested, by simpa using told.terminated, told.exitCode,
        told.exitCode_le⟩
  | @stream uses messages r events _ conversation ih =>
      obtain ⟨_, -, opened, rfl, -, closed⟩ := exists_ranOn (used keepsFile uses) r
      have tracks : Dispatcher.Tracks dispatcher stopPredicate
          fun messages s => s.life.Tells uses messages :=
        ⟨fun messages line => (isQuiet_life fun l => l.Tells uses messages).log line,
          fun messages v s h => by rw [life_handle]; exact h.past v,
          fun _ _ _ asked h => by cases asked; exact h⟩
      rw [← opened.life] at ih
      have told := tracks.conversation messages conversation ih
      rw [used_concat, closed.life]
      exact ⟨told.shutdownRequested, by simp [life], told.exitCode, told.exitCode_le⟩

/-- No use takes the server back to an earlier stage. -/
theorem rank_le_use (s : Server) (u : Use) : s.stage.rank ≤ (s.use u).stage.rank := by
  have steps (k : Nat) : IsQuiet fun s => k ≤ s.life.stage.rank :=
    isQuiet_life fun l => k ≤ l.stage.rank
  refine holds_of_use (P := fun t => s.stage.rank ≤ t.life.stage.rank) (steps _) ?_ ?_ u
    (Nat.le_refl _)
  · intro v t h
    rw [life_handle]
    exact h.trans (t.life.rank_le_past v)
  · intro t _
    show s.stage.rank ≤ Stage.terminated.rank
    cases s.stage <;> decide

end Server

end JustfileServer
