import JustfileServer.Proofs.Rpc.Conversation

/-!
# What a conversation amounts to

`Account` says what can be told from the events of a conversation as a whole: they are about the
frames in front of the stream, one by one and in order; the stop predicate is asked once for each
message that was handled, when its reply has been written, and for nothing else; and the first
answer that says so ends the conversation, with just the bytes behind the last frame left.  It is
proved turn by turn.  With `exists_conversation` this gives what a run of the loop does
(`run_follows`).
-/

namespace JustfileServer

namespace Event

/-- What was received when an event is about a new frame. -/
def received : Event → Option Received
  | .refused e => some (.undecodable e)
  | .handled message => some (.value message)
  | _ => none

/-- Is a message handled? -/
def isHandled : Event → Bool
  | .handled _ => true
  | _ => false

/-- Is the stop predicate asked? -/
def isAsked : Event → Bool
  | .asked _ => true
  | _ => false

end Event

/-- The stop predicate is asked only when a message has just been handled and its reply, if there is
one, been written. -/
def AskedInTurn (events : List Event) : Prop :=
  ∀ before answer after, events = before ++ .asked answer :: after →
    ∃ earlier v, before = earlier ++ [.handled v] ∨
      ∃ frame, before = earlier ++ [.handled v, .sent frame]

namespace AskedInTurn

theorem of_forall_notMem {events : List Event} (h : ∀ b, .asked b ∉ events) :
    AskedInTurn events := by
  intro before answer after whole
  exact absurd (whole ▸ List.mem_append_right _ (List.mem_cons_self ..)) (h answer)

theorem concat {events : List Event} {b : Bool} (first : ∀ b, .asked b ∉ events)
    (replied : ∃ earlier v, events = earlier ++ [.handled v] ∨
      ∃ frame, events = earlier ++ [.handled v, .sent frame]) :
    AskedInTurn (events ++ [.asked b]) := by
  intro before answer after whole
  rcases List.eq_nil_or_concat after with rfl | ⟨after, e, rfl⟩
  · obtain ⟨rfl, -⟩ := List.append_inj' whole rfl
    exact replied
  · rw [List.concat_eq_append, ← List.cons_append, ← List.append_assoc] at whole
    obtain ⟨rfl, -⟩ := List.append_inj' whole rfl
    exact absurd (List.mem_append_right _ (List.mem_cons_self ..)) (first answer)

theorem append {events later : List Event} (h : AskedInTurn events)
    (h' : AskedInTurn later) : AskedInTurn (events ++ later) := by
  intro before answer after whole
  rcases List.append_eq_append_iff.1 whole with ⟨middle, hb, hl⟩ | ⟨middle, he, ha⟩
  · obtain ⟨earlier, v, replied⟩ := h' middle answer after hl
    refine ⟨events ++ earlier, v, ?_⟩
    rcases replied with rfl | ⟨frame, rfl⟩
    · exact .inl (by rw [hb, List.append_assoc])
    · exact .inr ⟨frame, by rw [hb, List.append_assoc]⟩
  · cases middle with
    | nil =>
        obtain ⟨earlier, v, replied⟩ := h' [] answer after ha.symm
        rcases replied with none | ⟨frame, none⟩ <;> simp at none
    | cons e middle =>
        obtain ⟨rfl, -⟩ := List.cons.inj ha
        exact h before _ middle he

end AskedInTurn

/-- The bytes where a conversation ends, behind the frames that it was about, and what is left of
them. -/
def EndsAt (interrupts : Bool) (input : Bytes) (ending : Ending) (left : Bytes) : Prop :=
  match ending with
  | .stopped => input = left
  | .finished => ∃ diagnostics received, Reader.Takes interrupts input diagnostics received left ∧
      (received = .finished ∨ received = .value .null)
  | .interrupted => ∃ diagnostics, Reader.Takes interrupts input diagnostics .interrupted left
  | .failed _ => True

/-- What the events of a conversation tell. -/
structure Account {σ : Type} (stop : StopPredicate σ) (interrupts : Bool) (input : Bytes)
    (events : List Event) (ending : Ending) (left : Bytes) : Prop where
  /-- They are about the frames in front, and the conversation ends behind these. -/
  frames : ∃ (frames : List WholeFrame) (rest : Bytes),
    input = frames.flatMap WholeFrame.bytes ++ rest ∧
      frames.map (fun f => decodeBody f.body) = events.filterMap Event.received ∧
      EndsAt interrupts rest ending left
  /-- A null value is no message. -/
  notNull : ∀ v, .handled v ∈ events → v.isNull = false
  /-- The error about an undecodable body says that. -/
  parseError : ∀ e, .refused e ∈ events → e.code = RpcError.parseCode
  askedInTurn : AskedInTurn events
  /-- The stop predicate, if there is one, is asked for every message. -/
  askedForAll : (∀ f, ending ≠ .failed f) → events.countP Event.isAsked
    = if stop.isSome then events.countP Event.isHandled else 0
  /-- An answer that says so stops the conversation, and nothing else does. -/
  stopped_iff : ending = .stopped ↔ .asked true ∈ events
  /-- It is the first such answer, and nothing happens after it. -/
  first : .asked true ∉ events.dropLast

namespace Dispatcher

variable {σ : Type} {d : Dispatcher σ} {stop : StopPredicate σ} {s s' : σ}

/-! ## Turns -/

theorem askedToStop_cases {answers : List Event} {ending : Option Ending}
    (h : askedToStop stop s = (answers, ending, s')) :
    (stop.isSome = false ∧ answers = [] ∧ ending = none) ∨
      ∃ b, stop.isSome = true ∧ answers = [.asked b] ∧
        ending = if b then some .stopped else none := by
  cases stop with
  | none =>
      cases h
      exact .inl ⟨rfl, rfl, rfl⟩
  | some ask =>
      cases h
      exact .inr ⟨_, rfl, rfl, rfl⟩

namespace Turn

variable {received : Received} {events : List Event} {ending : Option Ending}

/-- A turn with events is about one whole frame; one without ends the conversation. -/
theorem received_events (h : Turn d stop received s events ending s') :
    (events.filterMap Event.received = [received] ∧ received.isFrame = true ∧
        ending ≠ some .finished ∧ ending ≠ some .interrupted) ∨
      (events = [] ∧ ∃ e, ending = some e ∧ ∀ interrupts input diagnostics left,
        Reader.Takes interrupts input diagnostics received left →
          EndsAt interrupts input e left) := by
  cases h with
  | finished => exact .inr ⟨rfl, _, rfl, fun _ _ _ _ takes => ⟨_, _, takes, .inl rfl⟩⟩
  | interrupted => exact .inr ⟨rfl, _, rfl, fun _ _ _ _ takes => ⟨_, takes⟩⟩
  | null => exact .inr ⟨rfl, _, rfl, fun _ _ _ _ takes => ⟨_, _, takes, .inr rfl⟩⟩
  | failed => exact .inr ⟨rfl, _, rfl, fun _ _ _ _ _ => trivial⟩
  | refused => exact .inl ⟨rfl, rfl, by simp⟩
  | unentered => exact .inl ⟨rfl, rfl, by simp⟩
  | undeliverable => exact .inl ⟨rfl, rfl, by simp⟩
  | unhandled => exact .inl ⟨rfl, rfl, by simp⟩
  | handled _ _ delivered asked =>
      refine .inl ⟨?_, rfl, ?_⟩
      · rcases askedToStop_cases asked with ⟨-, rfl, -⟩ | ⟨b, -, rfl, -⟩ <;>
          cases delivered <;> rfl
      · rcases askedToStop_cases asked with ⟨-, -, rfl⟩ | ⟨b, -, -, rfl⟩
        · simp
        · cases b <;> simp

theorem notNull (h : Turn d stop received s events ending s') {v : Json}
    (hv : .handled v ∈ events) : v.isNull = false := by
  cases h with
  | handled notNull _ delivered asked =>
      rcases askedToStop_cases asked with ⟨-, rfl, -⟩ | ⟨b, -, rfl, -⟩ <;> cases delivered <;>
        simp at hv <;> rwa [hv]
  | undeliverable notNull => simp at hv; rwa [hv]
  | unhandled notNull => simp at hv; rwa [hv]
  | _ => simp at hv

theorem received_of_refused (h : Turn d stop received s events ending s') {e : RpcError}
    (he : .refused e ∈ events) : received = .undecodable e := by
  cases h with
  | handled _ _ delivered asked =>
      rcases askedToStop_cases asked with ⟨-, rfl, -⟩ | ⟨b, -, rfl, -⟩ <;> cases delivered <;>
        simp at he
  | refused => simp at he; rw [he]
  | unentered => simp at he; rw [he]
  | _ => simp at he

theorem askedInTurn (h : Turn d stop received s events ending s') : AskedInTurn events := by
  cases h with
  | @handled _ _ _ v _ _ _ _ _ _ delivered asked =>
      rcases askedToStop_cases asked with ⟨-, rfl, -⟩ | ⟨b, -, rfl, -⟩
      · refine .of_forall_notMem fun b => ?_
        cases delivered <;> simp
      · cases delivered with
        | silent => exact .concat (fun b => by simp) ⟨[], v, .inl rfl⟩
        | @sent _ frame => exact .concat (fun b => by simp) ⟨[], v, .inr ⟨frame, rfl⟩⟩
  | _ => exact .of_forall_notMem fun b => by simp

theorem countP_isAsked (h : Turn d stop received s events ending s')
    (unfailed : ∀ f, ending ≠ some (.failed f)) : events.countP Event.isAsked
      = if stop.isSome then events.countP Event.isHandled else 0 := by
  cases h with
  | handled _ _ delivered asked =>
      rcases askedToStop_cases asked with ⟨hs, rfl, -⟩ | ⟨b, hs, rfl, -⟩ <;>
        cases delivered <;> simp [hs, Event.isAsked, Event.isHandled, List.countP_cons]
  | unentered => exact absurd rfl (unfailed _)
  | undeliverable => exact absurd rfl (unfailed _)
  | unhandled => exact absurd rfl (unfailed _)
  | _ => simp [Event.isAsked, Event.isHandled]

theorem stopped_iff (h : Turn d stop received s events ending s') :
    ending = some .stopped ↔ .asked true ∈ events := by
  cases h with
  | handled _ _ delivered asked =>
      rcases askedToStop_cases asked with ⟨-, rfl, rfl⟩ | ⟨b, -, rfl, rfl⟩
      · cases delivered <;> simp
      · cases delivered <;> cases b <;> simp
  | _ => simp

theorem first (h : Turn d stop received s events ending s') :
    .asked true ∉ events.dropLast := by
  cases h with
  | handled _ _ delivered asked =>
      rcases askedToStop_cases asked with ⟨-, rfl, -⟩ | ⟨b, -, rfl, -⟩ <;> cases delivered <;> simp
  | _ => simp

end Turn

/-! ## Conversations -/

theorem exists_frame_of_takes {interrupts : Bool} {input left : Bytes}
    {diagnostics : List Diagnostic} {received : Received}
    (h : Reader.Takes interrupts input diagnostics received left)
    (frame : received.isFrame = true) :
    ∃ f : WholeFrame, input = f.bytes ++ left ∧ received = decodeBody f.body := by
  cases h with
  | frame f => exact ⟨f, rfl, rfl⟩
  | cutShort => cases frame
  | unusable => split at frame <;> cases frame

theorem code_of_takes {interrupts : Bool} {input left : Bytes} {diagnostics : List Diagnostic}
    {received : Received} (h : Reader.Takes interrupts input diagnostics received left)
    {e : RpcError} (he : received = .undecodable e) : e.code = RpcError.parseCode := by
  obtain ⟨f, -, hf⟩ := exists_frame_of_takes h (by rw [he]; rfl)
  obtain ⟨reason, -, rfl⟩ := eq_undecodableError (hf.symm.trans he)
  rfl

/-- **What the events of a conversation tell.** -/
theorem Conversation.account {interrupts : Bool} {input left : Bytes} {events : List Event}
    {ending : Ending} (h : Conversation d stop interrupts input s events ending left s') :
    Account stop interrupts input events ending left := by
  induction h with
  | unreported takes _ =>
      exact ⟨⟨[], _, rfl, rfl, trivial⟩, by simp, by simp, .of_forall_notMem (by simp),
        by simp, by simp, by simp⟩
  | @last input left s s₁ s₂ diagnostics received events ending takes _ turn =>
      refine ⟨?_, fun v hv => turn.notNull hv, ?_, turn.askedInTurn, ?_, ?_, turn.first⟩
      · rcases turn.received_events
          with ⟨about, frame, unfinished, uninterrupted⟩ | ⟨none, e, he, ends⟩
        · obtain ⟨f, whole, decoded⟩ := exists_frame_of_takes takes frame
          refine ⟨[f], left, by simpa using whole, by rw [about, decoded]; rfl, ?_⟩
          cases ending with
          | stopped => rfl
          | finished => exact absurd rfl unfinished
          | interrupted => exact absurd rfl uninterrupted
          | failed => trivial
        · obtain rfl := Option.some.inj he
          exact ⟨[], input, rfl, by rw [none]; rfl, ends _ _ _ _ takes⟩
      · exact fun e he => code_of_takes takes (turn.received_of_refused he)
      · exact fun unfailed => turn.countP_isAsked fun f hf => unfailed f (Option.some.inj hf)
      · rw [← turn.stopped_iff, Option.some.injEq]
  | @more input rest left s s₁ s₂ s' diagnostics received events later ending takes _ turn _ ih =>
      refine ⟨?_, ?_, ?_, turn.askedInTurn.append ih.askedInTurn, ?_, ?_, ?_⟩
      · rcases turn.received_events with ⟨about, frame, -⟩ | ⟨-, e, he, -⟩
        · obtain ⟨f, whole, decoded⟩ := exists_frame_of_takes takes frame
          obtain ⟨frames, end', others, values, ends⟩ := ih.frames
          refine ⟨f :: frames, end', ?_, ?_, ends⟩
          · rw [whole, others, List.flatMap_cons, List.append_assoc]
          · rw [List.filterMap_append, about, List.map_cons, values, decoded]
            rfl
        · cases he
      · intro v hv
        rcases List.mem_append.1 hv with hv | hv
        · exact turn.notNull hv
        · exact ih.notNull v hv
      · intro e he
        rcases List.mem_append.1 he with he | he
        · exact code_of_takes takes (turn.received_of_refused he)
        · exact ih.parseError e he
      · intro unfailed
        rw [List.countP_append, List.countP_append, ih.askedForAll unfailed,
          turn.countP_isAsked (by simp)]
        split <;> rfl
      · have goesOn : .asked true ∉ events := by simp [← turn.stopped_iff]
        rw [ih.stopped_iff, List.mem_append]
        tauto
      · have goesOn : .asked true ∉ events := by simp [← turn.stopped_iff]
        cases later with
        | nil => simpa using turn.first
        | cons e later =>
            rw [List.dropLast_append_of_ne_nil (by simp), List.mem_append]
            exact not_or.2 ⟨goesOn, ih.first⟩

/-- **What a run of the loop does.**  For all handlers, every stop predicate and every stream, the
loop ends; it has had a conversation frame by frame, the events of which tell what `Account` says,
and what it has written are just the frames that were sent in the conversation, in order. -/
theorem run_follows (d : Dispatcher σ) (stop : StopPredicate σ) (r : Reader) (x : Exchange σ) :
    ∃ ending reader state events,
      d.run stop r x = (ending, reader, ⟨state, x.output ++ events.flatMap Event.written⟩) ∧
        Conversation d stop r.source.interrupts r.source.unread x.state events ending
          reader.source.unread state ∧
        Account stop r.source.interrupts r.source.unread events ending reader.source.unread := by
  obtain ⟨events, conversation, written⟩ := d.exists_conversation stop r x
  refine ⟨_, _, _, events, ?_, conversation, conversation.account⟩
  rw [← written]

end Dispatcher

end JustfileServer
