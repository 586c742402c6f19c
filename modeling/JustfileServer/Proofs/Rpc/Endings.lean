import JustfileServer.Proofs.Frame.RoundTrip
import JustfileServer.Proofs.Rpc.Conversation

/-!
# What ends the reading

The loop ends where there is no further frame (`Reader.received_eq_finished_iff`).  A whole frame
ends it for one of the reasons that `Ends` lists.  Behind any other frame it goes on (`Passes`), and
then a value that is no object has been answered with an error.  One of the reasons is the null
value: it is received like any other value, but counts as the end of the stream, for the loop as
well as for the list of messages.

`reading_ends` says how far the reading of a stream of whole frames comes, and `null_ends_reading`
is a stream whose second frame is never read.
-/

namespace JustfileServer

namespace Reader

variable {r : Reader}

/-! ## No further frame -/

/-- **There is no whole frame** in front: the header block has no usable length, perhaps because the
stream ends before it does, or the stream ends before the body does. -/
def Exhausted (input : Bytes) : Prop :=
  (takeBlock input).length? = none ∨
    ∃ length, (takeBlock input).length? = some length ∧ (takeBlock input).rest.length < length

theorem not_exhausted (f : WholeFrame) (rest : Bytes) : ¬ Exhausted (f.bytes ++ rest) := by
  have input : f.bytes ++ rest = f.block ++ (f.body ++ rest) := List.append_assoc ..
  rw [Exhausted, input, f.announced.length?_takeBlock, f.announced.takeBlock_append]
  rintro (none | ⟨length, same, short⟩)
  · cases none
  · obtain rfl := Option.some.inj same
    rw [List.length_append] at short
    omega

/-- The reading is finished just when there is no whole frame. -/
theorem received_eq_finished_iff (patient : r.source.interrupts = false) :
    r.receive.received = .finished ↔ Exhausted r.source.unread := by
  have takes := takes_receive r
  rw [patient] at takes
  generalize r.receive.diagnostics = diagnostics at takes
  generalize r.receive.received = received at takes
  generalize r.receive.reader.source.unread = left at takes
  generalize r.source.unread = input at takes
  cases takes with
  | frame f rest =>
      refine iff_of_false (fun finished => ?_) (not_exhausted f _)
      have frame := isFrame_decodeBody f.body
      rw [finished] at frame
      cases frame
  | cutShort usable short => exact iff_of_true rfl (.inr ⟨_, usable, short⟩)
  | unusable none => exact iff_of_true (by rw [Bool.and_false]; rfl) (.inl none)

/-- A value is received just from a whole frame whose body decodes to it. -/
theorem received_eq_value_iff {v : Json} : r.receive.received = .value v ↔
    ∃ (f : WholeFrame) (rest : Bytes), r.source.unread = f.bytes ++ rest ∧
      decodeBody f.body = .value v := by
  constructor
  · intro given
    obtain ⟨f, whole, decoded⟩ := exists_frame_of_receive (r := r) (by rw [given]; rfl)
    exact ⟨f, _, whole, decoded ▸ given⟩
  · rintro ⟨f, rest, whole, decoded⟩
    rw [(receive_frame whole).2.1, decoded]

/-! ## Messages -/

theorem messages_null (given : r.receive.received = .value .null) :
    r.messages = ([], r.receive) := by
  rw [messages]
  split
  · rename_i w hw
    rw [given, Received.value.injEq] at hw
    rw [← hw]
    rfl
  · rfl

/-- Frames that decode to values other than null give these values, and then what is behind them is
read. -/
theorem messages_append {frames : List WholeFrame} {rest : Bytes} {vs : List Json}
    (whole : r.source.unread = frames.flatMap WholeFrame.bytes ++ rest)
    (decoded : frames.map (fun f => decodeBody f.body) = vs.map .value)
    (notNull : ∀ v ∈ vs, v.isNull = false) :
    r.messages = (vs ++ (next^[frames.length] r).messages.1,
      (next^[frames.length] r).messages.2) := by
  induction vs generalizing r frames with
  | nil =>
      obtain rfl : frames = [] := List.map_eq_nil_iff.1 decoded
      rfl
  | cons v vs ih =>
      cases frames with
      | nil => cases decoded
      | cons f frames =>
          rw [List.map_cons, List.map_cons, List.cons.injEq] at decoded
          rw [List.flatMap_cons, List.append_assoc] at whole
          obtain ⟨-, given, left⟩ := receive_frame whole
          have later := ih left decoded.2 fun w hw => notNull w (List.mem_cons_of_mem _ hw)
          rw [messages_value (given.trans decoded.1) (notNull v (List.mem_cons_self ..))]
          rw [List.length_cons, Function.iterate_succ_apply]
          exact congrArg (fun later : List Json × Receipt => (v :: later.1, later.2)) later

end Reader

namespace Dispatcher

variable {σ : Type} {d : Dispatcher σ} {r : Reader} {f : WholeFrame} {frames : List WholeFrame}
  {rest : Bytes} {v : Json} {s s₁ s₂ : σ} {x : Exchange σ}

/-! ## Values that are no objects -/

/-- The reply to a message that is no object. -/
def notObject : Reply := invalidRequest .null "Message must be a JSON object"

/-- The frame of the reply to a message that is no object. -/
def notObjectFrame : Bytes := Frame.ofBody (Utf8.encode notObject.toJson.render)

theorem send_notObject : Frame.send notObject.toJson = .ok notObjectFrame :=
  Frame.send_eq_ok (by decide) (by decide)

theorem handle_of_not_object (other : ∀ members, v ≠ .obj members) :
    d.handle v = pure (some notObject) := by
  cases v with
  | obj members => exact absurd rfl (other members)
  | _ => rfl

/-! ## What a frame does to the loop -/

/-- **The loop goes on behind a frame**, which has been answered with these bytes. -/
inductive Passes (d : Dispatcher σ) (f : WholeFrame) : σ → Bytes → σ → Prop
  /-- A value that is neither null nor an object is answered with an error. -/
  | other {s s₁ : σ} {v : Json} : decodeBody f.body = .value v → v.isNull = false →
      (∀ members, v ≠ .obj members) → (d.enter f.diagnostics).perform s = (.ok (), s₁) →
      Passes d f s notObjectFrame s₁
  | undecodable {s s₁ s₂ : σ} {e : RpcError} {frame : Bytes} :
      decodeBody f.body = .undecodable e → (d.enter f.diagnostics).perform s = (.ok (), s₁) →
      (d.enterUndecodable e).perform s₁ = (.ok (), s₂) → Frame.send (refusal e) = .ok frame →
      Passes d f s frame s₂
  /-- An object is handled, and if this gives a reply, that is sent. -/
  | object {s s₁ s₂ : σ} {members : List (Text × Json)} {reply : Option Reply} {sent : List Event} :
      decodeBody f.body = .value (.obj members) →
      (d.enter f.diagnostics).perform s = (.ok (), s₁) →
      (d.handle (.obj members)).perform s₁ = (.ok reply, s₂) → Delivered reply sent →
      Passes d f s (sent.flatMap Event.written) s₂

/-- **A frame ends the loop**, for which nothing is written. -/
inductive Ends (d : Dispatcher σ) (f : WholeFrame) : σ → Ending → σ → Prop
  /-- A null value counts as the end of the stream. -/
  | null {s s₁ : σ} : decodeBody f.body = .value .null →
      (d.enter f.diagnostics).perform s = (.ok (), s₁) → Ends d f s .finished s₁
  /-- The body cannot be turned into a value. -/
  | failed {s s₁ : σ} {fault : Fault} : decodeBody f.body = .failed fault →
      (d.enter f.diagnostics).perform s = (.ok (), s₁) → Ends d f s (.failed fault) s₁
  /-- What there is to report about the frame cannot be entered in the journal. -/
  | unreported {s s₁ : σ} {fault : Fault} :
      (d.enter f.diagnostics).perform s = (.error fault, s₁) → Ends d f s (.failed fault) s₁
  | unentered {s s₁ s₂ : σ} {e : RpcError} {fault : Fault} : decodeBody f.body = .undecodable e →
      (d.enter f.diagnostics).perform s = (.ok (), s₁) →
      (d.enterUndecodable e).perform s₁ = (.error fault, s₂) → Ends d f s (.failed fault) s₂
  /-- Handling an object fails. -/
  | unhandled {s s₁ s₂ : σ} {members : List (Text × Json)} {fault : Fault} :
      decodeBody f.body = .value (.obj members) →
      (d.enter f.diagnostics).perform s = (.ok (), s₁) →
      (d.handle (.obj members)).perform s₁ = (.error fault, s₂) → Ends d f s (.failed fault) s₂
  /-- The reply to an object has no encoding. -/
  | undeliverable {s s₁ s₂ : σ} {members : List (Text × Json)} {reply : Reply} {fault : Fault} :
      decodeBody f.body = .value (.obj members) →
      (d.enter f.diagnostics).perform s = (.ok (), s₁) →
      (d.handle (.obj members)).perform s₁ = (.ok (some reply), s₂) →
      Frame.send reply.toJson = .error fault → Ends d f s (.failed fault) s₂

/-- The loop goes on behind each of some frames in turn. -/
inductive PassesAll (d : Dispatcher σ) : List WholeFrame → σ → List Bytes → σ → Prop
  | nil {s : σ} : PassesAll d [] s [] s
  | cons {f : WholeFrame} {frames : List WholeFrame} {s s₁ s₂ : σ} {answer : Bytes}
      {answers : List Bytes} : Passes d f s answer s₁ → PassesAll d frames s₁ answers s₂ →
      PassesAll d (f :: frames) s (answer :: answers) s₂

/-! ## One frame -/

/-- A turn about a frame passes it or is the last. -/
theorem passes_or_ends {events : List Event} {ending : Option Ending}
    (reported : (d.enter f.diagnostics).perform s = (.ok (), s₁))
    (turn : Turn d none (decodeBody f.body) s₁ events ending s₂) :
    (ending = none ∧ Passes d f s (events.flatMap Event.written) s₂) ∨
      ∃ last, ending = some last ∧ Ends d f s last s₂ ∧ events.flatMap Event.written = [] := by
  have frame := isFrame_decodeBody f.body
  generalize decoded : decodeBody f.body = received at turn frame
  cases turn with
  | finished => cases frame
  | interrupted => cases frame
  | null => exact .inr ⟨_, rfl, .null decoded reported, rfl⟩
  | failed => exact .inr ⟨_, rfl, .failed decoded reported, rfl⟩
  | refused entered sent =>
      refine .inl ⟨rfl, ?_⟩
      simpa [Event.written] using Passes.undecodable decoded reported entered sent
  | unentered entered => exact .inr ⟨_, rfl, .unentered decoded reported entered, rfl⟩
  | @handled _ _ _ v reply sent answers _ notNull handled delivered asked =>
      cases asked
      have silent : (Event.handled v).written = [] := rfl
      rw [List.append_nil, List.flatMap_cons, silent, List.nil_append]
      by_cases object : ∃ members, v = .obj members
      · obtain ⟨members, rfl⟩ := object
        exact .inl ⟨rfl, .object decoded reported handled delivered⟩
      · rw [handle_of_not_object (not_exists.1 object)] at handled
        cases handled
        cases delivered with
        | sent frame =>
            rw [send_notObject, Except.ok.injEq] at frame
            rw [List.flatMap_singleton, Event.written, ← frame]
            exact .inl ⟨rfl, .other decoded notNull (not_exists.1 object) reported⟩
  | @undeliverable _ _ v reply fault notNull handled unsent =>
      by_cases object : ∃ members, v = .obj members
      · obtain ⟨members, rfl⟩ := object
        exact .inr ⟨_, rfl, .undeliverable decoded reported handled unsent, rfl⟩
      · rw [handle_of_not_object (not_exists.1 object)] at handled
        cases handled
        rw [send_notObject] at unsent
        cases unsent
  | @unhandled _ _ v fault notNull handled =>
      by_cases object : ∃ members, v = .obj members
      · obtain ⟨members, rfl⟩ := object
        exact .inr ⟨_, rfl, .unhandled decoded reported handled, rfl⟩
      · rw [handle_of_not_object (not_exists.1 object)] at handled
        cases handled

/-- **A frame is passed or ends the loop.** -/
theorem run_frame (d : Dispatcher σ) (whole : r.source.unread = f.bytes ++ rest) (x : Exchange σ) :
    (∃ answer s, Passes d f x.state answer s ∧
      d.run none r x = d.run none r.next ⟨s, x.output ++ answer⟩) ∨
    ∃ ending s, Ends d f x.state ending s ∧ d.run none r x = (ending, r.next, ⟨s, x.output⟩) := by
  obtain ⟨diagnostics, received, -⟩ := Reader.receive_frame whole
  have turn := d.turn_eq none r.receive x
  rw [perform_report, diagnostics] at turn
  rcases reported : (d.enter f.diagnostics).perform x.state with ⟨fault | _, s⟩
  · rw [reported] at turn
    exact .inr ⟨_, s, .unreported reported, run_of_turn_some turn⟩
  have answerable : ∀ e, r.receive.received = .undecodable e →
      ∃ frame, Frame.send (refusal e) = .ok frame := by
    intro e given
    exact exists_send_refusal (received.symm.trans given)
  obtain ⟨events, ending, s', dealt, concluded⟩ := d.deal_turn none answerable ⟨s, x.output⟩
  rw [reported] at turn
  dsimp only at turn
  rw [concluded] at turn
  rw [received] at dealt
  rcases passes_or_ends reported dealt with ⟨rfl, passes⟩ | ⟨last, rfl, ends, silent⟩
  · exact .inl ⟨_, s', passes, run_of_turn_none whole turn⟩
  · rw [silent, List.append_nil] at turn
    exact .inr ⟨last, s', ends, run_of_turn_some turn⟩

/-- **A value that is neither null nor an object** is answered with an error, and the loop goes
on. -/
theorem run_of_not_object (d : Dispatcher σ) (whole : r.source.unread = f.bytes ++ rest)
    (decoded : decodeBody f.body = .value v) (notNull : v.isNull = false)
    (other : ∀ members, v ≠ .obj members)
    (reported : (d.enter f.diagnostics).perform x.state = (.ok (), s)) :
    d.run none r x = d.run none r.next ⟨s, x.output ++ notObjectFrame⟩ := by
  obtain ⟨diagnostics, received, -⟩ := Reader.receive_frame whole
  apply run_of_turn_none whole
  rw [turn_eq, perform_report, diagnostics, reported, received, decoded]
  dsimp only
  rw [deal, if_neg (by simp [notNull]), conclude_serve, perform_respond,
    handle_of_not_object other, Action.perform_pure]
  dsimp only
  rw [send_notObject]
  rfl

/-- **A null value ends the loop** as the end of the stream does. -/
theorem run_of_null (d : Dispatcher σ) (whole : r.source.unread = f.bytes ++ rest)
    (decoded : decodeBody f.body = .value .null)
    (reported : (d.enter f.diagnostics).perform x.state = (.ok (), s)) :
    d.run none r x = (.finished, r.next, ⟨s, x.output⟩) := by
  obtain ⟨diagnostics, received, -⟩ := Reader.receive_frame whole
  apply run_of_turn_some
  rw [turn_eq, perform_report, diagnostics, reported, received, decoded]
  rfl

/-! ## All frames -/

/-- **The loop passes frames up to the first one that ends it.** -/
theorem run_frames (d : Dispatcher σ)
    (whole : r.source.unread = frames.flatMap WholeFrame.bytes ++ rest) (x : Exchange σ) :
    ∃ answers s, PassesAll d (frames.take answers.length) x.state answers s ∧
      ((answers.length = frames.length ∧
          d.run none r x
            = d.run none (Reader.next^[frames.length] r) ⟨s, x.output ++ answers.flatten⟩) ∨
        ∃ f ending s', frames[answers.length]? = some f ∧ Ends d f s ending s' ∧
          d.run none r x = (ending, Reader.next^[answers.length + 1] r,
            ⟨s', x.output ++ answers.flatten⟩)) := by
  induction frames generalizing r x with
  | nil => exact ⟨[], x.state, .nil, .inl ⟨rfl, by simp⟩⟩
  | cons f frames ih =>
      rw [List.flatMap_cons, List.append_assoc] at whole
      rcases d.run_frame whole x with ⟨answer, s, passes, run⟩ | ⟨ending, s, ends, run⟩
      · have left : r.next.source.unread = _ := (Reader.receive_frame whole).2.2
        obtain ⟨answers, s', others, outcome⟩ := ih left ⟨s, x.output ++ answer⟩
        refine ⟨answer :: answers, s', .cons passes others, ?_⟩
        rw [run, List.flatten_cons, ← List.append_assoc]
        simpa [Function.iterate_succ_apply] using outcome
      · refine ⟨[], x.state, .nil, .inr ⟨f, ending, s, rfl, ends, ?_⟩⟩
        rw [run]
        simp

/-- **What ends the reading.**  A stream starts with whole frames.

* The reading finds no message where there is no whole frame, and where the body of a whole frame is
  the null value, and nowhere else.
* Frames that decode to values other than null give one message each, in order, and what is behind
  them is read; the first null value ends the messages, and the frames behind it are not read.
* The loop without a stop predicate answers each value that is neither null nor an object with an
  error and goes on with the next frame.
* It passes all frames and goes on with what is behind them, or it passes those before the first one
  that ends it: a null value, or a frame that fails. -/
theorem reading_ends (d : Dispatcher σ)
    (whole : r.source.unread = frames.flatMap WholeFrame.bytes ++ rest) :
    (r.source.interrupts = false →
      (r.receive.received = .finished ∨ r.receive.received = .value .null ↔
        Reader.Exhausted r.source.unread ∨ ∃ (f : WholeFrame) (left : Bytes),
          r.source.unread = f.bytes ++ left ∧ decodeBody f.body = .value .null)) ∧
    (∀ vs : List Json, frames.map (fun f => decodeBody f.body) = vs.map .value →
      (∀ v ∈ vs, v.isNull = false) →
      r.messages.1 = vs ++ (Reader.next^[frames.length] r).messages.1 ∧
        (rest = [] → r.source.interrupts = false → r.messages.1 = vs)) ∧
    (∀ (before after : List WholeFrame) (f : WholeFrame) (vs : List Json),
      frames = before ++ f :: after →
      before.map (fun f => decodeBody f.body) = vs.map .value → (∀ v ∈ vs, v.isNull = false) →
      decodeBody f.body = .value .null →
      r.messages.1 = vs ∧ r.messages.2.received = .value .null ∧
        r.messages.2.reader.source.unread = after.flatMap WholeFrame.bytes ++ rest) ∧
    (∀ (k : Nat) (f : WholeFrame) (v : Json), frames[k]? = some f →
      decodeBody f.body = .value v → v.isNull = false → (∀ members, v ≠ .obj members) →
      ∀ (x : Exchange σ) (s : σ), (d.enter f.diagnostics).perform x.state = (.ok (), s) →
        d.run none (Reader.next^[k] r) x
          = d.run none (Reader.next^[k + 1] r) ⟨s, x.output ++ notObjectFrame⟩) ∧
    ∀ x : Exchange σ, ∃ answers s,
      PassesAll d (frames.take answers.length) x.state answers s ∧
      ((answers.length = frames.length ∧
          d.run none r x
            = d.run none (Reader.next^[frames.length] r) ⟨s, x.output ++ answers.flatten⟩) ∨
        ∃ f ending s', frames[answers.length]? = some f ∧ Ends d f s ending s' ∧
          d.run none r x = (ending, Reader.next^[answers.length + 1] r,
            ⟨s', x.output ++ answers.flatten⟩)) := by
  refine ⟨fun patient => ?_, ?_, ?_, ?_, d.run_frames whole⟩
  · rw [Reader.received_eq_finished_iff patient, Reader.received_eq_value_iff]
  · intro vs decoded notNull
    refine ⟨by rw [Reader.messages_append whole decoded notNull], ?_⟩
    rintro rfl patient
    rw [List.append_nil] at whole
    exact (Reader.messages_frames whole patient decoded notNull).1
  · rintro before after f vs rfl decoded notNull null
    rw [List.flatMap_append, List.flatMap_cons, List.append_assoc, List.append_assoc] at whole
    have left := Reader.unread_next_iterate whole (Nat.le_refl _)
    rw [List.drop_length, List.flatMap_nil, List.nil_append] at left
    obtain ⟨-, received, behind⟩ := Reader.receive_frame left
    rw [null] at received
    rw [Reader.messages_append whole decoded notNull, Reader.messages_null received]
    exact ⟨List.append_nil vs, received, behind⟩
  · intro k f v here decoded notNull other x s reported
    obtain ⟨inside, rfl⟩ := List.getElem?_eq_some_iff.1 here
    have left := Reader.unread_next_iterate whole (Nat.le_of_lt inside)
    rw [List.drop_eq_getElem_cons inside, List.flatMap_cons, List.append_assoc] at left
    rw [Function.iterate_succ_apply']
    exact d.run_of_not_object left decoded notNull other reported

/-- A dispatcher that has no handlers and enters nothing. -/
def mute : Dispatcher Unit := .empty fun _ => pure ()

/-- The frame of the null value. -/
def nullFrame : WholeFrame := .written (Utf8.encode Json.null.render) (by decide) (by decide)

/-- The frame of a value that is neither null nor an object. -/
def oneFrame : WholeFrame :=
  .written (Utf8.encode (Json.int 1).render) (by decide) (by decide)

theorem decodeBody_null : decodeBody nullFrame.body = .value .null :=
  decodeBody_encode (v := .null) ⟨by simp [Json.parts], by decide, by simp [Json.parts]⟩ rfl

theorem decodeBody_one : decodeBody oneFrame.body = .value (.int 1) :=
  decodeBody_encode (v := .int 1) ⟨by simp [Json.parts], by decide, by simp [Json.parts]⟩ rfl

theorem perform_enter_mute (diagnostics : List Diagnostic) :
    (mute.enter diagnostics).perform () = (.ok (), ()) := by
  induction diagnostics with
  | nil => rfl
  | cons g diagnostics ih => exact ih

/-- The value in front of the null value is answered, and it is the only message. -/
theorem reading_ends_at_second :
    let r : Reader := .ofSource
      ⟨[oneFrame, nullFrame, oneFrame].flatMap WholeFrame.bytes ++ [], .constant 0, 0, false⟩
    r.messages.1 = [.int 1] ∧
      mute.run none r ⟨(), []⟩ = mute.run none r.next ⟨(), notObjectFrame⟩ := by
  intro r
  have whole : r.source.unread
      = [oneFrame, nullFrame, oneFrame].flatMap WholeFrame.bytes ++ [] := rfl
  obtain ⟨-, -, messages, answered, -⟩ := reading_ends mute whole
  constructor
  · refine (messages [oneFrame] [oneFrame] nullFrame [.int 1] rfl ?_ (by simp [Json.isNull])
      decodeBody_null).1
    rw [List.map_singleton, decodeBody_one]
    rfl
  · exact answered 0 oneFrame (.int 1) rfl decodeBody_one rfl (by simp) ⟨(), []⟩ ()
      (perform_enter_mute _)

/-- **The null value ends the reading** although a whole frame follows: there are no messages, the
loop is finished with nothing written, and the frame behind is left on the stream. -/
theorem null_ends_reading :
    let r : Reader := .ofSource ⟨nullFrame.bytes ++ oneFrame.bytes, .constant 0, 0, false⟩
    let ended := mute.run none r ⟨(), []⟩
    ¬ Reader.Exhausted r.source.unread ∧ r.messages.1 = [] ∧ ended.1 = .finished ∧
      ended.2.2.output = [] ∧ ended.2.1.source.unread = oneFrame.bytes := by
  intro r ended
  have whole : r.source.unread = nullFrame.bytes ++ oneFrame.bytes := rfl
  obtain ⟨-, received, left⟩ := Reader.receive_frame whole
  have run : ended = (.finished, r.next, ⟨(), []⟩) :=
    mute.run_of_null whole decodeBody_null (perform_enter_mute _)
  rw [decodeBody_null] at received
  rw [run, Reader.messages_null received]
  exact ⟨Reader.not_exhausted nullFrame oneFrame.bytes, rfl, rfl, rfl, left⟩

end Dispatcher

end JustfileServer
