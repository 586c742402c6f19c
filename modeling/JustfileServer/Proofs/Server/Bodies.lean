import JustfileServer.Proofs.Json.LongIntegers
import JustfileServer.Proofs.Server.Failures

/-!
# What becomes of a body

A body that is not JSON is told to the client and does no harm to the session
(`run_of_undecodable`).  There is one kind of body of which this is not true: when it encodes a text
in which the reader comes to a long integer, the reader fails, and the main loop fails with it
(`run_of_failed`).  `bodies_reported` says this of every reader, every frame and every server that
is serving; `session_ends_at_long_integer` is a session that is ended so.
-/

namespace JustfileServer

/-- **A body is reported** as it should be: it is received as the value of the JSON that it encodes,
or as an error with the code for what cannot be parsed, when it encodes none. -/
inductive Received.Reports (body : Bytes) : Received → Prop
  | value {t : Text} {v : Json} : Utf8.decode .scalars body = .ok t → Json.ofText t = .ok v →
      Reports body (.value v)
  | undecodable {e : RpcError} : e.code = RpcError.parseCode →
      (∀ t v, Utf8.decode .scalars body = .ok t → Json.ofText t ≠ .ok v) →
      Reports body (.undecodable e)

/-- A body encodes a text in which the reader of JSON comes to a long integer. -/
def EncodesLongInteger (body : Bytes) (count : Nat) : Prop :=
  ∃ t, Utf8.decode .scalars body = .ok t ∧ Json.ComesToLongInteger t count

variable {body : Bytes} {count : Nat}

/-- A body is reported, unless the reader comes to a long integer in it. -/
theorem reports_decodeBody (short : ¬ ∃ count, EncodesLongInteger body count) :
    (decodeBody body).Reports body := by
  unfold decodeBody
  cases decoded : Utf8.decode .scalars body with
  | error f =>
      refine .undecodable rfl fun t v given => ?_
      rw [decoded] at given
      cases given
  | ok t =>
      dsimp only
      cases parsed : Json.ofText t with
      | ok v => exact .value decoded parsed
      | error fault =>
          cases fault with
          | malformed m =>
              refine .undecodable rfl fun t' v given read => ?_
              rw [decoded] at given
              cases given
              rw [parsed] at read
              cases read
          | tooManyDigits count =>
              exact absurd ⟨count, t, decoded, Json.ofText_eq_tooManyDigits_iff.1 parsed⟩ short

theorem decodeBody_of_encodesLongInteger (h : EncodesLongInteger body count) :
    decodeBody body = .failed (.tooManyDigits count) := by
  obtain ⟨t, decoded, here⟩ := h
  rw [decodeBody, decoded]
  dsimp only
  rw [Json.ofText_eq_tooManyDigits_iff.2 here]

/-- More digits than are read, the first of them no zero, are a long integer by themselves. -/
theorem encodesLongInteger_of_digits {digits : Bytes}
    (all : ∀ b ∈ digits, Numeral.isDigit (.ofByte b) = true) (first : digits.head? ≠ some 0x30)
    (long : Numeral.maxDigits < digits.length) : EncodesLongInteger digits digits.length := by
  have small : ∀ b ∈ digits, b.toNat < 0x80 := by
    intro b hb
    have bounds := Json.bounds_of_isDigit (all b hb)
    rw [CodePoint.val_ofByte] at bounds
    omega
  have decoded : Utf8.decode .scalars digits = .ok (digits.map CodePoint.ofByte) := by
    have back := Utf8.decode_encode (r := .scalars) (t := digits.map CodePoint.ofByte)
      (by simp [Utf8.Repertoire.admits])
    rwa [Utf8.encode_map_ofByte small] at back
  have noZero : (digits.map CodePoint.ofByte).head? ≠ some (.ofChar '0') := by
    rw [List.head?_map]
    intro zero
    obtain ⟨b, hb, same⟩ := Option.map_eq_some_iff.1 zero
    obtain rfl : b = 0x30 := CodePoint.ofByte_injective same
    exact first hb
  rw [← List.length_map CodePoint.ofByte] at long ⊢
  exact ⟨_, decoded, Json.comesToLongInteger_of_digits (by simpa using all) noZero long⟩

namespace Server

variable {r : Reader} {f : WholeFrame} {rest : Bytes} {x : Exchange Server}

/-- The report about a frame is entered, and then its body is dealt with. -/
theorem exists_turn_eq (h : r.source.unread = f.bytes ++ rest) (serving : x.state.IsServing) :
    ∃ s : Server, s.IsServing ∧ dispatcher.turn stopPredicate r.receive x
      = Dispatcher.conclude
          ((dispatcher.deal stopPredicate (decodeBody f.body)).perform ⟨s, x.output⟩) := by
  obtain ⟨reported, received, -⟩ := Reader.receive_frame h
  obtain ⟨s, entered, serving'⟩ := perform_enter f.diagnostics
    (fun g hg => hasSurrogate_message_of_mem_diagnostics hg) serving
  refine ⟨s, serving', ?_⟩
  rw [Dispatcher.turn_eq, Dispatcher.perform_report, reported, entered, received]

/-- **An undecodable body is answered**, and the loop goes on behind its frame. -/
theorem run_of_undecodable (h : r.source.unread = f.bytes ++ rest) (serving : x.state.IsServing)
    {e : RpcError} (undecodable : decodeBody f.body = .undecodable e) :
    ∃ s frame, s.IsServing ∧ Frame.send (refusal e) = .ok frame ∧
      dispatcher.run stopPredicate r x
        = dispatcher.run stopPredicate r.next ⟨s, x.output ++ frame⟩ := by
  obtain ⟨s, serving', turn⟩ := exists_turn_eq h serving
  obtain ⟨frame, sent⟩ := exists_send_refusal undecodable
  obtain ⟨reason, words, rfl⟩ := eq_undecodableError undecodable
  obtain ⟨s', entered, goesOn⟩ : ∃ s', (dispatcher.enterUndecodable
      (undecodableError reason)).perform s = (.ok (), s') ∧ s'.IsServing :=
    perform_log_ok (by simp [undecodableError, words]) serving'
  refine ⟨s', frame, goesOn, sent, ?_⟩
  have noted : (Exchange.onState (dispatcher.enterUndecodable (undecodableError reason))).perform
      ⟨s, x.output⟩ = (.ok (), (⟨s', x.output⟩ : Exchange Server)) := by
    rw [Exchange.perform_onState, entered]
  have dealt : (dispatcher.deal stopPredicate (.undecodable (undecodableError reason))).perform
      ⟨s, x.output⟩ = (.ok none, ⟨s', x.output ++ frame⟩) := by
    rw [Dispatcher.deal, ← Dispatcher.enterUndecodable, Action.perform_bind_ok noted, ← refusal,
      Action.perform_bind_ok (Exchange.perform_write_ok sent _)]
    rfl
  rw [undecodable, dealt] at turn
  exact Dispatcher.run_of_turn_none h turn

/-- **A body that fails ends the loop**, and nothing is written for it. -/
theorem run_of_failed (h : r.source.unread = f.bytes ++ rest) (serving : x.state.IsServing)
    {fault : Fault} (failed : decodeBody f.body = .failed fault) :
    ∃ s : Server, s.IsServing ∧
      dispatcher.run stopPredicate r x = (.failed fault, r.next, ⟨s, x.output⟩) := by
  obtain ⟨s, serving', turn⟩ := exists_turn_eq h serving
  rw [failed] at turn
  exact ⟨s, serving', Dispatcher.run_of_turn_some turn⟩

/-- **What becomes of a body.**  Whatever the reader, a whole frame is taken off the stream.  Its
body is reported, as a value or as a parse error, if and only if the JSON reader comes to no long
integer in it; otherwise receiving it fails.  In the main loop of a server that is serving a parse
error is answered and the loop goes on behind the frame, while the failure ends the loop with
nothing written for the frame. -/
theorem bodies_reported (h : r.source.unread = f.bytes ++ rest) :
    r.next.source.unread = rest ∧
    (r.receive.received.Reports f.body ↔ ¬ ∃ count, EncodesLongInteger f.body count) ∧
    (∀ count, EncodesLongInteger f.body count →
      r.receive.received = .failed (.tooManyDigits count)) ∧
    ∀ x : Exchange Server, x.state.IsServing →
      (∀ e, r.receive.received = .undecodable e → ∃ s frame, s.IsServing ∧
        Frame.send (refusal e) = .ok frame ∧ dispatcher.run stopPredicate r x
          = dispatcher.run stopPredicate r.next ⟨s, x.output ++ frame⟩) ∧
      ∀ fault, r.receive.received = .failed fault → ∃ s : Server, s.IsServing ∧
        dispatcher.run stopPredicate r x = (.failed fault, r.next, ⟨s, x.output⟩) := by
  obtain ⟨-, received, left⟩ := Reader.receive_frame h
  rw [received]
  refine ⟨left, ⟨?_, reports_decodeBody⟩, fun count => decodeBody_of_encodesLongInteger, ?_⟩
  · rintro reported ⟨count, long⟩
    rw [decodeBody_of_encodesLongInteger long] at reported
    cases reported
  · intro x serving
    exact ⟨fun e => run_of_undecodable h serving, fun fault => run_of_failed h serving⟩

/-- A body that is not UTF-8 is reported as a parse error, and the loop goes on. -/
theorem bodies_reported_wrong_byte :
    let f : WholeFrame := .written [0xFF] (by decide) (by decide)
    let r : Reader := .ofSource ⟨f.bytes ++ [], .constant 0, 0, false⟩
    r.source.unread = f.bytes ++ [] ∧ ∃ e, e.code = RpcError.parseCode ∧
      r.receive.received = .undecodable e ∧ ∃ s frame,
        dispatcher.run stopPredicate r ⟨opened false, []⟩
          = dispatcher.run stopPredicate r.next ⟨s, frame⟩ := by
  intro f r
  have whole : r.source.unread = f.bytes ++ [] := rfl
  have wrong : (Utf8.decode .scalars f.body).toOption = none := by decide +kernel
  obtain ⟨-, reports, -, loop⟩ := bodies_reported whole
  have reported : r.receive.received.Reports f.body := by
    rw [reports]
    rintro ⟨count, t, decoded, -⟩
    rw [decoded] at wrong
    cases wrong
  refine ⟨whole, ?_⟩
  generalize given : r.receive.received = received at reported
  cases reported with
  | value decoded =>
      rw [decoded] at wrong
      cases wrong
  | @undecodable e code =>
      obtain ⟨s, frame, -, -, run⟩ := (loop ⟨opened false, []⟩ (isServing_opened false)).1 e given
      exact ⟨e, code, rfl, s, frame, run⟩

/-- **A long integer ends the session.**  The first body is 4301 times the digit one.  The reader
gives neither a value nor an error with a code, nothing is written, and the request behind is not
read. -/
theorem session_ends_at_long_integer :
    let body : Bytes := List.replicate 4301 0x31
    let behind := Frame.ofBody (Utf8.encode "\x7b\"id\":2,\"method\":\"initialize\"\x7d")
    let source : ByteSource := ⟨Frame.ofBody body ++ behind, .constant 0, 0, false⟩
    let ended := session false source
    (Reader.ofSource source).receive.received = .failed (.tooManyDigits 4301) ∧
      ended.1 = .failed (.tooManyDigits 4301) ∧ ended.2.2.output = [] ∧
        ended.2.1.source.unread = behind := by
  intro body behind source ended
  have size : body.length = 4301 := List.length_replicate
  have long : EncodesLongInteger body body.length := by
    apply encodesLongInteger_of_digits
    · intro b hb
      rw [(List.mem_replicate.1 hb).2]
      decide
    · rw [List.head?_replicate]
      decide
    · rw [size]
      decide
  rw [size] at long
  let f : WholeFrame := .written body (List.ne_nil_of_length_pos (by rw [size]; decide))
    (by rw [size]; decide)
  have whole : (Reader.ofSource source).source.unread = f.bytes ++ behind := rfl
  have failed : decodeBody f.body = .failed (.tooManyDigits 4301) :=
    decodeBody_of_encodesLongInteger long
  obtain ⟨-, received, left⟩ := Reader.receive_frame whole
  rw [← Reader.next] at left
  obtain ⟨s, -, run⟩ := run_of_failed (x := ⟨opened false, []⟩) whole (isServing_opened false)
    failed
  have session : ended = finish _ := session_eq false source
  rw [session, run, received]
  exact ⟨failed, rfl, rfl, left⟩

end Server

end JustfileServer
