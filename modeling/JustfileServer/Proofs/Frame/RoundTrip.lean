import JustfileServer.Proofs.Frame.Receiving
import JustfileServer.Proofs.Json.RoundTrip
import JustfileServer.Proofs.Json.Surrogates

/-!
# What is sent is received

A value that is transmissible has a frame, and the body of the frame decodes to the value
(`exists_frame_of_send`).  So the messages on a stream that frames were written to one after another
are just the values that they were written for, in order, and nothing of the stream is left
(`messages_of_send`).
-/

namespace JustfileServer

/-- A value that is sent as a message and received as the same: the reader gives back what the
writer wrote for it, it is not taken for the end of the stream, its text has an encoding, and the
encoding is not taken for a damaged header's. -/
structure Json.IsTransmissible (v : Json) : Prop where
  exact : v.IsExact
  notNull : v.isNull = false
  scalar : v.hasSurrogate = false
  fits : (Utf8.encode v.render).length ≤ maxBodyLength

/-! ## Bodies -/

/-- A text without surrogates that can be read makes a body. -/
theorem decodeBody_of_ofText {t : Text} {v : Json} (scalar : t.hasSurrogate = false)
    (read : Json.ofText t = .ok v) : decodeBody (Utf8.encode t) = .value v := by
  rw [Text.hasSurrogate_eq_false_iff] at scalar
  have decoded : Utf8.decode .scalars (Utf8.encode t) = .ok t :=
    Utf8.decode_encode fun c hc => by simp [Utf8.Repertoire.admits, scalar c hc]
  simp only [decodeBody, decoded, read]

theorem decodeBody_encode {v : Json} (exact : v.IsExact) (scalar : v.hasSurrogate = false) :
    decodeBody (Utf8.encode v.render) = .value v :=
  decodeBody_of_ofText (by rw [Json.hasSurrogate_render, scalar]) (Json.ofText_render exact)

theorem encode_render_ne_nil {v : Json} (exact : v.IsExact) : Utf8.encode v.render ≠ [] := by
  obtain ⟨c, u, hr, ascii, -⟩ := Json.render_eq_cons exact
  simp [hr, Utf8.encode, CodePoint.utf8, ascii]

/-- What is sent for a value is a whole frame whose body decodes to the value. -/
theorem exists_frame_of_send {v : Json} (h : v.IsTransmissible) :
    ∃ f : WholeFrame, Frame.send v = .ok f.bytes ∧ decodeBody f.body = .value v :=
  ⟨.written (Utf8.encode v.render) (encode_render_ne_nil h.exact) h.fits,
    Frame.send_eq_ok h.exact.shortIntegers h.scalar, decodeBody_encode h.exact h.scalar⟩

/-! ## Streams -/

namespace Reader

variable {r : Reader}

theorem messages_value {v : Json} (given : r.receive.received = .value v)
    (notNull : v.isNull = false) :
    r.messages = (v :: r.next.messages.1, r.next.messages.2) := by
  rw [messages]
  split
  · rename_i w hw
    obtain rfl : v = w := by
      rw [given] at hw
      exact Received.value.inj hw
    rw [if_neg (by simp [notNull])]
    rfl
  · rename_i other
    exact absurd given (other v)

/-- At the end of the stream there is no message. -/
theorem messages_end (ended : r.source.unread = []) (patient : r.source.interrupts = false) :
    r.messages.1 = [] ∧ r.messages.2.received = .finished ∧
      r.messages.2.reader.source.unread = [] := by
  have nothing : r.receive.received = .finished ∧ r.receive.reader.source.unread = [] := by
    simp [receive, ended, takeBlock, HeaderBlock.length?, patient]
  rw [messages]
  split
  · rename_i v hv
    rw [nothing.1] at hv
    cases hv
  · exact ⟨rfl, nothing⟩

/-- The messages of frames that decode to certain values are these values. -/
theorem messages_frames {frames : List WholeFrame} {vs : List Json}
    (h : r.source.unread = frames.flatMap WholeFrame.bytes) (patient : r.source.interrupts = false)
    (decoded : frames.map (fun f => decodeBody f.body) = vs.map .value)
    (notNull : ∀ v ∈ vs, v.isNull = false) :
    r.messages.1 = vs ∧ r.messages.2.received = .finished ∧
      r.messages.2.reader.source.unread = [] := by
  induction vs generalizing r frames with
  | nil =>
      obtain rfl : frames = [] := List.map_eq_nil_iff.1 decoded
      exact messages_end h patient
  | cons v vs ih =>
      cases frames with
      | nil => cases decoded
      | cons f frames =>
          rw [List.map_cons, List.map_cons, List.cons.injEq] at decoded
          obtain ⟨-, given, left⟩ := receive_frame (f := f) h
          obtain ⟨values, ended, nothing⟩ := ih left ((interrupts_receive r).trans patient)
            decoded.2 fun w hw => notNull w (List.mem_cons_of_mem _ hw)
          rw [messages_value (given.trans decoded.1) (notNull v (List.mem_cons_self ..))]
          exact ⟨by rw [← values]; rfl, ended, nothing⟩

/-- **What is sent is received.**  The frames of transmissible values, written one after another and
then read from the stream, whatever number of bytes each read gives, give just these values in
order, and then the end of the stream with no byte left. -/
theorem messages_of_send {vs : List Json} (h : ∀ v ∈ vs, v.IsTransmissible) (schedule : Schedule) :
    ∃ sent, vs.mapM Frame.send = .ok sent ∧
      let reading := (ofSource ⟨sent.flatten, schedule, 0, false⟩).messages
      reading.1 = vs ∧ reading.2.received = .finished ∧
        reading.2.reader.source.unread = [] := by
  obtain ⟨frames, sent, decoded⟩ : ∃ frames : List WholeFrame,
      vs.mapM Frame.send = .ok (frames.map WholeFrame.bytes) ∧
        frames.map (fun f => decodeBody f.body) = vs.map .value := by
    induction vs with
    | nil => exact ⟨[], rfl, rfl⟩
    | cons v vs ih =>
        obtain ⟨f, sent, decoded⟩ := exists_frame_of_send (h v (List.mem_cons_self ..))
        obtain ⟨frames, later, values⟩ := ih fun w hw => h w (List.mem_cons_of_mem _ hw)
        refine ⟨f :: frames, ?_, by rw [List.map_cons, decoded, values, List.map_cons]⟩
        rw [List.mapM_cons, sent, later]
        rfl
  refine ⟨_, sent, messages_frames ?_ rfl decoded fun v hv => (h v hv).notNull⟩
  rw [List.flatMap_def]
  rfl

/-- An object with a quoted name and nested values, and a bare integer, read byte by byte. -/
theorem messages_of_send_pair :
    let vs : List Json :=
      [.obj [(Text.ofString "a\"é", .arr [.null, .str (Text.ofString "\n😀"), .bool true])],
        .int (-7)]
    ∃ sent, vs.mapM Frame.send = .ok sent ∧
      let reading := (ofSource ⟨sent.flatten, .constant 0, 0, false⟩).messages
      reading.1 = vs ∧ reading.2.received = .finished ∧
        reading.2.reader.source.unread = [] := by
  intro vs
  refine messages_of_send ?_ _
  intro v hv
  rcases List.mem_pair.1 hv with rfl | rfl
  · refine ⟨⟨?_, by decide, ?_⟩, rfl, by decide, by decide⟩
    · simp [Json.parts, Json.partsOfMembers, Json.partsOfElements]
    · simp [Json.parts, Json.partsOfMembers, Json.partsOfElements]
  · refine ⟨⟨?_, by decide, ?_⟩, rfl, by decide, by decide⟩
    · simp [Json.parts]
    · simp [Json.parts]

end Reader

end JustfileServer
