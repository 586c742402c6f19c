import JustfileServer.Frame.Reader
import JustfileServer.Proofs.Rpc.Faults
import JustfileServer.Rpc.Dispatcher

/-!
# Which replies can be sent

A reply without an integer that is too long is sent unless its identifier, its result or its error
has a surrogate in it (`Reply.send_cases`).  The error that answers an undecodable body has neither,
as its words are all the reader's own, so it is always sent (`exists_send_refusal`).
-/

namespace JustfileServer

theorem Json.eq_null_of_isNull {v : Json} (h : v.isNull = true) : v = .null := by
  cases v with
  | null => rfl
  | _ => cases h

namespace RpcError

theorem hasSurrogate_toJson (e : RpcError) :
    e.toJson.hasSurrogate = (e.message.hasSurrogate || e.data.hasSurrogate) := by
  cases h : e.data.isNull with
  | true => simp [toJson, Json.eq_null_of_isNull h, Json.isNull]
  | false => simp [toJson, h]

theorem hasLongInteger_toJson (e : RpcError) :
    e.toJson.hasLongInteger = (Json.isLongInteger (.int e.code) || e.data.hasLongInteger) := by
  cases h : e.data.isNull with
  | true => simp [toJson, Json.eq_null_of_isNull h, Json.isNull]
  | false => simp [toJson, h]

end RpcError

namespace Reply

/-- The value that a reply carries beside the identifier. -/
def content (r : Reply) : Json :=
  match r.outcome with
  | .ok result => result
  | .error e => e.toJson

theorem toJson_eq (r : Reply) : ∃ name : String, r.toJson
    = .obj [("jsonrpc", .str "2.0"), ("id", r.id), (Text.ofString name, r.content)] := by
  obtain ⟨id, outcome⟩ := r
  cases outcome with
  | ok result => exact ⟨"result", rfl⟩
  | error e => exact ⟨"error", rfl⟩

theorem hasSurrogate_toJson (r : Reply) :
    r.toJson.hasSurrogate = (r.id.hasSurrogate || r.content.hasSurrogate) := by
  obtain ⟨name, h⟩ := r.toJson_eq
  simp [h]

theorem hasLongInteger_toJson (r : Reply) :
    r.toJson.hasLongInteger = (r.id.hasLongInteger || r.content.hasLongInteger) := by
  obtain ⟨name, h⟩ := r.toJson_eq
  simp [h]

/-- A reply is sent unless there is a surrogate in it. -/
theorem send_cases {r : Reply} (hid : r.id.hasLongInteger = false)
    (hc : r.content.hasLongInteger = false) :
    ((r.id.hasSurrogate = true ∨ r.content.hasSurrogate = true) ∧
        ∃ f, Frame.send r.toJson = .error f) ∨
      ((r.id.hasSurrogate = false ∧ r.content.hasSurrogate = false) ∧
        ∃ frame, Frame.send r.toJson = .ok frame) := by
  have surrogates := r.hasSurrogate_toJson
  have short : r.toJson.hasLongInteger = false := by rw [r.hasLongInteger_toJson, hid, hc]; rfl
  cases h : r.toJson.hasSurrogate with
  | true =>
      rw [h] at surrogates
      exact .inl ⟨Bool.or_eq_true_iff.1 surrogates.symm, Frame.send_eq_error h⟩
  | false =>
      rw [h] at surrogates
      exact .inr ⟨Bool.or_eq_false_iff.1 surrogates.symm, _, Frame.send_eq_ok short h⟩

end Reply

/-! ## Undecodable bodies -/

theorem Json.Malformed.hasSurrogate_message (m : Json.Malformed) :
    m.message.hasSurrogate = false := by
  have words : m.cause.message.hasSurrogate = false := by cases m.cause <;> decide
  simp [Json.Malformed.message, words]

/-- The error about an undecodable body is in the reader's own words. -/
theorem eq_undecodableError {body : Bytes} {e : RpcError} (h : decodeBody body = .undecodable e) :
    ∃ reason, reason.hasSurrogate = false ∧ e = undecodableError reason := by
  unfold decodeBody at h
  split at h
  · rename_i f _
    exact ⟨_, f.hasSurrogate_message, (Received.undecodable.inj h).symm⟩
  · split at h
    · cases h
    · rename_i m _
      exact ⟨_, m.hasSurrogate_message, (Received.undecodable.inj h).symm⟩
    · cases h

/-- The reply to an undecodable body, of which no identifier is known. -/
def refusal (e : RpcError) : Json := Reply.toJson ⟨.null, .error e⟩

/-- **An undecodable body can always be answered.** -/
theorem exists_send_refusal {body : Bytes} {e : RpcError} (h : decodeBody body = .undecodable e) :
    ∃ frame, Frame.send (refusal e) = .ok frame := by
  obtain ⟨reason, words, rfl⟩ := eq_undecodableError h
  have code : Json.isLongInteger (.int RpcError.parseCode) = false := by decide
  refine ⟨_, Frame.send_eq_ok ?_ ?_⟩
  · rw [refusal, Reply.hasLongInteger_toJson, Reply.content, RpcError.hasLongInteger_toJson]
    simp [undecodableError, code]
  · rw [refusal, Reply.hasSurrogate_toJson, Reply.content, RpcError.hasSurrogate_toJson]
    simp [undecodableError, words]

end JustfileServer
