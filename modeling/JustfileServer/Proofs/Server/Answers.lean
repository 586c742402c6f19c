import JustfileServer.Proofs.Rpc.Messages
import JustfileServer.Proofs.Rpc.Replies
import JustfileServer.Proofs.Server.Containment

/-!
# How the server answers a message

A serving server handles every message, whatever its content, without a fault of its own, and goes
on serving unless the message ends the session (`handle_contained`).  A message with an identifier
gets a reply with that identifier.  What is in the reply comes from the client in three places: the
identifier, the name of a method that the server does not know, and the name of a document in which
definitions were found; a surrogate in one of them is what keeps the reply from being sent
(`Unsendable`), and nothing else does.
-/

namespace JustfileServer

/-! ## Messages -/

namespace Message

/-- Is it a request for a shutdown, or the notification of an exit? -/
def EndsSession (v : Json) : Prop :=
  method? v = some (if (id v).isNull then "exit" else "shutdown")

theorem isReadable_member {members : List (Text × Json)} (h : (Json.obj members).IsReadable)
    (name : Text) : ((Json.member? members name).getD .null).IsReadable := by
  cases hm : Json.member? members name with
  | none => exact Json.isReadable_null
  | some w => exact h.member? hm

theorem isReadable_params {v : Json} (h : v.IsReadable) : (params v).IsReadable := by
  cases v with
  | obj members =>
      simp only [params]
      split
      · exact Json.isReadable_obj_nil
      · exact isReadable_member h _
  | _ => exact Json.isReadable_null

theorem isReadable_id {v : Json} (h : v.IsReadable) : (id v).IsReadable := by
  cases v with
  | obj members => exact isReadable_member h _
  | _ => exact Json.isReadable_null

end Message

namespace Server

variable {s : Server} {v params : Json} {method : Text}

/-! ## The methods that the server knows -/

theorem lookup_requests {h : RequestHandler Server}
    (found : Dispatcher.lookup method dispatcher.requests = some h) :
    method.hasSurrogate = false ∧
      ((method = "textDocument/hover" ∧ h = describeWord) ∨
        (method = "textDocument/definition" ∧ h = findDefinitions) ∨
        (method = "shutdown" ∧ h = shutDown) ∨ (method = "initialize" ∧ h = greet)) := by
  simp only [dispatcher, Dispatcher.onRequest, Dispatcher.onNotification, Dispatcher.empty,
    Dispatcher.lookup] at found
  split_ifs at found with hover definition shutdown greeting
  · cases found
    subst hover
    exact ⟨by decide, .inl ⟨rfl, rfl⟩⟩
  · cases found
    subst definition
    exact ⟨by decide, .inr (.inl ⟨rfl, rfl⟩)⟩
  · cases found
    subst shutdown
    exact ⟨by decide, .inr (.inr (.inl ⟨rfl, rfl⟩))⟩
  · cases found
    subst greeting
    exact ⟨by decide, .inr (.inr (.inr ⟨rfl, rfl⟩))⟩

theorem lookup_notifications {h : NotificationHandler Server}
    (found : Dispatcher.lookup method dispatcher.notifications = some h) :
    method.hasSurrogate = false ∧
      ((method = "textDocument/didClose" ∧ h = closeDocument) ∨
        (method = "textDocument/didChange" ∧ h = changeDocument) ∨
        (method = "textDocument/didOpen" ∧ h = openDocument) ∨
        (method = "exit" ∧ h = leave) ∨ (method = "initialized" ∧ h = confirm)) := by
  simp only [dispatcher, Dispatcher.onRequest, Dispatcher.onNotification, Dispatcher.empty,
    Dispatcher.lookup] at found
  split_ifs at found with close change opened exit initialized
  · cases found
    subst close
    exact ⟨by decide, .inl ⟨rfl, rfl⟩⟩
  · cases found
    subst change
    exact ⟨by decide, .inr (.inl ⟨rfl, rfl⟩)⟩
  · cases found
    subst opened
    exact ⟨by decide, .inr (.inr (.inl ⟨rfl, rfl⟩))⟩
  · cases found
    subst exit
    exact ⟨by decide, .inr (.inr (.inr (.inl ⟨rfl, rfl⟩)))⟩
  · cases found
    subst initialized
    exact ⟨by decide, .inr (.inr (.inr (.inr ⟨rfl, rfl⟩)))⟩

/-- A line without a surrogate is always entered, and the server goes on serving. -/
theorem perform_log_ok {line : Text} (scalar : line.hasSurrogate = false) (serving : s.IsServing) :
    ∃ s', (log line).perform s = (.ok (), s') ∧ s'.IsServing := by
  obtain ⟨journal, performed⟩ := exists_perform_log scalar s
  exact ⟨_, performed, ⟨serving.goesOn, serving.documents⟩⟩

/-! ## Notifications -/

/-- A notification that does not end the session is taken note of. -/
theorem perform_notify (serving : s.IsServing) (hp : params.IsReadable) (stays : method ≠ "exit") :
    ∃ s', (dispatcher.notify method params).perform s = (.ok (), s') ∧ s'.IsServing := by
  unfold Dispatcher.notify
  cases found : Dispatcher.lookup method dispatcher.notifications with
  | none => exact ⟨s, rfl, serving⟩
  | some h =>
      obtain ⟨scalar, known⟩ := lookup_notifications found
      have contained : Contained (h params) s fun _ => True := by
        rcases known with ⟨-, rfl⟩ | ⟨-, rfl⟩ | ⟨-, rfl⟩ | ⟨rfl, -⟩ | ⟨-, rfl⟩
        · exact contained_closeDocument serving hp
        · exact contained_changeDocument serving hp
        · exact contained_openDocument serving hp
        · exact absurd rfl stays
        · exact contained_confirm serving
      unfold Contained at contained
      dsimp only
      rw [Action.perform_tryCatch]
      rcases result : (h params).perform s with ⟨f | _, s'⟩
      · rw [result] at contained
        exact perform_log_ok (by simp [scalar, f.hasSurrogate_describe]) contained.1
      · rw [result] at contained
        exact ⟨s', rfl, contained.1⟩

/-! ## Requests -/

/-- The content of the answer to a request has a surrogate in it that came from the client. -/
inductive Echoes (s : Server) (method : Text) (params : Json) : Prop
  /-- The name of a method that the server does not know. -/
  | method : Dispatcher.lookup method dispatcher.requests = none → method.hasSurrogate = true →
      Echoes s method params
  /-- The name of the document in which definitions were found. -/
  | document {uri : Json} {ranges : List Range} : method = "textDocument/definition" →
      ((findDefinitions params).perform s).1
        = .ok (.ok (.arr (ranges.map (locationJson uri)))) →
      ranges ≠ [] → uri.hasSurrogate = true → Echoes s method params

/-- Every handler of a request but that of a shutdown is contained; only the places of definitions
have a surrogate in them, which is in the name of their document. -/
theorem contained_of_lookup_requests {h : RequestHandler Server} (serving : s.IsServing)
    (hp : params.IsReadable) (stays : method ≠ "shutdown")
    (found : Dispatcher.lookup method dispatcher.requests = some h) :
    Contained (h params) s fun outcome => ∃ result, outcome = .ok result ∧
      result.hasLongInteger = false ∧ (result.hasSurrogate = true →
        method = "textDocument/definition" ∧ ∃ uri ranges,
          result = .arr (List.map (locationJson uri) ranges) ∧ ranges ≠ [] ∧
            uri.hasSurrogate = true) := by
  obtain ⟨-, ⟨rfl, rfl⟩ | ⟨rfl, rfl⟩ | ⟨rfl, rfl⟩ | ⟨rfl, rfl⟩⟩ := lookup_requests found
  · refine (contained_describeWord serving hp).mono ?_
    rintro _ ⟨result, rfl, short, scalar⟩
    exact ⟨result, rfl, short, by simp [scalar]⟩
  · refine (contained_findDefinitions serving hp).mono ?_
    rintro _ ⟨result, rfl, short, echoes⟩
    exact ⟨result, rfl, short, fun surrogate => ⟨rfl, echoes surrogate⟩⟩
  · exact absurd rfl stays
  · refine (contained_greet serving).mono ?_
    rintro _ rfl
    have scalar : capabilities.hasSurrogate = false := by decide
    exact ⟨capabilities, rfl, by decide, by simp [scalar]⟩

/-- What a handler of a request gives is answered, and so is its fault. -/
theorem perform_answer_known {h : RequestHandler Server} {Q : Json → Prop} (id : Json)
    (found : Dispatcher.lookup method dispatcher.requests = some h)
    (contained : Contained (h params) s fun outcome => ∃ result, outcome = .ok result ∧ Q result) :
    ∃ outcome s', (dispatcher.answer id method params).perform s = (.ok ⟨id, outcome⟩, s') ∧
      s'.IsServing ∧
      ((∃ result, ((h params).perform s).1 = .ok (.ok result) ∧ Q result ∧
        outcome = .ok result) ∨ ∃ f, f.isForeign = false ∧ ((h params).perform s).1 = .error f ∧
          outcome = .error (handlerError f.message)) := by
  obtain ⟨scalar, -⟩ := lookup_requests found
  unfold Contained at contained
  unfold Dispatcher.answer
  rw [found]
  dsimp only
  rw [Action.perform_tryCatch, Action.perform_bind]
  rcases result : (h params).perform s with ⟨f | outcome, s'⟩
  · rw [result] at contained
    obtain ⟨serving, own⟩ := contained
    have line : Text.hasSurrogate (Text.ofString "Request " ++ method
        ++ Text.ofString " failed: " ++ f.describe) = false := by
      simp [scalar, f.hasSurrogate_describe]
    obtain ⟨s'', logged, serving⟩ := perform_log_ok line serving
    refine ⟨.error (handlerError f.message), s'', ?_, serving, .inr ⟨f, own, rfl, rfl⟩⟩
    cases f with
    | remote => cases own
    | _ => exact Action.perform_bind_ok logged _
  · rw [result] at contained
    obtain ⟨serving, r, rfl, hq⟩ := contained
    exact ⟨_, _, rfl, serving, .inl ⟨r, rfl, hq, rfl⟩⟩

/-- The faults of the server itself can be told to the client. -/
theorem hasSurrogate_handlerError {f : Fault} (own : f.isForeign = false) :
    (handlerError f.message).toJson.hasSurrogate = false := by
  rw [RpcError.hasSurrogate_toJson]
  simp [handlerError, Fault.hasSurrogate_message own]

theorem hasLongInteger_error (code : Int) (message : Text) {data : Json}
    (short : Json.isLongInteger (.int code) = false) (hd : data.hasLongInteger = false) :
    (RpcError.toJson ⟨code, message, data⟩).hasLongInteger = false := by
  rw [RpcError.hasLongInteger_toJson, short, hd]
  rfl

theorem hasSurrogate_locations {uri : Json} {ranges : List Range} (some : ranges ≠ [])
    (surrogate : uri.hasSurrogate = true) :
    (Json.arr (ranges.map (locationJson uri))).hasSurrogate = true := by
  obtain ⟨range, others, rfl⟩ := List.exists_cons_of_ne_nil some
  simp [locationJson, surrogate]

/-- Every request but one for a shutdown is answered; the answer has a surrogate in its content just
when it echoes one. -/
theorem perform_answer (id : Json) (serving : s.IsServing) (hp : params.IsReadable)
    (stays : method ≠ "shutdown") :
    ∃ reply s', (dispatcher.answer id method params).perform s = (.ok reply, s') ∧
      s'.IsServing ∧ reply.id = id ∧ reply.content.hasLongInteger = false ∧
      (reply.content.hasSurrogate = true ↔ Echoes s method params) := by
  cases found : Dispatcher.lookup method dispatcher.requests with
  | none =>
      unfold Dispatcher.answer
      rw [found]
      refine ⟨_, s, rfl, serving, rfl, hasLongInteger_error _ _ (by decide) rfl, ?_⟩
      rw [Reply.content, RpcError.hasSurrogate_toJson]
      constructor
      · intro surrogate
        exact .method found (by simpa using surrogate)
      · rintro (⟨-, surrogate⟩ | ⟨rfl, -⟩)
        · simp [surrogate]
        · cases found
  | some h =>
      obtain ⟨outcome, s', answered, serving', given⟩ := perform_answer_known id found
        (contained_of_lookup_requests serving hp stays found)
      refine ⟨_, s', answered, serving', rfl, ?_⟩
      rcases given with ⟨result, performed, ⟨short, echoes⟩, rfl⟩ | ⟨f, own, performed, rfl⟩
      · refine ⟨short, fun surrogate => ?_, ?_⟩
        · obtain ⟨rfl, uri, ranges, rfl, some, surrogate⟩ := echoes surrogate
          obtain rfl : findDefinitions = h := Option.some.inj found
          exact .document rfl performed some surrogate
        · rintro (⟨unknown, -⟩ | ⟨rfl, located, some, surrogate⟩)
          · rw [unknown] at found
            cases found
          · obtain rfl : findDefinitions = h := Option.some.inj found
            rw [performed] at located
            cases located
            exact hasSurrogate_locations some surrogate
      · refine ⟨hasLongInteger_error _ _ (by decide) rfl, fun surrogate => ?_, ?_⟩
        · rw [Reply.content, hasSurrogate_handlerError own] at surrogate
          cases surrogate
        · rintro (⟨unknown, -⟩ | ⟨rfl, located, -⟩)
          · rw [unknown] at found
            cases found
          · obtain rfl : findDefinitions = h := Option.some.inj found
            rw [performed] at located
            cases located

/-! ## Messages and their answers -/

/-- The answer to a message cannot be sent: it has an identifier, and either this or the content of
the answer has a surrogate in it. -/
def Unsendable (s : Server) (v : Json) : Prop :=
  (Message.id v).isNull = false ∧ ((Message.id v).hasSurrogate = true ∨
    ∃ method, Message.method? v = some method ∧ Echoes s method (Message.params v))

/-- What is written for a message. -/
inductive AnsweredBy (v : Json) : Bytes → Prop
  /-- A message with an identifier gets one reply with this identifier. -/
  | reply {outcome : Except RpcError Json} {frame : Bytes} : (Message.id v).isNull = false →
      Frame.send (Reply.toJson ⟨Message.id v, outcome⟩) = .ok frame → AnsweredBy v frame
  /-- An object without one gets none. -/
  | nothing : (Message.id v).isNull = true → v.kind = .obj → AnsweredBy v []
  /-- A message that is no object is refused. -/
  | refused {e : RpcError} {frame : Bytes} : v.kind ≠ .obj → Frame.send (refusal e) = .ok frame →
      AnsweredBy v frame

/-- What becomes of the reply to a message: it is sent, unless the answer cannot be. -/
inductive Settles (s : Server) (v : Json) : Option Reply → Prop
  | silent : ¬ Unsendable s v → AnsweredBy v [] → Settles s v none
  | sent {r : Reply} {frame : Bytes} : ¬ Unsendable s v → AnsweredBy v frame →
      Frame.send r.toJson = .ok frame → Settles s v (some r)
  | unsendable {r : Reply} {f : Fault} : Unsendable s v → Frame.send r.toJson = .error f →
      Settles s v (some r)

/-- The reply to a message with an identifier is kept from being sent by a surrogate in it. -/
theorem settles_reply {r : Reply} (given : (Message.id v).isNull = false)
    (same : r.id = Message.id v) (hid : (Message.id v).hasLongInteger = false)
    (hc : r.content.hasLongInteger = false)
    (echoes : r.content.hasSurrogate = true ↔
      ∃ method, Message.method? v = some method ∧ Echoes s method (Message.params v)) :
    Settles s v (some r) := by
  obtain ⟨id, outcome⟩ := r
  obtain rfl : id = Message.id v := same
  rcases Reply.send_cases hid hc with ⟨surrogate, f, refused⟩ | ⟨⟨scalarId, scalar⟩, frame, sent⟩
  · exact .unsendable ⟨given, surrogate.imp_right echoes.1⟩ refused
  · refine .sent ?_ (.reply given sent) sent
    rintro ⟨-, surrogate | echoed⟩
    · rw [surrogate] at scalarId
      cases scalarId
    · rw [echoes.2 echoed] at scalar
      cases scalar

/-- A message without an identifier has no answer that could not be sent. -/
theorem not_unsendable (null : (Message.id v).isNull = true) : ¬ Unsendable s v := by
  rintro ⟨given, -⟩
  rw [null] at given
  cases given

/-- What is no request is refused in the server's own words. -/
theorem content_invalidRequest (id : Json) {reason : Text} (words : reason.hasSurrogate = false) :
    (Dispatcher.invalidRequest id reason).content.hasSurrogate = false ∧
      (Dispatcher.invalidRequest id reason).content.hasLongInteger = false := by
  refine ⟨?_, hasLongInteger_error _ _ (by decide) rfl⟩
  rw [Dispatcher.invalidRequest, Reply.content, RpcError.hasSurrogate_toJson, words]
  rfl

/-- A message without a method is refused if it is no object, or else if it has an identifier. -/
theorem settles_of_method?_eq_none (readable : v.IsReadable) (hm : Message.method? v = none) :
    ∃ reply, (dispatcher.handle v).perform s = (.ok reply, s) ∧ Settles s v reply := by
  rw [Dispatcher.handle_eq, hm]
  by_cases object : v.kind = .obj
  · obtain ⟨members, rfl⟩ : ∃ members, v = .obj members := by
      cases v with
      | obj members => exact ⟨members, rfl⟩
      | _ => cases object
    refine ⟨_, rfl, ?_⟩
    split
    · rename_i null
      exact .silent (not_unsendable null) (.nothing null rfl)
    · rename_i given
      obtain ⟨scalar, short⟩ := content_invalidRequest (Message.id (.obj members))
        (Text.hasSurrogate_ofString "Missing method field")
      refine settles_reply (by simpa using given) rfl
        (Message.isReadable_id readable).hasLongInteger short ?_
      rw [scalar, hm]
      simp
  · have null : Message.id v = .null := by
      cases v with
      | obj => exact absurd rfl object
      | _ => rfl
    refine ⟨some (Dispatcher.invalidRequest .null "Message must be a JSON object"), ?_, ?_⟩
    · cases v with
      | obj => exact absurd rfl object
      | _ => rfl
    · obtain ⟨scalar, short⟩ := content_invalidRequest .null
        (Text.hasSurrogate_ofString "Message must be a JSON object")
      rcases Reply.send_cases Json.hasLongInteger_null short
        with ⟨surrogate | surrogate, -⟩ | ⟨-, frame, sent⟩
      · cases surrogate
      · rw [scalar] at surrogate
        cases surrogate
      · exact .sent (not_unsendable (by rw [null]; rfl)) (.refused object sent) sent

/-- **Every message is handled without a fault**, and the server goes on serving unless the message
ends the session. -/
theorem handle_contained (serving : s.IsServing) (readable : v.IsReadable)
    (stays : ¬ Message.EndsSession v) :
    ∃ reply s', (dispatcher.handle v).perform s = (.ok reply, s') ∧ s'.IsServing ∧
      Settles s v reply := by
  have hp := Message.isReadable_params readable
  cases hm : Message.method? v with
  | none =>
      obtain ⟨reply, performed, settled⟩ := settles_of_method?_eq_none (s := s) readable hm
      exact ⟨reply, s, performed, serving, settled⟩
  | some method =>
      rw [Dispatcher.handle_eq, hm]
      dsimp only
      split
      · rename_i null
        have object : v.kind = .obj := by
          cases v with
          | obj => rfl
          | _ => cases hm
        have other : method ≠ "exit" := by
          rintro rfl
          exact stays (by rw [Message.EndsSession, hm, null]; rfl)
        obtain ⟨s', performed, serving'⟩ := perform_notify serving hp other
        rw [Action.perform_bind_ok performed]
        exact ⟨none, s', rfl, serving', .silent (not_unsendable null) (.nothing null object)⟩
      · rename_i given
        rw [Bool.not_eq_true] at given
        have other : method ≠ "shutdown" := by
          rintro rfl
          exact stays (by rw [Message.EndsSession, hm, given]; rfl)
        obtain ⟨reply, s', performed, serving', same, short, echoes⟩ :=
          perform_answer (Message.id v) serving hp other
        rw [Action.perform_bind_ok performed]
        refine ⟨some reply, s', rfl, serving', ?_⟩
        refine settles_reply given same (Message.isReadable_id readable).hasLongInteger short ?_
        rw [echoes, hm]
        simp

end Server

end JustfileServer
