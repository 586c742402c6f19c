import JustfileServer.Proofs.Rpc.Actions
import JustfileServer.Proofs.Rpc.Messages

/-!
# To whom a message goes, and what is replied

Handlers are registered one after another, and a message goes to the last one that is registered for
it (`Addressee`): under its method, for requests if the message has an identifier and for
notifications if it has none.

`Contract` is what becomes of a message then.  A reply is there just when one is asked for, and it
reports what the addressee did.  A fault of a handler stays inside; the only fault that gets out is
one of the journal, when it refuses the line that tells of the other (`contract_handle`).
-/

namespace JustfileServer

/-- What serves the messages of a method: a handler of requests, or one of notifications. -/
abbrev Handler (σ : Type) := RequestHandler σ ⊕ NotificationHandler σ

/-- The registration of a handler under the name of a method. -/
structure Registration (σ : Type) where
  method : Text
  handler : Handler σ

variable {σ α β : Type}

namespace Registration

/-- The dispatcher with the handler registered. -/
def addTo (d : Dispatcher σ) (r : Registration σ) : Dispatcher σ :=
  match r.handler with
  | .inl h => d.onRequest r.method h
  | .inr h => d.onNotification r.method h

/-- **A registration is for a message** of its method, if the handler takes messages with an
identifier, or without one, as this message is. -/
def IsFor (r : Registration σ) (message : Json) : Prop :=
  Message.method? message = some r.method ∧ (Message.id message).isNull = r.handler.isRight

instance (r : Registration σ) (message : Json) : Decidable (r.IsFor message) :=
  inferInstanceAs (Decidable (_ ∧ _))

end Registration

/-- The dispatcher after registrations, one after another. -/
def Dispatcher.registering (log : Text → Action σ Unit) (rs : List (Registration σ)) :
    Dispatcher σ :=
  rs.foldl Registration.addTo (.empty log)

/-- **The addressee of a message** among registrations: the last one that is for the message, with
its place, or nobody. -/
inductive Addressee (rs : List (Registration σ)) (message : Json) :
    Option (Nat × Registration σ) → Prop
  | last {before after : List (Registration σ)} {r : Registration σ} :
      rs = before ++ r :: after → r.IsFor message → (∀ later ∈ after, ¬ later.IsFor message) →
      Addressee rs message (some (before.length, r))
  | nobody : (∀ r ∈ rs, ¬ r.IsFor message) → Addressee rs message none

theorem exists_addressee (rs : List (Registration σ)) (message : Json) :
    ∃ addressee, Addressee rs message addressee := by
  induction rs with
  | nil => exact ⟨none, .nobody (by simp)⟩
  | cons r rs ih =>
      obtain ⟨_, @⟨before, after, other, rfl, isFor, others⟩ | others⟩ := ih
      · have whole : r :: (before ++ other :: after) = (r :: before) ++ other :: after := rfl
        exact ⟨_, .last whole isFor others⟩
      · by_cases isFor : r.IsFor message
        · have whole : r :: rs = [] ++ r :: rs := rfl
          exact ⟨_, .last whole isFor others⟩
        · exact ⟨none, .nobody (by simpa [isFor] using others)⟩

namespace Dispatcher

variable {d : Dispatcher σ} {message : Json}

/-! ## The handler for a message -/

/-- The handler that a message is given to. -/
def handlerFor (d : Dispatcher σ) (message : Json) : Option (Handler σ) :=
  match Message.method? message with
  | none => none
  | some method =>
      if (Message.id message).isNull then (lookup method d.notifications).map .inr
      else (lookup method d.requests).map .inl

theorem handlerFor_addTo (d : Dispatcher σ) (r : Registration σ) (message : Json) :
    (r.addTo d).handlerFor message
      = if r.IsFor message then some r.handler else d.handlerFor message := by
  obtain ⟨method, handler⟩ := r
  unfold handlerFor
  cases named : Message.method? message with
  | none => simp [Registration.IsFor, named]
  | some other =>
      cases null : (Message.id message).isNull <;> cases handler <;>
        simp [Registration.IsFor, named, null, Registration.addTo, onRequest, onNotification,
          lookup, eq_comm (a := other)] <;>
        split <;> rfl

/-- Registrations that are not for a message do not change to whom it goes. -/
theorem handlerFor_foldl {rs : List (Registration σ)} (others : ∀ r ∈ rs, ¬ r.IsFor message)
    (d : Dispatcher σ) : (rs.foldl Registration.addTo d).handlerFor message
      = d.handlerFor message := by
  induction rs generalizing d with
  | nil => rfl
  | cons r rs ih =>
      rw [List.foldl_cons, ih (fun r hr => others r (List.mem_cons_of_mem _ hr)),
        handlerFor_addTo, if_neg (others r (List.mem_cons_self ..))]

theorem handlerFor_registering {log : Text → Action σ Unit} {rs : List (Registration σ)}
    {addressee : Option (Nat × Registration σ)} (h : Addressee rs message addressee) :
    (registering log rs).handlerFor message = addressee.map fun a => a.2.handler := by
  cases h with
  | last whole isFor others =>
      rw [registering, whole, List.foldl_append, List.foldl_cons, handlerFor_foldl others,
        handlerFor_addTo, if_pos isFor]
      rfl
  | nobody others =>
      rw [registering, handlerFor_foldl others, handlerFor, empty]
      cases Message.method? message with
      | none => rfl
      | some method => dsimp only; split <;> rfl

theorem log_registering (log : Text → Action σ Unit) (rs : List (Registration σ)) :
    (registering log rs).log = log := by
  have kept (rs : List (Registration σ)) (d : Dispatcher σ) :
      (rs.foldl Registration.addTo d).log = d.log := by
    induction rs generalizing d with
    | nil => rfl
    | cons r rs ih =>
        rw [List.foldl_cons, ih]
        obtain ⟨method, handler⟩ := r
        cases handler <;> rfl
  exact kept rs (.empty log)

theorem handlerFor_eq_inl_iff {h : RequestHandler σ} :
    d.handlerFor message = some (.inl h) ↔ ∃ method, Message.method? message = some method ∧
      (Message.id message).isNull = false ∧ lookup method d.requests = some h := by
  unfold handlerFor
  cases Message.method? message with
  | none => simp
  | some method => cases (Message.id message).isNull <;> simp

theorem handlerFor_eq_inr_iff {h : NotificationHandler σ} :
    d.handlerFor message = some (.inr h) ↔ ∃ method, Message.method? message = some method ∧
      (Message.id message).isNull = true ∧ lookup method d.notifications = some h := by
  unfold handlerFor
  cases Message.method? message with
  | none => simp
  | some method => cases (Message.id message).isNull <;> simp

/-! ## What is done with it -/

/-- The reply to a message that is given to no handler. -/
def unserved (message : Json) : Option Reply :=
  match Message.method? message with
  | some method =>
      if (Message.id message).isNull then none
      else some ⟨Message.id message, .error ⟨RpcError.methodNotFoundCode,
        Text.ofString "Method not found: " ++ method, .null⟩⟩
  | none =>
      match message with
      | .obj _ =>
          if (Message.id message).isNull then none
          else some (invalidRequest (Message.id message) "Missing method field")
      | _ => some (invalidRequest .null "Message must be a JSON object")

section Parts

variable {method : Text} {id params : Json}

theorem answer_of_unknown (unknown : lookup method d.requests = none) :
    d.answer id method params = pure ⟨id, .error ⟨RpcError.methodNotFoundCode,
      Text.ofString "Method not found: " ++ method, .null⟩⟩ := by
  unfold answer
  rw [unknown]

theorem notify_of_unknown (unknown : lookup method d.notifications = none) :
    d.notify method params = pure () := by
  unfold notify
  rw [unknown]

theorem handle_of_request (named : Message.method? message = some method)
    (given : (Message.id message).isNull = false) :
    d.handle message
      = do return some (← d.answer (Message.id message) method (Message.params message)) := by
  rw [handle_eq, named]
  dsimp only
  rw [given]
  rfl

theorem handle_of_notification (named : Message.method? message = some method)
    (null : (Message.id message).isNull = true) :
    d.handle message = do d.notify method (Message.params message); return none := by
  rw [handle_eq, named]
  dsimp only
  rw [if_pos null]

theorem handle_of_nobody (h : d.handlerFor message = none) :
    d.handle message = pure (unserved message) := by
  unfold handlerFor at h
  unfold unserved
  cases named : Message.method? message with
  | none =>
      rw [handle_eq, named]
      cases message <;> rfl
  | some method =>
      rw [named] at h
      cases null : (Message.id message).isNull with
      | true =>
          rw [handle_of_notification named null, notify_of_unknown (by simpa [null] using h)]
          rfl
      | false =>
          rw [handle_of_request named null, answer_of_unknown (by simpa [null] using h)]
          rfl

/-- The journal refuses a line, with this fault. -/
def LogFails (log : Text → Action σ Unit) (f : Fault) : Prop :=
  ∃ line s, ((log line).perform s).1 = .error f

/-- What is answered to a request when its handler has done this. -/
def settled : Except Fault Outcome → Except RpcError Json
  | .ok (.ok result) => .ok result
  | .ok (.err reason) => .error (handlerError reason)
  | .error (.remote e) => .error e
  | .error f => .error (handlerError f.message)

theorem log_cases (d : Dispatcher σ) (line : Text) (s : σ) :
    ((d.log line).perform s).1 = .ok () ∨
      ∃ f, ((d.log line).perform s).1 = .error f ∧ LogFails d.log f := by
  cases entered : ((d.log line).perform s).1 with
  | ok _ => exact .inl rfl
  | error f => exact .inr ⟨f, rfl, line, s, entered⟩

/-- A request is answered with what its handler did, unless the line about a fault is refused. -/
theorem answer_cases {h : RequestHandler σ} (found : lookup method d.requests = some h) (s : σ) :
    ((d.answer id method params).perform s).1 = .ok ⟨id, settled ((h params).perform s).1⟩ ∨
      ∃ f, ((d.answer id method params).perform s).1 = .error f ∧ LogFails d.log f := by
  have logged (line : Text) (s : σ) (reply : Reply) :
      ((d.log line >>= fun _ => pure reply).perform s).1 = .ok reply ∨
        ∃ f, ((d.log line >>= fun _ => pure reply).perform s).1 = .error f ∧
          LogFails d.log f := by
    rw [Action.perform_bind]
    rcases entered : (d.log line).perform s with ⟨f | _, s'⟩
    · exact .inr ⟨f, rfl, line, s, by rw [entered]⟩
    · exact .inl rfl
  unfold answer
  rw [found]
  dsimp only
  rw [Action.perform_tryCatch, Action.perform_bind]
  rcases (h params).perform s with ⟨f | outcome, s'⟩
  · cases f with
    | remote e => exact .inl rfl
    | _ => exact logged ..
  · cases outcome <;> exact .inl rfl

/-- A notification is taken note of, unless the line about a fault is refused. -/
theorem notify_cases {h : NotificationHandler σ} (found : lookup method d.notifications = some h)
    (s : σ) : ((d.notify method params).perform s).1 = .ok () ∨
      ∃ f, ((d.notify method params).perform s).1 = .error f ∧ LogFails d.log f := by
  unfold notify
  rw [found]
  dsimp only
  rw [Action.perform_tryCatch]
  rcases (h params).perform s with ⟨f | _, s'⟩
  · exact d.log_cases _ s'
  · exact .inl rfl

end Parts

/-! ## Replies -/

/-- A value's member of a name. -/
def memberOf? (v : Json) (name : Text) : Option Json :=
  match v with
  | .obj members => Json.member? members name
  | _ => none

/-- **The form of a reply**: the version of the protocol, the identifier, and either the result or
the error, an object with the code, the message and the data, if there are any. -/
structure HasForm (r : Reply) (id : Json) : Prop where
  version : memberOf? r.toJson "jsonrpc" = some (.str "2.0")
  id : memberOf? r.toJson "id" = some id
  result : ∀ v, memberOf? r.toJson "result" = some v ↔ r.outcome = .ok v
  error : ∀ v, memberOf? r.toJson "error" = some v ↔ ∃ e, r.outcome = .error e ∧ v = e.toJson
  code : ∀ e, r.outcome = .error e → memberOf? e.toJson "code" = some (.int e.code)
  message : ∀ e, r.outcome = .error e → memberOf? e.toJson "message" = some (.str e.message)
  data : ∀ e, r.outcome = .error e →
    memberOf? e.toJson "data" = if e.data.isNull then none else some e.data

theorem hasForm (r : Reply) : HasForm r r.id := by
  have data (e : RpcError) :
      memberOf? e.toJson "data" = if e.data.isNull then none else some e.data := by
    unfold RpcError.toJson
    cases e.data.isNull <;> rfl
  obtain ⟨id, _ | result⟩ := r
  · refine ⟨rfl, rfl, fun v => ?_, fun v => ?_, fun _ _ => rfl, fun _ _ => rfl, fun e _ => data e⟩
    · exact ⟨nofun, nofun⟩
    · exact ⟨fun h => ⟨_, rfl, (Option.some.inj h).symm⟩, by rintro ⟨e, ⟨⟩, rfl⟩; rfl⟩
  · refine ⟨rfl, rfl, fun v => ?_, fun v => ?_, nofun, nofun, nofun⟩
    · exact ⟨fun h => congrArg _ (Option.some.inj h), by rintro ⟨⟩; rfl⟩
    · exact ⟨nofun, by rintro ⟨e, h, -⟩; cases h⟩

/-- **What a reply reports** about a message that came when the state was this. -/
inductive Reports (message : Json) (s : σ) :
    Option (Nat × Registration σ) → Except RpcError Json → Prop
  | notObject : message.kind ≠ .obj →
      Reports message s none (.error ⟨-32600, "Message must be a JSON object", .null⟩)
  | noMethod : message.kind = .obj → Message.method? message = none →
      Reports message s none (.error ⟨-32600, "Missing method field", .null⟩)
  | unknown {method : Text} : Message.method? message = some method → Reports message s none
      (.error ⟨-32601, Text.ofString "Method not found: " ++ method, .null⟩)
  /-- The handler gave a result. -/
  | result {place : Nat} {method : Text} {h : RequestHandler σ} {v : Json} :
      ((h (Message.params message)).perform s).1 = .ok (.ok v) →
      Reports message s (some (place, ⟨method, .inl h⟩)) (.ok v)
  /-- The handler gave a reason why there is no result. -/
  | refused {place : Nat} {method : Text} {h : RequestHandler σ} {reason : Text} :
      ((h (Message.params message)).perform s).1 = .ok (.err reason) →
      Reports message s (some (place, ⟨method, .inl h⟩))
        (.error ⟨-32000, "Handler error", .str reason⟩)
  /-- The handler failed and said with which error. -/
  | remote {place : Nat} {method : Text} {h : RequestHandler σ} {e : RpcError} :
      ((h (Message.params message)).perform s).1 = .error (.remote e) →
      Reports message s (some (place, ⟨method, .inl h⟩)) (.error e)
  /-- The handler failed in another way. -/
  | failed {place : Nat} {method : Text} {h : RequestHandler σ} {f : Fault} :
      ((h (Message.params message)).perform s).1 = .error f → (∀ e, f ≠ .remote e) →
      Reports message s (some (place, ⟨method, .inl h⟩))
        (.error ⟨-32000, "Handler error", .str f.message⟩)

theorem reports_settled {s : σ} {method : Text} {h : RequestHandler σ} (place : Nat) :
    Reports message s (some (place, ⟨method, .inl h⟩))
      (settled ((h (Message.params message)).perform s).1) := by
  cases done : ((h (Message.params message)).perform s).1 with
  | ok outcome =>
      cases outcome with
      | ok v => exact .result done
      | err reason => exact .refused done
  | error f =>
      cases f with
      | remote e => exact .remote done
      | _ => exact .failed done nofun

/-- **What becomes of a message**, given to whom it goes. -/
structure Contract (log : Text → Action σ Unit) (message : Json) (s : σ)
    (addressee : Option (Nat × Registration σ)) (result : Except Fault (Option Reply)) : Prop where
  /-- There is a reply if one is asked for, or if the message is no object. -/
  answered : ∀ reply, result = .ok reply →
    (reply.isSome ↔ message.kind ≠ .obj ∨ (Message.id message).isNull = false)
  /-- A fault of a handler does not get out. -/
  contained : ∀ f, result = .error f → LogFails log f
  form : ∀ reply, result = .ok (some reply) → HasForm reply (Message.id message)
  reports : ∀ reply, result = .ok (some reply) → Reports message s addressee reply.outcome

namespace Contract

variable {log : Text → Action σ Unit} {s : σ} {addressee : Option (Nat × Registration σ)}

theorem silent (object : message.kind = .obj) (null : (Message.id message).isNull = true) :
    Contract log message s addressee (.ok none) where
  answered := by
    rintro _ ⟨⟩
    simp [object, null]
  contained := nofun
  form := nofun
  reports := nofun

theorem reply {r : Reply} (asked : message.kind ≠ .obj ∨ (Message.id message).isNull = false)
    (same : r.id = Message.id message) (reports : Reports message s addressee r.outcome) :
    Contract log message s addressee (.ok (some r)) where
  answered := by
    rintro _ ⟨⟩
    simp [asked]
  contained := nofun
  form := by
    rintro _ ⟨⟩
    exact same ▸ hasForm r
  reports := by
    rintro _ ⟨⟩
    exact reports

theorem fault {f : Fault} (refused : LogFails log f) :
    Contract log message s addressee (.error f) where
  answered := nofun
  contained := by
    rintro _ ⟨⟩
    exact refused
  form := nofun
  reports := nofun

end Contract

theorem kind_of_method? {method : Text} (named : Message.method? message = some method) :
    message.kind = .obj := by
  cases message with
  | obj => rfl
  | _ => cases named

theorem contract_unserved (log : Text → Action σ Unit) (message : Json) (s : σ) :
    Contract log message s none (.ok (unserved message)) := by
  unfold unserved
  cases named : Message.method? message with
  | some method =>
      cases null : (Message.id message).isNull with
      | true => exact .silent (kind_of_method? named) null
      | false => exact .reply (.inr null) rfl (.unknown named)
  | none =>
      cases kind : message.kind with
      | obj =>
          obtain ⟨members, rfl⟩ : ∃ members, message = .obj members := by
            cases message with
            | obj members => exact ⟨members, rfl⟩
            | _ => cases kind
          cases null : (Message.id (.obj members)).isNull with
          | true => exact .silent kind null
          | false => exact .reply (.inr null) rfl (.noMethod kind named)
      | _ =>
          cases message with
          | obj => cases kind
          | _ => exact .reply (.inl nofun) rfl (.notObject nofun)

theorem fst_perform_bind_pure (a : Action σ α) (g : α → β) (s : σ) :
    ((a >>= fun v => pure (g v)).perform s).1 = (a.perform s).1.map g := by
  rw [Action.perform_bind]
  rcases a.perform s with ⟨_ | _, _⟩ <;> rfl

/-- A message is dealt with as it should be, whoever its addressee is. -/
theorem contract_handle {log : Text → Action σ Unit} {rs : List (Registration σ)}
    {addressee : Option (Nat × Registration σ)} (h : Addressee rs message addressee) (s : σ) :
    Contract log message s addressee (((registering log rs).handle message).perform s).1 := by
  have given : (registering log rs).handlerFor message = _ := handlerFor_registering h
  have journal := log_registering log rs
  generalize registering log rs = d at given journal ⊢
  subst journal
  obtain _ | ⟨place, method, handler | handler⟩ := addressee
  · rw [handle_of_nobody given]
    exact contract_unserved _ message s
  · obtain ⟨name, named, notNull, found⟩ := handlerFor_eq_inl_iff.1 given
    rw [handle_of_request named notNull, fst_perform_bind_pure]
    rcases answer_cases found s with done | ⟨f, done, refused⟩
    · rw [done]
      exact .reply (.inr notNull) rfl (reports_settled place)
    · rw [done]
      exact .fault refused
  · obtain ⟨name, named, null, found⟩ := handlerFor_eq_inr_iff.1 given
    rw [handle_of_notification named null, fst_perform_bind_pure (g := fun _ => none)]
    rcases notify_cases found s with done | ⟨f, done, refused⟩
    · rw [done]
      exact .silent (kind_of_method? named) null
    · rw [done]
      exact .fault refused

end Dispatcher

end JustfileServer
