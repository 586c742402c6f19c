import JustfileServer.Rpc.Fault

/-!
# Dispatching messages

A message with an identifier is a request and gets a reply; one without is a notification and gets
none.  Handlers are registered by method name, separately for the two, and the last registration
of a name counts.  A handler is an action on a state, which may fail after it has changed the
state.  Its failure never leaves the dispatcher: it becomes the error of the reply, or a line in
the journal.
-/

namespace JustfileServer

/-- An action on a state; when it fails, the changes that it has made remain. -/
abbrev Action (σ α : Type) := ExceptT Fault (StateM σ) α

namespace Action

/-- Carries an action out. -/
def perform {σ α : Type} (action : Action σ α) (s : σ) : Except Fault α × σ := action.run s

end Action

/-- What a request handler gives. -/
inductive Outcome
  /-- The result of the request. -/
  | ok (result : Json)
  /-- The request cannot be served, for this reason. -/
  | err (reason : Text)

/-- Serves a request with the given parameters. -/
abbrev RequestHandler (σ : Type) := Json → Action σ Outcome

/-- Takes note of a notification with the given parameters. -/
abbrev NotificationHandler (σ : Type) := Json → Action σ Unit

/-- The answer to a request. -/
structure Reply where
  id : Json
  outcome : Except RpcError Json

namespace Reply

/-- The object that goes over the wire: every reply names the protocol's version and the request,
and has either a result or an error. -/
def toJson (r : Reply) : Json :=
  let content : Text × Json :=
    match r.outcome with
    | .ok result => ("result", result)
    | .error e => ("error", e.toJson)
  .obj [("jsonrpc", .str "2.0"), ("id", r.id), content]

end Reply

/-- The error of a reply to a request that its handler did not serve. -/
def handlerError (reason : Text) : RpcError := ⟨RpcError.handlerCode, "Handler error", .str reason⟩

/-- The handlers that messages are given to, and the journal for what is not answered. -/
structure Dispatcher (σ : Type) where
  /-- Request handlers by method, the latest registration first. -/
  requests : List (Text × RequestHandler σ)
  /-- Notification handlers by method, the latest registration first. -/
  notifications : List (Text × NotificationHandler σ)
  /-- Enters a line in the journal. -/
  log : Text → Action σ Unit

namespace Dispatcher

variable {σ : Type}

/-- A dispatcher without handlers. -/
def empty (log : Text → Action σ Unit) : Dispatcher σ := ⟨[], [], log⟩

/-- Registers a request handler. -/
def onRequest (d : Dispatcher σ) (method : Text) (h : RequestHandler σ) : Dispatcher σ :=
  { d with requests := (method, h) :: d.requests }

/-- Registers a notification handler. -/
def onNotification (d : Dispatcher σ) (method : Text) (h : NotificationHandler σ) :
    Dispatcher σ :=
  { d with notifications := (method, h) :: d.notifications }

/-- The first entry under a name. -/
def lookup {α : Type} (name : Text) : List (Text × α) → Option α
  | [] => none
  | (n, a) :: rest => if n = name then some a else lookup name rest

/-- Answers a request. -/
def answer (d : Dispatcher σ) (id : Json) (method : Text) (params : Json) : Action σ Reply :=
  match lookup method d.requests with
  | none =>
      return ⟨id, .error ⟨RpcError.methodNotFoundCode, Text.ofString "Method not found: " ++ method,
        .null⟩⟩
  | some handler =>
      tryCatch
        (do
          match ← handler params with
          | .ok result => return ⟨id, .ok result⟩
          | .err reason => return ⟨id, .error (handlerError reason)⟩)
        fun
          | .remote e => return ⟨id, .error e⟩
          | fault => do
              d.log (Text.ofString "Request " ++ method ++ Text.ofString " failed: "
                ++ fault.describe)
              return ⟨id, .error (handlerError fault.message)⟩

/-- Passes a notification on; one that nothing handles is dropped. -/
def notify (d : Dispatcher σ) (method : Text) (params : Json) : Action σ Unit :=
  match lookup method d.notifications with
  | none => return ()
  | some handler =>
      tryCatch (handler params) fun fault =>
        d.log (Text.ofString "Notification " ++ method ++ Text.ofString " failed: "
          ++ fault.describe)

/-- The reply to a message that is no proper request. -/
def invalidRequest (id : Json) (reason : Text) : Reply :=
  ⟨id, .error ⟨RpcError.invalidRequestCode, reason, .null⟩⟩

/-- Handles a message: the reply, if it asks for one.  Parameters that are left out or null are
those of an empty object. -/
def handle (d : Dispatcher σ) (message : Json) : Action σ (Option Reply) :=
  match message with
  | .obj members =>
      let id := (Json.member? members "id").getD .null
      let params :=
        match (Json.member? members "params").getD .null with
        | .null => .obj []
        | v => v
      match Json.member? members "method" with
      | some (.str method) =>
          if id.isNull then do
            d.notify method params
            return none
          else do
            return some (← d.answer id method params)
      | _ => return if id.isNull then none else some (invalidRequest id "Missing method field")
  | _ => return some (invalidRequest .null "Message must be a JSON object")

end Dispatcher

end JustfileServer
