import JustfileServer.Rpc.Dispatcher

/-!
# The parts of a message

What is done about a message depends on three of its members: an identifier that is not null makes
it a request, the method names the handler, and the parameters are passed on to it
(`Dispatcher.handle_eq`).
-/

namespace JustfileServer

namespace Message

/-- The identifier of a message, null when it has none. -/
def id : Json → Json
  | .obj members => (Json.member? members "id").getD .null
  | _ => .null

/-- The method of a message. -/
def method? : Json → Option Text
  | .obj members =>
      match Json.member? members "method" with
      | some (.str method) => some method
      | _ => none
  | _ => none

/-- The parameters of a message, an empty object when it has none. -/
def params : Json → Json
  | .obj members =>
      match (Json.member? members "params").getD .null with
      | .null => .obj []
      | v => v
  | _ => .null

end Message

namespace Dispatcher

variable {σ : Type} (d : Dispatcher σ)

/-- What is done about a message, by its method and its identifier. -/
theorem handle_eq (v : Json) :
    d.handle v = match Message.method? v with
      | some method =>
          if (Message.id v).isNull then do
            d.notify method (Message.params v)
            return none
          else do
            return some (← d.answer (Message.id v) method (Message.params v))
      | none =>
          match v with
          | .obj _ =>
              return if (Message.id v).isNull then none
                else some (invalidRequest (Message.id v) "Missing method field")
          | _ => return some (invalidRequest .null "Message must be a JSON object") := by
  cases v with
  | obj members =>
      simp only [handle, Message.method?, Message.id, Message.params]
      cases Json.member? members "method" with
      | none => rfl
      | some m => cases m <;> rfl
  | _ => rfl

end Dispatcher

end JustfileServer
