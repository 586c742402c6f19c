import JustfileServer.Proofs.Rpc.Dispatching

/-!
# Which handlers are called

To see which handlers are called for a message, each of them is made to record its calls.  Nothing
else about the dispatcher changes by this (`Mirrors`), and the record shows one call of the addressee
and no other (`mirrors_handle`).  With what is replied, this is the contract of the dispatcher
(`dispatch_contract`).
-/

namespace JustfileServer

variable {σ α β : Type}

/-- A call of the handler that was registered at this place. -/
structure Call where
  place : Nat
  params : Json

/-- A state with the calls of handlers that have been made so far. -/
structure Recorded (σ : Type) where
  state : σ
  calls : List Call

namespace Recorded

/-- An action on the state alone. -/
def onState (a : Action σ α) : Action (Recorded σ) α := fun x =>
  ((a.perform x.state).1, { x with state := (a.perform x.state).2 })

/-- What a handler does, its call being recorded first. -/
def calling (place : Nat) (handler : Json → Action σ α) (params : Json) : Action (Recorded σ) α :=
  do
    modify fun x => { x with calls := x.calls ++ [⟨place, params⟩] }
    onState (handler params)

end Recorded

/-- The registration of the handler that does the same and records its calls. -/
def Registration.recorded (place : Nat) (r : Registration σ) : Registration (Recorded σ) :=
  ⟨r.method, r.handler.map (Recorded.calling place) (Recorded.calling place)⟩

/-- An action on recorded states does what another does on states, and these calls are made in it. -/
def Mirrors (a' : Action (Recorded σ) α) (a : Action σ α) (calls : List Call) : Prop :=
  ∀ x, a'.perform x = ((a.perform x.state).1, ⟨(a.perform x.state).2, x.calls ++ calls⟩)

namespace Mirrors

theorem pure (v : α) : Mirrors (pure v : Action (Recorded σ) α) (pure v : Action σ α) [] := by
  intro x
  simp

theorem onState (a : Action σ α) : Mirrors (Recorded.onState a) a [] := by
  rintro ⟨s, calls⟩
  rw [List.append_nil]
  rfl

theorem calling (place : Nat) (handler : Json → Action σ α) (params : Json) :
    Mirrors (Recorded.calling place handler params) (handler params) [⟨place, params⟩] :=
  fun _ => rfl

theorem bind {a' : Action (Recorded σ) α} {a : Action σ α} {g' : α → Action (Recorded σ) β}
    {g : α → Action σ β} {calls : List Call} (first : Mirrors a' a calls)
    (next : ∀ v, Mirrors (g' v) (g v) []) : Mirrors (a' >>= g') (a >>= g) calls := by
  intro x
  rw [Action.perform_bind, Action.perform_bind, first x]
  rcases a.perform x.state with ⟨f | v, s⟩
  · rfl
  · dsimp only
    rw [next v, List.append_nil]

theorem tryCatch {a' : Action (Recorded σ) α} {a : Action σ α}
    {g' : Fault → Action (Recorded σ) α} {g : Fault → Action σ α} {calls : List Call}
    (tried : Mirrors a' a calls) (caught : ∀ f, Mirrors (g' f) (g f) []) :
    Mirrors (tryCatch a' g') (tryCatch a g) calls := by
  intro x
  rw [Action.perform_tryCatch, Action.perform_tryCatch, tried x]
  rcases a.perform x.state with ⟨f | v, s⟩
  · dsimp only
    rw [caught f, List.append_nil]
  · rfl

end Mirrors

namespace Addressee

variable {rs : List (Registration σ)} {message : Json}

theorem isFor_recorded {r : Registration σ} {place : Nat} :
    (r.recorded place).IsFor message ↔ r.IsFor message := by
  obtain ⟨method, handler⟩ := r
  cases handler <;> rfl

theorem not_isFor_of_mem_mapIdx {f : Nat → Nat} (others : ∀ r ∈ rs, ¬ r.IsFor message)
    {r : Registration (Recorded σ)}
    (hr : r ∈ rs.mapIdx fun i => Registration.recorded (f i)) : ¬ r.IsFor message := by
  obtain ⟨i, inside, rfl⟩ := List.mem_mapIdx.1 hr
  rw [isFor_recorded]
  exact others _ (List.getElem_mem inside)

/-- That calls are recorded does not change to whom a message goes. -/
theorem recorded {addressee : Option (Nat × Registration σ)} (h : Addressee rs message addressee) :
    Addressee (rs.mapIdx Registration.recorded) message
      (addressee.map fun a => (a.1, a.2.recorded a.1)) := by
  cases h with
  | @last before after r whole isFor others =>
      have place : before.length = (before.mapIdx Registration.recorded).length := by simp
      have split : rs.mapIdx Registration.recorded = before.mapIdx Registration.recorded
          ++ r.recorded before.length
            :: after.mapIdx fun i => Registration.recorded (i + (before.length + 1)) := by
        simp [whole, List.mapIdx_append, List.mapIdx_cons, Nat.add_assoc, Nat.add_comm 1]
      rw [Option.map_some, place]
      refine .last (place ▸ split) (isFor_recorded.2 isFor) fun later hl => ?_
      exact not_isFor_of_mem_mapIdx others hl
  | nobody others => exact .nobody fun r hr => not_isFor_of_mem_mapIdx (f := id) others hr

end Addressee

namespace Dispatcher

variable {d : Dispatcher σ} {d' : Dispatcher (Recorded σ)} {message : Json} {place : Nat}
  {method : Text} {id params : Json}

theorem mirrors_answer {h : RequestHandler σ}
    (log : ∀ line, d'.log line = Recorded.onState (d.log line))
    (found : lookup method d.requests = some h)
    (found' : lookup method d'.requests = some (Recorded.calling place h)) :
    Mirrors (d'.answer id method params) (d.answer id method params) [⟨place, params⟩] := by
  unfold answer
  rw [found, found']
  refine .tryCatch (.bind (.calling place h params) fun outcome => ?_) fun f => ?_
  · cases outcome <;> exact .pure _
  · cases f with
    | remote e => exact .pure _
    | _ => exact .bind (log _ ▸ .onState _) fun _ => .pure _

theorem mirrors_notify {h : NotificationHandler σ}
    (log : ∀ line, d'.log line = Recorded.onState (d.log line))
    (found : lookup method d.notifications = some h)
    (found' : lookup method d'.notifications = some (Recorded.calling place h)) :
    Mirrors (d'.notify method params) (d.notify method params) [⟨place, params⟩] := by
  unfold notify
  rw [found, found']
  exact .tryCatch (.calling place h params) fun f => log _ ▸ .onState _

/-- The dispatcher whose handlers record their calls. -/
def recording (log : Text → Action σ Unit) (rs : List (Registration σ)) :
    Dispatcher (Recorded σ) :=
  registering (fun line => Recorded.onState (log line)) (rs.mapIdx Registration.recorded)

/-- **The addressee of a message is called once**, and no other handler is. -/
theorem mirrors_handle {rs : List (Registration σ)} {addressee : Option (Nat × Registration σ)}
    (log : Text → Action σ Unit) (h : Addressee rs message addressee) :
    Mirrors ((recording log rs).handle message) ((registering log rs).handle message)
      (addressee.toList.map fun a => ⟨a.1, Message.params message⟩) := by
  have given : (registering log rs).handlerFor message = _ := handlerFor_registering h
  have given' : (recording log rs).handlerFor message = _ := handlerFor_registering h.recorded
  have journal (line : Text) : (recording log rs).log line
      = Recorded.onState ((registering log rs).log line) := by
    rw [recording, log_registering, log_registering]
  obtain _ | ⟨place, name, handler | handler⟩ := addressee
  · rw [handle_of_nobody given, handle_of_nobody given']
    exact .pure _
  · obtain ⟨method, named, notNull, found⟩ := handlerFor_eq_inl_iff.1 given
    obtain ⟨method', named', -, found'⟩ := handlerFor_eq_inl_iff.1 given'
    obtain rfl : method = method' := Option.some.inj (named.symm.trans named')
    rw [handle_of_request named notNull, handle_of_request named notNull]
    exact .bind (mirrors_answer journal found found') fun _ => .pure _
  · obtain ⟨method, named, null, found⟩ := handlerFor_eq_inr_iff.1 given
    obtain ⟨method', named', -, found'⟩ := handlerFor_eq_inr_iff.1 given'
    obtain rfl : method = method' := Option.some.inj (named.symm.trans named')
    rw [handle_of_notification named null, handle_of_notification named null]
    exact .bind (mirrors_notify journal found found') fun _ => .pure _

/-- **The contract of the dispatcher.**  For all registrations, whatever the handlers do, every
message has an addressee or none: the last handler that was registered for it.  If the handlers
record their calls, then just the addressee is called, once and with the parameters of the message;
apart from the record nothing changes.  What comes out of it, `Contract` says. -/
theorem dispatch_contract (log : Text → Action σ Unit) (rs : List (Registration σ))
    (message : Json) (x : Recorded σ) :
    ∃ addressee result s, Addressee rs message addressee ∧
      ((registering log rs).handle message).perform x.state = (result, s) ∧
      ((recording log rs).handle message).perform x = (result, ⟨s, x.calls
        ++ addressee.toList.map fun a => ⟨a.1, Message.params message⟩⟩) ∧
      Contract log message x.state addressee result := by
  obtain ⟨addressee, h⟩ := exists_addressee rs message
  exact ⟨addressee, _, _, h, rfl, mirrors_handle log h x, contract_handle h x.state⟩

end Dispatcher

end JustfileServer
