import JustfileServer.Proofs.Rpc.Actions

/-!
# What actions preserve

An action preserves a property of the state when the property still holds after it, also if the
action ends with a fault.  There is one rule for each way in which actions are put together.  What
the handlers of a dispatcher and its journal preserve is preserved by every message that it is
given (`Dispatcher.preserves_handle`).
-/

namespace JustfileServer

namespace Action

variable {σ α β : Type} {P : σ → Prop}

/-- A property of the state holds after the action if it did before. -/
def Preserves (P : σ → Prop) (a : Action σ α) : Prop := ∀ s, P s → P (a.perform s).2

namespace Preserves

theorem pure (v : α) : Preserves P (pure v : Action σ α) := fun _ h => h

theorem get : Preserves P (get : Action σ σ) := fun _ h => h

theorem modify {f : σ → σ} (h : ∀ s, P s → P (f s)) :
    Preserves P (modify f : Action σ PUnit) := h

theorem lift (e : Except Fault α) : Preserves P (liftM e : Action σ α) := by
  intro s h
  cases e <;> exact h

theorem bind {a : Action σ α} {g : α → Action σ β} (first : Preserves P a)
    (next : ∀ v, Preserves P (g v)) : Preserves P (a >>= g) := by
  intro s h
  have held := first s h
  rw [perform_bind]
  rcases result : a.perform s with ⟨f | v, s'⟩
  · rwa [result] at held
  · rw [result] at held
    exact next v s' held

/-- What follows a value that need not be there may make use of it. -/
theorem lift_bind {e : Except Fault α} {g : α → Action σ β}
    (next : ∀ v, e = .ok v → Preserves P (g v)) : Preserves P (liftM e >>= g) := by
  intro s h
  cases e with
  | error f => exact h
  | ok v => exact next v rfl s h

theorem tryCatch {a : Action σ α} {g : Fault → Action σ α} (tried : Preserves P a)
    (caught : ∀ f, Preserves P (g f)) : Preserves P (tryCatch a g) := by
  intro s h
  have held := tried s h
  rw [perform_tryCatch]
  rcases result : a.perform s with ⟨f | v, s'⟩
  · rw [result] at held
    exact caught f s' held
  · rwa [result] at held

theorem mapM {a : β → Action σ α} {l : List β} (each : ∀ b ∈ l, Preserves P (a b)) :
    Preserves P (l.mapM a) := by
  induction l with
  | nil => exact .pure []
  | cons b l ih =>
      rw [List.mapM_cons]
      refine .bind (each b (List.mem_cons_self ..)) fun v => ?_
      refine .bind (ih fun c hc => each c (List.mem_cons_of_mem _ hc)) fun vs => .pure _

end Preserves

end Action

namespace Dispatcher

variable {σ : Type} {d : Dispatcher σ} {P : σ → Prop}

theorem preserves_answer {id : Json} {method : Text} {params : Json}
    (log : ∀ line, (d.log line).Preserves P)
    (handler : ∀ h, lookup method d.requests = some h → (h params).Preserves P) :
    (d.answer id method params).Preserves P := by
  unfold answer
  cases found : lookup method d.requests with
  | none => exact .pure _
  | some h =>
      refine .tryCatch (.bind (handler h found) fun outcome => ?_) fun f => ?_
      · cases outcome <;> exact .pure _
      · cases f with
        | remote e => exact .pure _
        | _ => exact .bind (log _) fun _ => .pure _

theorem preserves_notify {method : Text} {params : Json} (log : ∀ line, (d.log line).Preserves P)
    (handler : ∀ h, lookup method d.notifications = some h → (h params).Preserves P) :
    (d.notify method params).Preserves P := by
  unfold notify
  cases found : lookup method d.notifications with
  | none => exact .pure _
  | some h => exact .tryCatch (handler h found) fun f => log _

/-- **A message preserves** what the handlers and the journal do. -/
theorem preserves_handle (log : ∀ line, (d.log line).Preserves P)
    (requests : ∀ method h params, lookup method d.requests = some h → (h params).Preserves P)
    (notifications : ∀ method h params, lookup method d.notifications = some h →
      (h params).Preserves P) (message : Json) : (d.handle message).Preserves P := by
  cases message with
  | obj members =>
      unfold handle
      dsimp only
      split
      · split
        · refine .bind (preserves_notify log fun h found => ?_) fun _ => .pure _
          exact notifications _ h _ found
        · refine .bind (preserves_answer log fun h found => ?_) fun _ => .pure _
          exact requests _ h _ found
      · exact .pure _
  | _ => exact .pure _

end Dispatcher

end JustfileServer
