import JustfileServer.Rpc.Loop

/-!
# How actions are carried out

One equation for each way in which actions are put together says what carrying them out gives:
a later action begins in the state that an earlier one left, and a fault skips all that follows up
to the place where it is caught, with the changes that were made.
-/

namespace JustfileServer

namespace Action

variable {σ α β : Type} {a : Action σ α} {s s' : σ}

@[simp] theorem perform_pure (v : α) (s : σ) : (pure v : Action σ α).perform s = (.ok v, s) := rfl

@[simp] theorem perform_throw (f : Fault) (s : σ) :
    (throw f : Action σ α).perform s = (.error f, s) := rfl

/-- One action after another. -/
theorem perform_bind (a : Action σ α) (g : α → Action σ β) (s : σ) :
    (a >>= g).perform s = match a.perform s with
      | (.ok v, s') => (g v).perform s'
      | (.error f, s') => (.error f, s') := by
  unfold perform
  simp only [bind, ExceptT.bind, ExceptT.run, ExceptT.mk, StateT.bind]
  rcases (a s : Except Fault α × σ) with ⟨_ | _, _⟩ <;> rfl

theorem perform_bind_ok {v : α} (h : a.perform s = (.ok v, s')) (g : α → Action σ β) :
    (a >>= g).perform s = (g v).perform s' := by
  rw [perform_bind, h]

theorem perform_bind_error {f : Fault} (h : a.perform s = (.error f, s')) (g : α → Action σ β) :
    (a >>= g).perform s = (.error f, s') := by
  rw [perform_bind, h]

/-- An action whose fault is caught. -/
theorem perform_tryCatch (a : Action σ α) (g : Fault → Action σ α) (s : σ) :
    (tryCatch a g).perform s = match a.perform s with
      | (.ok v, s') => (.ok v, s')
      | (.error f, s') => (g f).perform s' := by
  unfold perform
  simp only [tryCatch, tryCatchThe, MonadExceptOf.tryCatch, ExceptT.tryCatch, ExceptT.run,
    ExceptT.mk, bind, StateT.bind]
  rcases (a s : Except Fault α × σ) with ⟨_ | _, _⟩ <;> rfl

end Action

namespace Exchange

variable {σ α : Type}

/-- An action on the state alone leaves the output as it is. -/
theorem perform_onState (action : Action σ α) (x : Exchange σ) :
    (onState action).perform x
      = ((action.perform x.state).1, ⟨(action.perform x.state).2, x.output⟩) := rfl

theorem perform_write_ok {v : Json} {frame : Bytes} (h : Frame.send v = .ok frame)
    (x : Exchange σ) : (write v).perform x = (.ok (), ⟨x.state, x.output ++ frame⟩) := by
  rw [write, h]
  rfl

/-- Where there is no frame, nothing is written. -/
theorem perform_write_error {v : Json} {f : Fault} (h : Frame.send v = .error f)
    (x : Exchange σ) : (write v).perform x = (.error f, x) := by
  rw [write, h]
  rfl

end Exchange

end JustfileServer
