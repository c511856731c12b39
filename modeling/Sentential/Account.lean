import Sentential.Event

/-!
# Operations that tell events

An operation that may fail is kept with the events that it tells on its way. One operation after
another tells its events after those of the first; where the first fails the second is not begun,
and what was told stays told.
-/

namespace Sentential

/-- An operation that may fail and that tells events, also where it fails. -/
structure Account (ε α : Type) where
  /-- What comes out of it. -/
  result : Except ε α
  /-- What it tells, in the order in which it happens. -/
  events : List Event

namespace Account

variable {ε α β : Type}

/-- Go on after an operation unless it failed. -/
protected def bind (account : Account ε α) (next : α → Account ε β) : Account ε β :=
  match account.result with
  | .error e => ⟨.error e, account.events⟩
  | .ok a =>
    let later := next a
    ⟨later.result, account.events ++ later.events⟩

/-- A value is an operation that tells nothing. -/
instance : Monad (Account ε) where
  pure a := ⟨.ok a, []⟩
  bind := Account.bind

/-- So is a result. -/
instance : MonadLift (Except ε) (Account ε) where monadLift result := ⟨result, []⟩

/-- Fail and tell nothing. -/
def fail (e : ε) : Account ε α := ⟨.error e, []⟩

/-- Tell an event. -/
def tell (event : Event) : Account ε Unit := ⟨.ok (), [event]⟩

/-- A result comes out of itself. -/
@[simp] theorem result_lift (result : Except ε α) :
    (liftM result : Account ε α).result = result := rfl

/-- Telling does not fail. -/
@[simp] theorem result_tell (event : Event) : (tell event : Account ε Unit).result = .ok () := rfl

/-- Without their events, operations follow each other as results do. -/
@[simp] theorem result_bind (account : Account ε α) (next : α → Account ε β) :
    (account >>= next).result = account.result >>= fun a ↦ (next a).result := by
  change (account.bind next).result = _
  rw [Account.bind]
  cases account.result <;> rfl

/-- Telling something about a result does not change it. -/
@[simp] theorem result_bind_tell (account : Account ε α) (event : α → Event) :
    (account >>= fun a ↦ tell (event a) >>= fun _ ↦ pure a).result = account.result := by
  rw [result_bind]
  cases account.result <;> rfl

/-- A value tells nothing. -/
@[simp] theorem events_pure (a : α) : (pure a : Account ε α).events = [] := rfl

/-- Telling an event tells just this. -/
@[simp] theorem events_tell (event : Event) : (tell event : Account ε Unit).events = [event] := rfl

/-- After a success the events of what follows come next, and after a failure none. -/
@[simp] theorem events_bind (account : Account ε α) (next : α → Account ε β) :
    (account >>= next).events =
      account.events ++
        match account.result with
        | .error _ => []
        | .ok a => (next a).events := by
  change (account.bind next).events = _
  rw [Account.bind]
  cases account.result with
  | error e => exact (List.append_nil _).symm
  | ok a => rfl

end Account

end Sentential
