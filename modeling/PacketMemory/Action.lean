/-!
# Actions: state, failures and traps

Every operation of the library is an `Action σ ε α`: it starts in a state of type `σ` and ends
in one of three ways, always with a state to go on from.

* `done a`: it answers `a`.
* `failed e`: it refuses, and `e` says why. The state is whatever the steps before the refusal
  left behind, so that a refused operation changes nothing is a theorem about the operation
  and not a property of the monad.
* `trapped t`: it stops inside, where no caller asked for it: a machine word ran over, an
  assertion did not hold, a byte outside of the memory was touched, or a handle was used that
  does not exist. Reachable states rule all of these out but the last.

`Action.mapError` renames failures, `Action.within` runs an action on a part of the state, and
`Action.onFailure` cleans up behind a failure.
-/

namespace PacketMemory

/-- Why a computation stops without an answer. -/
inductive Trap where
  /-- a sum does not fit a machine word -/
  | overflow
  /-- a difference is negative -/
  | underflow
  /-- an assertion does not hold -/
  | assertion
  /-- a raw access leaves the memory or the window it belongs to -/
  | outsideMemory
  /-- a handle that does not exist, or an owner whose views are still in use -/
  | misuse
  deriving DecidableEq, Repr

/-- How a computation ends. -/
inductive Outcome (ε α : Type) where
  /-- an answer -/
  | done (value : α)
  /-- a refusal and its reason -/
  | failed (error : ε)
  /-- no answer at all -/
  | trapped (trap : Trap)
  deriving DecidableEq, Repr

namespace Outcome

variable {ε α β : Type}

/-- Change the answer. -/
protected def map (f : α → β) : Outcome ε α → Outcome ε β
  | done a => done (f a)
  | failed e => failed e
  | trapped t => trapped t

/-- Change the reason of a refusal. -/
def mapError {ε' : Type} (f : ε → ε') : Outcome ε α → Outcome ε' α
  | done a => done a
  | failed e => failed (f e)
  | trapped t => trapped t

theorem mapError_map {ε' : Type} (f : α → β) (g : ε → ε') (o : Outcome ε α) :
    (o.map f).mapError g = (o.mapError g).map f := by
  cases o <;> rfl

end Outcome

/-- A computation over a state that survives failures and traps. -/
def Action (σ ε α : Type) : Type := σ → Outcome ε α × σ

namespace Action

variable {σ τ ε ε' α β : Type}

/-- Answer without touching the state. -/
protected def pure (a : α) : Action σ ε α := fun s => (.done a, s)

/-- Run `m`, then `f` on its answer; the first failure or trap ends the sequence. -/
protected def bind (m : Action σ ε α) (f : α → Action σ ε β) : Action σ ε β := fun s =>
  match m s with
  | (.done a, s') => f a s'
  | (.failed e, s') => (.failed e, s')
  | (.trapped t, s') => (.trapped t, s')

instance : Monad (Action σ ε) where
  pure := Action.pure
  bind := Action.bind

/-- Refuse, for the reason `e`. -/
def fail (e : ε) : Action σ ε α := fun s => (.failed e, s)

/-- Stop. -/
def trap (t : Trap) : Action σ ε α := fun s => (.trapped t, s)

/-- The current state. -/
def state : Action σ ε σ := fun s => (.done s, s)

/-- Replace the state. -/
def update (f : σ → σ) : Action σ ε Unit := fun s => (.done (), f s)

/-- Refuse for the reason `e` unless `p` holds. -/
def require (p : Prop) [Decidable p] (e : ε) : Action σ ε Unit :=
  if p then Action.pure () else fail e

/-- Stop unless `p` holds. -/
def assert (p : Prop) [Decidable p] (t : Trap) : Action σ ε Unit :=
  if p then Action.pure () else trap t

/-- The value that must be there. -/
def expect (t : Trap) : Option α → Action σ ε α
  | some a => Action.pure a
  | none => trap t

/-- The answer of a check that has no state. -/
def ofExcept : Except ε α → Action σ ε α
  | .ok a => Action.pure a
  | .error e => fail e

/-- Change the reason of a refusal. -/
def mapError (f : ε → ε') (m : Action σ ε α) : Action σ ε' α := fun s =>
  let r := m s
  (r.1.mapError f, r.2)

/-- Run an action on the part of the state that `get` reads and `set` writes back. -/
def within (get : σ → τ) (set : τ → σ → σ) (m : Action τ ε α) : Action σ ε α := fun s =>
  let r := m (get s)
  (r.1, set r.2 s)

/-- Run `cleanup` behind a failure of `m`, which stays the outcome. -/
def onFailure (m : Action σ ε α) (cleanup : Action σ ε Unit) : Action σ ε α := fun s =>
  match m s with
  | (.failed e, s') => (.failed e, (cleanup s').2)
  | (outcome, s') => (outcome, s')

/-- Turn a refusal into an answer. -/
def attempt (m : Action σ ε α) : Action σ ε' (Except ε α) := fun s =>
  match m s with
  | (.done a, s') => (.done (.ok a), s')
  | (.failed e, s') => (.done (.error e), s')
  | (.trapped t, s') => (.trapped t, s')

/-! ## How each of them runs -/

@[simp] theorem pure_apply (a : α) (s : σ) : (pure a : Action σ ε α) s = (.done a, s) := rfl

theorem bind_apply (m : Action σ ε α) (f : α → Action σ ε β) (s : σ) :
    (m >>= f) s = match m s with
      | (.done a, s') => f a s'
      | (.failed e, s') => (.failed e, s')
      | (.trapped t, s') => (.trapped t, s') := rfl

@[simp] theorem fail_apply (e : ε) (s : σ) : (fail e : Action σ ε α) s = (.failed e, s) := rfl

@[simp] theorem trap_apply (t : Trap) (s : σ) :
    (trap t : Action σ ε α) s = (.trapped t, s) := rfl

@[simp] theorem state_apply (s : σ) : (state : Action σ ε σ) s = (.done s, s) := rfl

@[simp] theorem update_apply (f : σ → σ) (s : σ) :
    (update f : Action σ ε Unit) s = (.done (), f s) := rfl

@[simp] theorem require_true {p : Prop} [Decidable p] (h : p) (e : ε) :
    (require p e : Action σ ε Unit) = pure () := if_pos h

@[simp] theorem require_false {p : Prop} [Decidable p] (h : ¬p) (e : ε) :
    (require p e : Action σ ε Unit) = fail e := if_neg h

@[simp] theorem assert_true {p : Prop} [Decidable p] (h : p) (t : Trap) :
    (assert p t : Action σ ε Unit) = pure () := if_pos h

@[simp] theorem assert_false {p : Prop} [Decidable p] (h : ¬p) (t : Trap) :
    (assert p t : Action σ ε Unit) = trap t := if_neg h

@[simp] theorem expect_some (t : Trap) (a : α) :
    (expect t (some a) : Action σ ε α) = pure a := rfl

@[simp] theorem expect_none (t : Trap) : (expect t none : Action σ ε α) = trap t := rfl

@[simp] theorem ofExcept_ok (a : α) :
    (ofExcept (.ok a) : Action σ ε α) = pure a := rfl

@[simp] theorem ofExcept_error (e : ε) :
    (ofExcept (.error e) : Action σ ε α) = fail e := rfl

@[simp] theorem within_apply (get : σ → τ) (set : τ → σ → σ) (m : Action τ ε α) (s : σ) :
    within get set m s = ((m (get s)).1, set (m (get s)).2 s) := rfl

@[simp] theorem mapError_apply (f : ε → ε') (m : Action σ ε α) (s : σ) :
    mapError f m s = ((m s).1.mapError f, (m s).2) := rfl

/-- A sequence goes on from an answer of its first step. -/
theorem bind_done {m : Action σ ε α} {f : α → Action σ ε β} {s s' : σ} {a : α}
    (h : m s = (.done a, s')) : (m >>= f) s = f a s' := by
  rw [bind_apply, h]

/-- A sequence ends with a failure of its first step. -/
theorem bind_failed {m : Action σ ε α} {f : α → Action σ ε β} {s s' : σ} {e : ε}
    (h : m s = (.failed e, s')) : (m >>= f) s = (.failed e, s') := by
  rw [bind_apply, h]

/-- A sequence ends with a trap of its first step. -/
theorem bind_trapped {m : Action σ ε α} {f : α → Action σ ε β} {s s' : σ} {t : Trap}
    (h : m s = (.trapped t, s')) : (m >>= f) s = (.trapped t, s') := by
  rw [bind_apply, h]

@[simp] theorem fail_bind (e : ε) (f : α → Action σ ε β) : (fail e >>= f) = fail e := rfl

@[simp] theorem trap_bind (t : Trap) (f : α → Action σ ε β) : (trap t >>= f) = trap t := rfl

@[simp] theorem state_bind_apply (f : σ → Action σ ε β) (s : σ) :
    (state >>= f) s = f s s := rfl

@[simp] theorem update_bind_apply (g : σ → σ) (f : Unit → Action σ ε β) (s : σ) :
    (update g >>= f) s = f () (g s) := rfl

instance : LawfulMonad (Action σ ε) := LawfulMonad.mk' _
  (fun m => funext fun s => by
    show Action.bind m _ s = m s
    unfold Action.bind
    rcases m s with ⟨_ | _ | _, s'⟩ <;> rfl)
  (fun _ _ => rfl)
  (fun m f g => funext fun s => by
    show Action.bind (Action.bind m f) g s = Action.bind m (fun a => Action.bind (f a) g) s
    unfold Action.bind
    rcases m s with ⟨_ | _ | _, s'⟩ <;> rfl)

end Action

end PacketMemory
