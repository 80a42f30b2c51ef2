import Mathlib.Tactic.Common

/-! A lock seen from outside, through a log of what was done with it, newest entry first. The monitor follows the
log and stops at the first entry that breaks the discipline: taking a lock that does not exist or is held,
releasing one that is not held, destroying one that is held, using what the lock protects while it is free. -/

namespace LockMonitor

variable {κ : Type}

/-- Log entries. A lock is known by a number, `none` is a null lock; `κ` names the protected uses. -/
inductive Event (κ : Type) where
  | create (lock : Nat)
  | acquire (lock : Option Nat)
  | release (lock : Option Nat)
  | destroy (lock : Option Nat)
  | use (what : κ)
  deriving DecidableEq, Repr

/-- The lock there is, and whether it is held. -/
structure Status where
  lock : Option Nat
  held : Bool
  deriving DecidableEq, Repr

/-- One entry; `none` if it is not allowed. -/
def Status.step (status : Status) : Event κ → Option Status
  | .create lock => if status = ⟨none, false⟩ then some ⟨some lock, false⟩ else none
  | .acquire lock => if lock ≠ none ∧ status = ⟨lock, false⟩ then some ⟨lock, true⟩ else none
  | .release lock => if lock ≠ none ∧ status = ⟨lock, true⟩ then some ⟨lock, false⟩ else none
  | .destroy lock => if lock ≠ none ∧ status = ⟨lock, false⟩ then some ⟨none, false⟩ else none
  | .use _ => if status.held then some status else none

/-- The status after the log; `none` if some entry was not allowed. -/
def after : List (Event κ) → Option Status
  | [] => some ⟨none, false⟩
  | event :: log => (after log).bind (·.step event)

variable {log : List (Event κ)} {lock : Nat}

theorem after_create (h : after log = some ⟨none, false⟩) :
    after (.create lock :: log) = some ⟨some lock, false⟩ := by
  simp [after, h, Status.step]

theorem after_acquire (h : after log = some ⟨some lock, false⟩) :
    after (.acquire (some lock) :: log) = some ⟨some lock, true⟩ := by
  simp [after, h, Status.step]

theorem after_release (h : after log = some ⟨some lock, true⟩) :
    after (.release (some lock) :: log) = some ⟨some lock, false⟩ := by
  simp [after, h, Status.step]

theorem after_destroy (h : after log = some ⟨some lock, false⟩) :
    after (.destroy (some lock) :: log) = some ⟨none, false⟩ := by
  simp [after, h, Status.step]

theorem after_use {what : κ} {status : Option Nat} (h : after log = some ⟨status, true⟩) :
    after (.use what :: log) = some ⟨status, true⟩ := by
  simp [after, h, Status.step]

end LockMonitor
