import Mathlib.Logic.Basic

/-!
# Notifiers without a memory

A `Notify N F` gives out futures of type `F` and completes them. `Notify.Documented` says what
such a notifier promises: a call of `notifyWaiters` completes the futures created before it and
leaves no permit for those created after it. `CallCount` is the notifier that counts its calls.
-/

namespace Bws.Base

/-- A notifier with states `N` and the futures `F` that wait for it. -/
class Notify (N : Type) (F : outParam Type) where
  new : N
  notified : N → F
  notifyWaiters : N → N
  completed : N → F → Bool

namespace Notify

variable {N F : Type} [Notify N F]

/-- The futures that have been created when the notifier is in state `n`. -/
inductive Created : N → F → Prop where
  | now (n : N) : Created n (notified n)
  | earlier {n : N} {f : F} : Created n f → Created (notifyWaiters n) f

variable (N) in
/-- What is documented of a notifier: a call completes the futures created by then, and it
stores no permit for a later one. -/
structure Documented : Prop where
  completes : ∀ (n : N) (f : F), Created n f → completed (notifyWaiters n) f = true
  no_permit : ∀ n : N, completed n (notified n) = false

end Notify

/-- A notifier that counts the calls of `notifyWaiters`. A future remembers the count at its
creation. -/
structure CallCount where
  calls : Nat
  deriving DecidableEq, Repr

/-- A future of a `CallCount` is complete when the count has moved on. -/
instance : Notify CallCount Nat where
  new := ⟨0⟩
  notified n := n.calls
  notifyWaiters n := ⟨n.calls + 1⟩
  completed n f := f < n.calls

/-- No future of a `CallCount` is ahead of it. -/
theorem CallCount.created_le {n : CallCount} {f : Nat} (h : Notify.Created n f) :
    f ≤ n.calls := by
  induction h with
  | now n => exact Nat.le_refl n.calls
  | earlier _ ih => exact Nat.le_succ_of_le ih

/-- Counting the calls is enough to be a notifier. -/
theorem CallCount.documented : Notify.Documented CallCount where
  completes _ _ h := decide_eq_true (Nat.lt_succ_of_le (created_le h))
  no_permit _ := decide_eq_false (Nat.lt_irrefl _)

end Bws.Base
