import Bws.Base.Notify
import Mathlib.Data.List.Basic

/-!
# Initiating a shutdown

What the handles of one `GracefulExit` share to initiate a shutdown: a cell, which stays set,
and a notifier, which has no memory. A call of `exit` sets the one and then notifies the other,
so any number of calls may stand between the two. `completed_advances` says whom a call wakes.
-/

namespace Bws.GracefulExit

open Bws.Base Bws.Base.Notify

/-- How far a call of `exit` has come. -/
inductive ExitCall where
  | called
  | cellSet
  | completed
  deriving DecidableEq, Repr

/-- The cell and the notifier, and the calls of `exit` on any of the handles. -/
structure Initiate (N : Type) where
  cell : Bool
  notify : N
  calls : List ExitCall
  deriving DecidableEq, Repr

/-- Replacing one element by another leaves the rest of a list alone. -/
theorem mem_set_iff_of_ne {α : Type} {l : List α} {k : Nat} {a b x : α} (hk : l[k]? = some a)
    (ha : x ≠ a) (hb : x ≠ b) : x ∈ l.set k b ↔ x ∈ l := by
  simp only [List.mem_iff_getElem?, List.getElem?_set]
  refine exists_congr fun j => ?_
  by_cases hj : k = j
  · subst hj
    obtain ⟨hlt, rfl⟩ := List.getElem?_eq_some_iff.mp hk
    simp [hlt, ha.symm, hb.symm]
  · simp [hj]

namespace Initiate

variable {N F : Type} [Notify N F]

/-- Nothing is initiated by a new system. -/
def new : Initiate N := ⟨false, Notify.new, []⟩

/-- `exit()` is called. -/
def exit (i : Initiate N) : Initiate N := { i with calls := i.calls ++ [.called] }

/-- The next statement of the call `k` of `exit`. The cell is set whether or not it has been
set before. -/
def resume (i : Initiate N) (k : Nat) : Option (Initiate N) :=
  match i.calls[k]? with
  | some .called => some { i with cell := true, calls := i.calls.set k .cellSet }
  | some .cellSet =>
      some { i with notify := notifyWaiters i.notify, calls := i.calls.set k .completed }
  | some .completed | none => none

/-- Some call of `exit` has completed. -/
def Exited (i : Initiate N) : Prop := .completed ∈ i.calls

/-- `Exited` is decided by a search. -/
instance (i : Initiate N) : Decidable i.Exited :=
  inferInstanceAs (Decidable (_ ∈ _))

/-- A call that has come past its first statement has set the cell. -/
def CellSet (i : Initiate N) : Prop := ∀ c ∈ i.calls, c ≠ .called → i.cell = true

omit [Notify N F] in
/-- A call that has only started completes nothing. -/
@[simp] theorem exited_exit {i : Initiate N} : i.exit.Exited ↔ i.Exited := by
  simp [Exited, exit]

/-- The next statement of a call sets the cell, or, if that has been done, notifies the waiters and
completes the call. -/
theorem resume_call_cases {i j : Initiate N} {k : Nat} (h : i.resume k = some j) :
    (i.calls[k]? ≠ some .cellSet ∧ j.notify = i.notify ∧ (j.Exited ↔ i.Exited)) ∨
      (i.calls[k]? = some .cellSet ∧ j.notify = notifyWaiters i.notify ∧ j.Exited) := by
  unfold resume at h
  split at h
  · next hk =>
      obtain rfl := Option.some.inj h
      exact .inl ⟨by simp [hk], rfl, mem_set_iff_of_ne hk (by decide) (by decide)⟩
  · next hk =>
      obtain rfl := Option.some.inj h
      have hlt := (List.getElem?_eq_some_iff.mp hk).1
      exact .inr ⟨hk, rfl, List.mem_set hlt _⟩
  · cases h
  · cases h

/-- The next statement of a call leaves the waiters alone, or notifies them and completes it. -/
theorem resume_cases {i j : Initiate N} {k : Nat} (h : i.resume k = some j) :
    (j.notify = i.notify ∧ (j.Exited ↔ i.Exited)) ∨
      (j.notify = notifyWaiters i.notify ∧ j.Exited) :=
  (resume_call_cases h).imp And.right And.right

/-- What `exit` does to the shared part: a call starts, or it runs its next statement. -/
inductive Advances (i : Initiate N) : Initiate N → Prop where
  | exit : Advances i i.exit
  | resume {j : Initiate N} {k : Nat} (h : i.resume k = some j) : Advances i j

/-- The cell is set before a call moves on, and stays set. -/
theorem cell_set_advances {i j : Initiate N} (h : i.CellSet) (hij : i.Advances j) :
    j.CellSet := by
  cases hij with
  | exit =>
      intro c hc hne
      rcases List.mem_append.mp hc with hc | hc
      · exact h c hc hne
      · exact absurd (List.mem_singleton.mp hc) hne
  | resume hres =>
      unfold resume at hres
      split at hres
      · obtain rfl := Option.some.inj hres
        exact fun _ _ _ => rfl
      · next hk =>
          obtain rfl := Option.some.inj hres
          exact fun _ _ _ => h .cellSet (List.mem_of_getElem? hk) (by decide)
      · cases hres
      · cases hres

/-- The waiters are notified by the call that completes, and by nothing else. -/
theorem notify_advances {i j : Initiate N} (hij : i.Advances j) :
    (j.notify = i.notify ∧ (j.Exited ↔ i.Exited)) ∨ j.Exited := by
  cases hij with
  | exit => exact .inl ⟨rfl, exited_exit⟩
  | resume hres => exact (resume_cases hres).imp_right And.right

/-- A call that has completed stays so. -/
theorem exited_advances {i j : Initiate N} (hij : i.Advances j) (h : i.Exited) : j.Exited := by
  rcases notify_advances hij with ⟨-, hex⟩ | hexited
  · exact hex.mpr h
  · exact hexited

/-- A future that has been created stays created. -/
theorem created_advances {i j : Initiate N} {f : F} (hij : i.Advances j)
    (hf : Created i.notify f) : Created j.notify f := by
  cases hij with
  | exit => exact hf
  | resume hres =>
      rcases resume_cases hres with ⟨hn, -⟩ | ⟨hn, -⟩
      · rwa [hn]
      · rw [hn]
        exact .earlier hf

/-- The call of `exit` that completes has completed every future that has been created. -/
theorem completed_advances (hnotify : Documented N) {i j : Initiate N} {f : F}
    (hij : i.Advances j) (hf : Created i.notify f)
    (h : i.Exited → completed i.notify f = true) (hexited : j.Exited) :
    completed j.notify f = true := by
  cases hij with
  | exit => exact h (exited_exit.mp hexited)
  | resume hres =>
      rcases resume_cases hres with ⟨hn, hex⟩ | ⟨hn, -⟩
      · rw [hn]
        exact h (hex.mp hexited)
      · rw [hn]
        exact hnotify.completes _ f hf

end Initiate

end Bws.GracefulExit
