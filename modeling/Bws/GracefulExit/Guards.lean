import Bws.Base.Proc
import Bws.Base.Transition
import Mathlib.Data.FinEnum

/-!
# Guards

The handles of one `GracefulExit` with the guards taken and the calls of
`blocking_wait_for_guards` made through them, in any order. A critical section under the mutex
is one step, and a wait on the condition variable is three: it goes to sleep as the section
ends, it wakes up for whatever reason, and it takes the mutex again. `guards_accounted` says
that the counter counts the guards and that no waiter is forgotten.
-/

namespace Bws.GracefulExit.Guards

open Bws.Base

/-- Where a call of `blocking_wait_for_guards` is: before its first critical section, on the
condition variable, woken up and about to take the mutex again, or back at its caller. -/
inductive Phase where
  | called
  | asleep
  | woken
  | returned (timedOut : Bool)
  deriving DecidableEq, Repr

/-- A call of `blocking_wait_for_guards` with its timeout in milliseconds. -/
structure Waiter where
  timeout : Option UInt64
  phase : Phase
  deriving DecidableEq, Repr

namespace Waiter

/-- What wakes up a sleeping waiter: a notification, the end of its timeout, or nothing at
all. -/
def wake (w : Waiter) : Waiter :=
  if w.phase = .asleep then { w with phase := .woken } else w

/-- The critical section of `wait_while` and `wait_timeout_while`: the condition is checked
first, then the time that is left. -/
def check (w : Waiter) (counter : UInt64) (expired : Bool) : Waiter :=
  if counter > 0 then
    match w.timeout with
    | none => { w with phase := .asleep }
    | some _ => { w with phase := if expired then .returned true else .asleep }
  else { w with phase := .returned false }

end Waiter

/-- The number of handles, the mutex with the counter, the live guards and the waiters. A guard
is a reference and takes memory, so the live guards have different addresses, none of them
null. A panic in a critical section poisons the mutex. -/
structure State where
  handles : Nat
  counter : UInt64
  poisoned : Option Panic
  guards : Finset UInt64
  waiters : List Waiter

/-- What happens next: something is done through a handle, a guard is dropped, or a waiter
wakes up or gets the mutex. -/
inductive Action where
  | clone (handle : Nat)
  | guard (handle : Nat) (address : UInt64)
  | drop (address : UInt64)
  | blockingWaitForGuards (handle : Nat) (timeout : Option UInt64)
  | wake (waiter : Nat)
  | check (waiter : Nat) (expired : Bool)
  deriving DecidableEq, Repr

namespace State

/-- A new system has one handle and no guards. -/
def new : State := ⟨1, 0, none, ∅, []⟩

/-- `guard()`: the counter is increased with a check. -/
def guard (s : State) (address : UInt64) : State :=
  if s.counter.toNat + 1 < 2 ^ 64 then
    { s with counter := s.counter + 1, guards := insert address s.guards }
  else { s with poisoned := some .addOverflow }

/-- Wake up every sleeping waiter. -/
def notifyAll (s : State) : State := { s with waiters := s.waiters.map Waiter.wake }

/-- The `drop` of a guard: the counter is decreased with a check, and whoever waits is notified
if it has reached zero. -/
def dropGuard (s : State) (address : UInt64) : State :=
  let s := { s with guards := s.guards.erase address }
  if s.counter = 0 then { s with poisoned := some .subtractOverflow }
  else
    let s := { s with counter := s.counter - 1 }
    if s.counter = 0 then s.notifyAll else s

end State

/-- The state after an action, if it can happen. A panic leaves nothing to lock. -/
def step (s : State) (a : Action) : Option State :=
  if s.poisoned.isSome then none
  else
    match a with
    | .clone h => if h < s.handles then some { s with handles := s.handles + 1 } else none
    | .guard h address =>
        if h < s.handles ∧ address ≠ 0 ∧ address ∉ s.guards then some (s.guard address)
        else none
    | .drop address => if address ∈ s.guards then some (s.dropGuard address) else none
    | .blockingWaitForGuards h timeout =>
        if h < s.handles then some { s with waiters := s.waiters ++ [⟨timeout, .called⟩] }
        else none
    | .wake i =>
        s.waiters[i]?.map fun w => { s with waiters := s.waiters.set i w.wake }
    | .check i expired => do
        let w ← s.waiters[i]?
        if w.phase = .called ∨ w.phase = .woken then
          some { s with waiters := s.waiters.set i (w.check s.counter expired) }
        else none

/-- The runs of one `GracefulExit`. -/
def system : System State Action where
  Init s := s = .new
  Step s a t := step s a = some t

/-- In the step from `s` to `t` some call with no timeout returns. -/
def ReturnsWithoutTimeout (s t : State) : Prop :=
  ∃ (i : Nat) (timedOut : Bool), t.waiters[i]? = some ⟨none, .returned timedOut⟩ ∧
    s.waiters[i]? ≠ some ⟨none, .returned timedOut⟩

/-- The guards are accounted for: nothing has panicked, the counter is the number of live
guards, there is a live guard whenever a waiter sleeps with no notification on its way, and
there is none when a call with no timeout returns. -/
structure Accounted (s : State) : Prop where
  no_panic : s.poisoned = none
  counter : s.counter.toNat = s.guards.card
  asleep : ∀ w ∈ s.waiters, w.phase = .asleep → s.guards.Nonempty
  returns : ∀ a t, step s a = some t → ReturnsWithoutTimeout s t → t.guards = ∅

/-! ## What an action can do -/

/-- What an action does, under the conditions it is taken. -/
inductive Effect (s : State) : Action → State → Prop where
  | clone (h : Nat) : Effect s (.clone h) { s with handles := s.handles + 1 }
  | guard (h : Nat) {address : UInt64} (hnull : address ≠ 0) (hfresh : address ∉ s.guards) :
      Effect s (.guard h address) (s.guard address)
  | drop {address : UInt64} (hmem : address ∈ s.guards) :
      Effect s (.drop address) (s.dropGuard address)
  | call (h : Nat) (timeout : Option UInt64) : Effect s (.blockingWaitForGuards h timeout)
      { s with waiters := s.waiters ++ [⟨timeout, .called⟩] }
  | wake {i : Nat} {w : Waiter} (hi : s.waiters[i]? = some w) :
      Effect s (.wake i) { s with waiters := s.waiters.set i w.wake }
  | check {i : Nat} {w : Waiter} (hi : s.waiters[i]? = some w) (expired : Bool) :
      Effect s (.check i expired)
        { s with waiters := s.waiters.set i (w.check s.counter expired) }

/-- Every action has its effect. -/
theorem step_effect {s t : State} {a : Action} (h : step s a = some t) : Effect s a t := by
  unfold step at h
  split at h
  · cases h
  cases a with
  | clone k =>
      obtain ⟨-, rfl⟩ := guarded_eq_some.mp h
      exact .clone k
  | guard k address =>
      obtain ⟨⟨-, hnull, hfresh⟩, rfl⟩ := guarded_eq_some.mp h
      exact .guard k hnull hfresh
  | drop address =>
      obtain ⟨hmem, rfl⟩ := guarded_eq_some.mp h
      exact .drop hmem
  | blockingWaitForGuards k timeout =>
      obtain ⟨-, rfl⟩ := guarded_eq_some.mp h
      exact .call k timeout
  | wake i =>
      obtain ⟨w, hi, rfl⟩ := Option.map_eq_some_iff.mp h
      exact .wake hi
  | check i expired =>
      obtain ⟨w, hi, h⟩ := Option.bind_eq_some_iff.mp h
      obtain ⟨-, rfl⟩ := guarded_eq_some.mp h
      exact .check hi expired

namespace Waiter

/-- Nobody sleeps after being woken. -/
theorem wake_not_asleep (w : Waiter) : w.wake.phase ≠ .asleep := by
  unfold wake
  split
  · nofun
  · assumption

/-- Waking up is not returning. -/
theorem of_wake_returned {w : Waiter} {timeout : Option UInt64} {timedOut : Bool}
    (h : w.wake = ⟨timeout, .returned timedOut⟩) : w = ⟨timeout, .returned timedOut⟩ := by
  unfold wake at h
  split at h
  · exact absurd (congrArg phase h) nofun
  · exact h

/-- A waiter goes to sleep on a positive counter. -/
theorem pos_of_check_asleep {w : Waiter} {counter : UInt64} {expired : Bool}
    (h : (w.check counter expired).phase = .asleep) : counter > 0 := by
  by_contra hpos
  rw [check, if_neg hpos] at h
  exact absurd h nofun

/-- A waiter with no timeout returns on a counter of zero. -/
theorem zero_of_check_returned {w : Waiter} {counter : UInt64} {expired timedOut : Bool}
    (h : w.check counter expired = ⟨none, .returned timedOut⟩) : counter = 0 := by
  by_contra hne
  have hpos : counter > 0 := UInt64.pos_iff_ne_zero.mpr hne
  obtain ⟨timeout, phase⟩ := w
  rw [check, if_pos hpos] at h
  cases timeout with
  | none => exact absurd (congrArg Waiter.phase h) nofun
  | some _ => exact absurd (congrArg Waiter.timeout h) nofun

end Waiter

/-! ## The invariant -/

/-- What every critical section keeps. -/
structure Inv (s : State) : Prop where
  no_panic : s.poisoned = none
  counter : s.counter.toNat = s.guards.card
  null : (0 : UInt64) ∉ s.guards
  asleep : ∀ w ∈ s.waiters, w.phase = .asleep → s.guards.Nonempty

/-- There is room for one more guard next to the null address. -/
theorem card_lt {guards : Finset UInt64} {address : UInt64} (hnull : address ≠ 0)
    (hfresh : address ∉ guards) (hzero : 0 ∉ guards) : guards.card + 1 < 2 ^ 64 := by
  -- the new address and the null one are two more than the live guards
  have hcard : (insert 0 (insert address guards)).card = guards.card + 2 := by
    rw [Finset.card_insert_of_notMem (by simp [hnull.symm, hzero]),
      Finset.card_insert_of_notMem hfresh]
  have hle := Finset.card_le_univ (insert 0 (insert address guards))
  have huniv : Fintype.card UInt64 = 2 ^ 64 := by
    rw [← FinEnum.card_eq_fintypeCard, FinEnum.card_UInt64]
  omega

/-- Taking a guard keeps the invariant. -/
theorem inv_guard {s : State} {address : UInt64} (h : Inv s) (hnull : address ≠ 0)
    (hfresh : address ∉ s.guards) : Inv (s.guard address) := by
  have hroom := card_lt hnull hfresh h.null
  have hcounter := h.counter
  rw [State.guard, if_pos (by omega)]
  refine ⟨h.no_panic, ?_, ?_, fun w hw hsleep => ⟨address, Finset.mem_insert_self _ _⟩⟩
  · rw [Finset.card_insert_of_notMem hfresh, UInt64.toNat_add, UInt64.toNat_one]
    omega
  · simp [hnull.symm, h.null]

/-- Dropping a guard keeps the invariant: whoever sleeps is woken with the last guard. -/
theorem inv_drop {s : State} {address : UInt64} (h : Inv s) (hmem : address ∈ s.guards) :
    Inv (s.dropGuard address) := by
  have hpos : 0 < s.guards.card := Finset.card_pos.mpr ⟨address, hmem⟩
  have hcounter := h.counter
  have hne : s.counter ≠ 0 := by
    intro hzero
    rw [hzero, UInt64.toNat_zero] at hcounter
    omega
  have hsub : (s.counter - 1).toNat = (s.guards.erase address).card := by
    rw [Finset.card_erase_of_mem hmem, UInt64.toNat_sub_of_le _ _ (by
      rw [UInt64.le_iff_toNat_le, UInt64.toNat_one]
      omega), UInt64.toNat_one]
    omega
  have hnull : (0 : UInt64) ∉ s.guards.erase address :=
    fun hmem => h.null (Finset.mem_of_mem_erase hmem)
  rw [State.dropGuard, if_neg hne]
  dsimp only
  split
  · -- the last guard: nobody sleeps after the notification
    refine ⟨h.no_panic, hsub, hnull, fun w hw hsleep => ?_⟩
    obtain ⟨v, -, rfl⟩ := List.mem_map.mp hw
    exact absurd hsleep v.wake_not_asleep
  · -- another guard is left for whoever sleeps
    next hleft =>
      refine ⟨h.no_panic, hsub, hnull, fun w hw hsleep => Finset.card_pos.mp ?_⟩
      have hne' : (s.counter - 1).toNat ≠ 0 := fun hz => hleft (UInt64.toNat_inj.mp hz)
      change 0 < (s.guards.erase address).card
      omega

/-- Replacing a waiter keeps the invariant if it goes to sleep only when a guard is alive. -/
theorem inv_set {s : State} {i : Nat} {w : Waiter} (h : Inv s)
    (hw : w.phase = .asleep → s.guards.Nonempty) :
    Inv { s with waiters := s.waiters.set i w } := by
  refine ⟨h.no_panic, h.counter, h.null, fun v hv hsleep => ?_⟩
  rcases List.mem_or_eq_of_mem_set hv with hmem | rfl
  · exact h.asleep v hmem hsleep
  · exact hw hsleep

/-- Every action keeps the invariant. -/
theorem step_inv {s t : State} {a : Action} (h : Inv s) (hstep : step s a = some t) : Inv t := by
  cases step_effect hstep with
  | clone _ => exact ⟨h.no_panic, h.counter, h.null, h.asleep⟩
  | guard _ hnull hfresh => exact inv_guard h hnull hfresh
  | drop hmem => exact inv_drop h hmem
  | call _ timeout =>
      refine ⟨h.no_panic, h.counter, h.null, fun w hw hsleep => ?_⟩
      rcases List.mem_append.mp hw with hw | hw
      · exact h.asleep w hw hsleep
      · obtain rfl := List.mem_singleton.mp hw
        cases hsleep
  | wake hi => exact inv_set h fun hsleep => absurd hsleep (Waiter.wake_not_asleep _)
  | check hi expired =>
      refine inv_set h fun hsleep => Finset.card_pos.mp ?_
      have hpos := UInt64.lt_iff_toNat_lt.mp (Waiter.pos_of_check_asleep hsleep)
      rwa [h.counter] at hpos

/-- The invariant holds in every reachable state. -/
theorem reachable_inv {s : State} (h : system.Reachable s) : Inv s := by
  refine System.reachable_invariant ?_ (fun _ _ _ => step_inv) h
  rintro s rfl
  exact ⟨rfl, rfl, Finset.notMem_empty 0, fun w hw => absurd hw List.not_mem_nil⟩

/-! ## The results -/

/-- A waiter with no timeout that has not returned in `s` has not returned in `t` either, if the
waiters of `t` that have returned are those of `s`. -/
theorem not_returns {s t : State} (h : ∀ (i : Nat) (timedOut : Bool),
    t.waiters[i]? = some ⟨none, .returned timedOut⟩ →
      s.waiters[i]? = some ⟨none, .returned timedOut⟩) : ¬ ReturnsWithoutTimeout s t := by
  rintro ⟨i, timedOut, ht, hs⟩
  exact hs (h i timedOut ht)

/-- A waiter that is replaced and returns has become one that has returned. -/
theorem returns_set {s : State} {i : Nat} {w : Waiter}
    (h : ReturnsWithoutTimeout s { s with waiters := s.waiters.set i w }) :
    ∃ timedOut, w = ⟨none, .returned timedOut⟩ ∧ s.waiters[i]? ≠ some w := by
  obtain ⟨j, timedOut, hj, hne⟩ := h
  rw [List.getElem?_set] at hj
  split at hj
  · next hij =>
      subst hij
      obtain ⟨-, rfl⟩ := guarded_eq_some.mp hj
      exact ⟨timedOut, rfl, hne⟩
  · exact absurd hj hne

/-- Nobody returns by being notified. -/
theorem not_returns_drop (s : State) (address : UInt64) :
    ¬ ReturnsWithoutTimeout s (s.dropGuard address) := by
  refine not_returns fun i timedOut h => ?_
  unfold State.dropGuard at h
  dsimp only at h
  split at h
  · exact h
  · split at h
    · rw [State.notifyAll, List.getElem?_map] at h
      obtain ⟨w, hw, hwake⟩ := Option.map_eq_some_iff.mp h
      rwa [Waiter.of_wake_returned hwake] at hw
    · exact h

/-- A call with no timeout returns only when no guard is alive. -/
theorem returns_without_guards {s t : State} {a : Action} (h : Inv s)
    (hstep : step s a = some t) (hret : ReturnsWithoutTimeout s t) : t.guards = ∅ := by
  cases step_effect hstep with
  | clone _ => exact absurd hret (not_returns fun _ _ hi => hi)
  | guard _ _ _ =>
      refine absurd hret (not_returns fun i timedOut hi => ?_)
      unfold State.guard at hi
      split at hi <;> exact hi
  | drop _ => exact absurd hret (not_returns_drop _ _)
  | call _ timeout =>
      refine absurd hret (not_returns fun i timedOut hi => ?_)
      rw [List.getElem?_append] at hi
      split at hi
      · exact hi
      · exact absurd (List.mem_of_getElem? hi) (by simp)
  | wake hi =>
      obtain ⟨timedOut, hw, hne⟩ := returns_set hret
      rw [hw, hi, Waiter.of_wake_returned hw] at hne
      exact absurd rfl hne
  | check hi expired =>
      obtain ⟨timedOut, hw, -⟩ := returns_set hret
      have hzero := Waiter.zero_of_check_returned hw
      have hcounter := h.counter
      rw [hzero, UInt64.toNat_zero] at hcounter
      exact Finset.card_eq_zero.mp hcounter.symm

/-- In every reachable state the guards are accounted for. -/
theorem guards_accounted {s : State} (h : system.Reachable s) : Accounted s where
  no_panic := (reachable_inv h).no_panic
  counter := (reachable_inv h).counter
  asleep := (reachable_inv h).asleep
  returns _ _ := returns_without_guards (reachable_inv h)

/-- A waiter sleeps while the guard at address 8 is alive. -/
theorem guards_accounted_asleep : Accounted ⟨1, 1, none, {8}, [⟨none, .asleep⟩]⟩ := by
  have hguard : system.Reachable ⟨1, 1, none, {8}, []⟩ :=
    .step (.guard 0 8) (.init rfl) rfl
  have hcall : system.Reachable ⟨1, 1, none, {8}, [⟨none, .called⟩]⟩ :=
    .step (.blockingWaitForGuards 0 none) hguard rfl
  exact guards_accounted (.step (.check 0 false) hcall rfl)

end Bws.GracefulExit.Guards
