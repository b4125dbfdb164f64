import Bws.GracefulExit.Waiting

/-!
# Waiting for a shutdown

The handles of one `GracefulExit` with the calls of `exit`, the futures of `wait_for_exit` and
the calls of `blocking_wait_for_exit` made through them, in any order. A future consults the
notifier alone, and only from its first poll on, while a blocking call consults the cell.
`no_lost_wake_up_iff` says in which runs no future is ever left waiting after a call of `exit`
has completed, and `blocking_wait_returns` that no blocking call is left waiting in any run.
-/

namespace Bws.GracefulExit

open Bws.Base Bws.Base.Notify

variable {N F : Type} [Notify N F]

/-- A future of `wait_for_exit`. Its body, and with it the future of the notifier, is created
by the first poll. -/
inductive WaitForExit (F : Type) where
  | unpolled
  | pending (notified : F)
  | ready
  | dropped
  deriving DecidableEq, Repr

namespace WaitForExit

/-- `.await` on a future of the notifier. -/
def await (n : N) (f : F) : WaitForExit F :=
  if completed n f then .ready else .pending f

/-- Poll a future of `wait_for_exit`. -/
def poll (n : N) : WaitForExit F → Option (WaitForExit F)
  | .unpolled => some (await n (notified n))
  | .pending f => some (await n f)
  | .ready | .dropped => none

end WaitForExit

/-- A call of `blocking_wait_for_exit`. -/
inductive BlockingWait where
  | waiting
  | returned
  deriving DecidableEq, Repr

namespace Waits

/-- The number of handles, what they share, and the waits started through them. -/
structure State (N F : Type) where
  handles : Nat
  initiate : Initiate N
  waits : List (WaitForExit F)
  blocking : List BlockingWait
  deriving DecidableEq, Repr

/-- What happens next: something is done through a handle, or one of the calls and futures
gets its turn. -/
inductive Action where
  | clone (handle : Nat)
  | exit (handle : Nat)
  | resume (call : Nat)
  | waitForExit (handle : Nat)
  | poll (future : Nat)
  | drop (future : Nat)
  | blockingWaitForExit (handle : Nat)
  | unblock (call : Nat)
  deriving DecidableEq, Repr

/-- A new system has one handle. -/
def State.new : State N F := ⟨1, .new, [], []⟩

/-- Something that is done through an existing handle. -/
def State.through (s : State N F) (handle : Nat) (t : State N F) : Option (State N F) :=
  if handle < s.handles then some t else none

/-- The state after an action, if it can happen. All handles share the cell and the notifier,
so it does not matter which of them is used. -/
def step (s : State N F) : Action → Option (State N F)
  | .clone h => s.through h { s with handles := s.handles + 1 }
  | .exit h => s.through h { s with initiate := s.initiate.exit }
  | .resume k => (s.initiate.resume k).map fun i => { s with initiate := i }
  | .waitForExit h => s.through h { s with waits := s.waits ++ [.unpolled] }
  | .poll i => do
      let w ← (← s.waits[i]?).poll s.initiate.notify
      some { s with waits := s.waits.set i w }
  | .drop i =>
      if i < s.waits.length then some { s with waits := s.waits.set i .dropped } else none
  | .blockingWaitForExit h => s.through h { s with blocking := s.blocking ++ [.waiting] }
  | .unblock k =>
      if s.blocking[k]? = some .waiting ∧ s.initiate.cell = true then
        some { s with blocking := s.blocking.set k .returned }
      else none

variable (N) in
/-- The runs of one `GracefulExit`. -/
def system : System (State N F) Action where
  Init s := s = .new
  Step s a t := step s a = some t

/-- Once a call of `exit` has completed, every future that has been polled and is still pending
has been woken. -/
def NoLostWakeUp (s : State N F) : Prop :=
  s.initiate.Exited → ∀ f, .pending f ∈ s.waits → completed s.initiate.notify f = true

/-- The action polls a future for the first time. -/
def FirstPoll (s : State N F) : Action → Prop
  | .poll i => s.waits[i]? = some .unpolled
  | _ => False

/-- No future is polled for the first time after a call of `exit` has completed. -/
def InTime (s : State N F) (a : Action) : Prop := FirstPoll s a → ¬ s.initiate.Exited

/-- `InTime` is decided by the future that is polled. -/
instance [DecidableEq F] (s : State N F) : (a : Action) → Decidable (InTime s a)
  | .poll i => inferInstanceAs (Decidable (s.waits[i]? = some .unpolled → _))
  | .clone _ | .exit _ | .resume _ | .waitForExit _ | .drop _ | .blockingWaitForExit _
  | .unblock _ => .isTrue nofun

/-! ## What an action can do -/

omit [Notify N F] in
/-- An action through a handle does what it is said to do. -/
theorem through_eq {s t u : State N F} {h : Nat} (hstep : s.through h t = some u) : t = u :=
  (guarded_eq_some.mp hstep).2

/-- A pending future is left by polling a future that was pending already. -/
theorem pending_of_await {n : N} {f g : F} (h : .pending f = WaitForExit.await n g) :
    f = g := by
  unfold WaitForExit.await at h
  split at h
  · cases h
  · exact WaitForExit.pending.inj h

omit [Notify N F] in
/-- A future is replaced by one that is not a new pending one. -/
theorem pending_of_set {s : State N F} {i : Nat} {w : WaitForExit F}
    (h : ∀ f, .pending f = w → .pending f ∈ s.waits) (f : F)
    (hf : .pending f ∈ s.waits.set i w) : .pending f ∈ s.waits := by
  rcases List.mem_or_eq_of_mem_set hf with hmem | heq
  · exact hmem
  · exact h f heq

/-- What an action does to the shared part and to the pending futures. -/
theorem step_waits {s t : State N F} {a : Action} (h : step s a = some t) :
    WaitStep (FirstPoll s a) s.initiate (fun f => .pending f ∈ s.waits) t.initiate
      (fun f => .pending f ∈ t.waits) := by
  cases a with
  | clone k | blockingWaitForExit k =>
      obtain rfl := through_eq h
      exact .keeps id rfl (fun _ hf => hf)
  | exit k =>
      obtain rfl := through_eq h
      exact .advances id .exit (fun _ hf => hf)
  | resume k =>
      obtain ⟨i, hres, rfl⟩ := Option.map_eq_some_iff.mp h
      exact .advances id (.resume hres) (fun _ hf => hf)
  | waitForExit k =>
      obtain rfl := through_eq h
      exact .keeps id rfl (fun f hf => by simpa using hf)
  | poll i =>
      obtain ⟨w, hw, h⟩ := Option.bind_eq_some_iff.mp h
      obtain ⟨w', hpoll, h⟩ := Option.bind_eq_some_iff.mp h
      obtain rfl := Option.some.inj h
      cases w with
      | unpolled =>
          obtain rfl := Option.some.inj hpoll
          have hi := (List.getElem?_eq_some_iff.mp hw).1
          refine .begins hw rfl (fun hfresh => ?_) (fun f hf => ?_)
          · rw [WaitForExit.await, hfresh]
            exact List.mem_set hi _
          · rcases List.mem_or_eq_of_mem_set hf with hmem | heq
            · exact .inl hmem
            · exact .inr (pending_of_await heq)
      | pending g =>
          obtain rfl := Option.some.inj hpoll
          refine .keeps (by simp [FirstPoll, hw]) rfl (pending_of_set fun f hf => ?_)
          obtain rfl := pending_of_await hf
          exact List.mem_of_getElem? hw
      | ready | dropped => cases hpoll
  | drop i =>
      obtain ⟨-, rfl⟩ := guarded_eq_some.mp h
      exact .keeps id rfl (pending_of_set fun f hf => by cases hf)
  | unblock k =>
      obtain ⟨-, rfl⟩ := guarded_eq_some.mp h
      exact .keeps id rfl (fun _ hf => hf)

/-! ## The results -/

variable (N F) in
/-- The pending futures are the ones that wait. -/
def waiting : Waiting (system (F := F) N) N F where
  initiate s := s.initiate
  waits s f := .pending f ∈ s.waits
  begins := FirstPoll
  init := by
    rintro s rfl
    exact ⟨rfl, fun _ => List.not_mem_nil⟩
  step _ _ _ h := step_waits h

/-- A blocking call is never left waiting: once a call of `exit` has completed it can return. -/
theorem blocking_wait_returns {s : State N F} {k : Nat} (h : (system N).Reachable s)
    (hexit : s.initiate.Exited) (hk : s.blocking[k]? = some .waiting) :
    step s (.unblock k) = some { s with blocking := s.blocking.set k .returned } :=
  if_pos ⟨hk, ((waiting N F).inv h).cell_set _ hexit (by decide)⟩

/-- No call of `exit` leaves a polled future waiting in a run exactly when no future of the run
is polled for the first time after a call has completed. -/
theorem no_lost_wake_up_iff (hnotify : Documented N) {run : List (Action × State N F)}
    (hrun : (system N).Run .new run) :
    System.States NoLostWakeUp .new run ↔ System.Steps InTime .new run :=
  (waiting N F).woken_iff hnotify rfl hrun

/-- A call of `exit` through the only handle has completed. -/
def exited (waits : List (WaitForExit Nat)) : State CallCount Nat :=
  ⟨1, ⟨true, ⟨1⟩, [.completed]⟩, waits, []⟩

/-- A future is polled before and after the call of `exit`. -/
def earlyWait : List (Action × State CallCount Nat) :=
  [(.waitForExit 0, ⟨1, .new, [.unpolled], []⟩),
    (.poll 0, ⟨1, .new, [.pending 0], []⟩),
    (.exit 0, ⟨1, ⟨false, ⟨0⟩, [.called]⟩, [.pending 0], []⟩),
    (.resume 0, ⟨1, ⟨true, ⟨0⟩, [.cellSet]⟩, [.pending 0], []⟩),
    (.resume 0, exited [.pending 0]),
    (.poll 0, exited [.ready])]

/-- A future that is polled before the call of `exit` is woken by it. -/
theorem no_lost_wake_up_early : System.States NoLostWakeUp .new earlyWait := by
  refine (no_lost_wake_up_iff CallCount.documented ?_).mpr (by decide)
  exact ⟨rfl, rfl, rfl, rfl, rfl, rfl, trivial⟩

/-- A future is polled after the call of `exit` alone. -/
def lateWait : List (Action × State CallCount Nat) :=
  [(.exit 0, ⟨1, ⟨false, ⟨0⟩, [.called]⟩, [], []⟩),
    (.resume 0, ⟨1, ⟨true, ⟨0⟩, [.cellSet]⟩, [], []⟩),
    (.resume 0, exited []),
    (.waitForExit 0, exited [.unpolled]),
    (.poll 0, exited [.pending 1])]

/-- A future that is polled for the first time after the call of `exit` is never woken. -/
theorem late_wait_lost :
    ∃ s : State CallCount Nat, (system CallCount).Reachable s ∧ ¬ NoLostWakeUp s := by
  have hrun : (system CallCount).Run .new lateWait := ⟨rfl, rfl, rfl, rfl, rfl, trivial⟩
  obtain ⟨-, hreach⟩ := System.run_reachable (.init rfl) hrun
  refine ⟨exited [.pending 1], hreach (.poll 0, _) (by decide), fun h => ?_⟩
  exact absurd (h (by decide) 1 (by decide)) (by decide)

end Waits

end Bws.GracefulExit
