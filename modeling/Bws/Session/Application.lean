import Bws.GracefulExit.Guards
import Bws.GracefulExit.Waiting
import Mathlib.Data.List.Perm.Basic

/-!
# The application

`run_app` with its threads and tasks: whoever calls `shutdown`, the server, the connections that it
accepts, and the main thread, which waits for a shutdown and then for the guards. The old crate's
`ShutdownSystem` is `GracefulExit` under another name. Every task holds a guard from its first poll
to its end, and waits for the shutdown only in its `select!`s. `returns_when_quiet` says when the
application returns, and what is then left of the tasks.
-/

namespace Bws.Session.Application

open Bws.Base Bws.Base.Notify Bws.GracefulExit

variable {N F : Type} [Notify N F]

/-! ## Tasks -/

/-- Where a task is: not yet polled, at work on what comes before its first `select!` (the server
binds its port, a connection looks for a legacy ping), about to begin a `select!`, waiting in one
with a future of its own, or over. The task has a guard in between. -/
inductive Stage (F : Type) where
  | spawned
  | busy (guard : UInt64)
  | choosing (guard : UInt64)
  | selecting (guard : UInt64) (exit : F)
  | finished
  deriving DecidableEq, Repr

/-- A task, and how many `select!`s it has yet to go through: the server has one, and a connection
has one for its handshake and one for its session. -/
structure Task (F : Type) where
  selects : Nat
  stage : Stage F
  deriving DecidableEq, Repr

/-- `run`, in a thread of its own. -/
def run : Task F := ⟨1, .spawned⟩

/-- The task of a connection. -/
def handleConn : Task F := ⟨2, .spawned⟩

/-- What a poll of a `select!` comes to: it waits, or its other branch has a result that the task
goes on with, or the task ends. -/
inductive Next (F : Type) where
  | waits (exit : F)
  | goesOn
  | ends
  deriving DecidableEq, Repr

/-- One poll of a `select!` whose future of the notifier is `exit`. Its other branch has no result,
one to go on with, or an error, and the two branches are polled in either order. -/
def select (n : N) (exit : F) (exitFirst : Bool) : Option Bool → Next F
  | none => if completed n exit then .ends else .waits exit
  | some result =>
      if exitFirst && completed n exit then .ends else if result then .goesOn else .ends

namespace Task

/-- The guard that a task holds. -/
def guard (task : Task F) : Option UInt64 :=
  match task.stage with
  | .spawned | .finished => none
  | .busy guard | .choosing guard | .selecting guard _ => some guard

/-- The guard of a task in a `select!`, and the future with which it waits for the shutdown. The
future is created by the first poll. -/
def exit (n : N) (task : Task F) : Option (UInt64 × F) :=
  match task.stage with
  | .choosing guard => some (guard, notified n)
  | .selecting guard exit => some (guard, exit)
  | .spawned | .busy _ | .finished => none

/-- The task after a poll of its `select!`. Behind the last one it is over. -/
def after (task : Task F) (guard : UInt64) : Next F → Task F
  | .waits exit => { task with stage := .selecting guard exit }
  | .goesOn => ⟨task.selects - 1, if task.selects ≤ 1 then .finished else .choosing guard⟩
  | .ends => { task with stage := .finished }

end Task

/-! ## The application -/

/-- What initiates the shutdown, the guards with the wait of the main thread for them, and the
tasks, of which the first is the server. All of them go through one handle, as a clone of it is a
handle to the same system. -/
structure State (N F : Type) where
  initiate : Initiate N
  guards : Guards.State
  tasks : List (Task F)

/-- What happens next: `shutdown` is called by the handler of Ctrl-C or by anybody else, a task is
polled or the server accepts a connection, or the main thread goes on. -/
inductive Action where
  | shutdown
  | resume (call : Nat)
  | begin (task : Nat) (guard : UInt64)
  | settle (task : Nat) (goesOn : Bool)
  | poll (task : Nat) (exitFirst : Bool) (result : Option Bool)
  | accept
  | waitForGuards
  | wake
  | check (expired : Bool)
  deriving DecidableEq, Repr

namespace State

/-- The thread of the server has been started, and nothing has been done by it. -/
def new : State N F := ⟨.new, .new, [run]⟩

/-- Put a task back that has held a guard. A task that is over has dropped it. -/
def put (s : State N F) (i : Nat) (guard : UInt64) (task : Task F) : Option (State N F) :=
  if task.guard.isSome then some { s with tasks := s.tasks.set i task }
  else (Guards.step s.guards (.drop guard)).map fun guards =>
    { s with guards := guards, tasks := s.tasks.set i task }

/-- The server is in its `select!`, where it accepts connections. -/
def accepts (s : State N F) : Bool :=
  match s.tasks[0]?.map Task.stage with
  | some (.choosing _) | some (.selecting _ _) => true
  | _ => false

/-- Whether the wait of the main thread for the guards has timed out, once it is over. The
application returns with it. -/
def returned (s : State N F) : Option Bool :=
  match s.guards.waiters[0]?.map Guards.Waiter.phase with
  | some (.returned timedOut) => some timedOut
  | _ => none

end State

/-- The state after an action, if it can happen. The main thread waits for the cell, and only then
for the guards, for at most `timeout`. -/
def step (timeout : Option UInt64) (s : State N F) : Action → Option (State N F)
  | .shutdown => some { s with initiate := s.initiate.exit }
  | .resume k => (s.initiate.resume k).map fun i => { s with initiate := i }
  | .begin i guard => do
      let task ← s.tasks[i]?
      match task.stage with
      | .spawned => (Guards.step s.guards (.guard 0 guard)).map fun guards =>
          { s with guards := guards, tasks := s.tasks.set i { task with stage := .busy guard } }
      | _ => none
  | .settle i goesOn => do
      let task ← s.tasks[i]?
      match task.stage with
      | .busy guard =>
          s.put i guard { task with stage := if goesOn then .choosing guard else .finished }
      | _ => none
  | .poll i exitFirst result => do
      let task ← s.tasks[i]?
      let (guard, exit) ← task.exit s.initiate.notify
      s.put i guard (task.after guard (select s.initiate.notify exit exitFirst result))
  | .accept => if s.accepts then some { s with tasks := s.tasks ++ [handleConn] } else none
  | .waitForGuards =>
      if s.initiate.cell = true ∧ s.guards.waiters = [] then
        (Guards.step s.guards (.blockingWaitForGuards 0 timeout)).map fun guards =>
          { s with guards := guards }
      else none
  | .wake => (Guards.step s.guards (.wake 0)).map fun guards => { s with guards := guards }
  | .check expired =>
      (Guards.step s.guards (.check 0 expired)).map fun guards => { s with guards := guards }

variable (N F) in
/-- The runs of an application with this timeout. -/
def system (timeout : Option UInt64) : System (State N F) Action where
  Init s := s = .new
  Step s a t := step timeout s a = some t

variable (N F) in
/-- The run of an application in which these actions happen. -/
def play (timeout : Option UInt64) (s : State N F) (actions : List Action) :
    List (Action × State N F) := System.play (step timeout) s actions

/-- What is played is a run. -/
theorem play_run (timeout : Option UInt64) (s : State N F) (actions : List Action) :
    (system N F timeout).Run s (play N F timeout s actions) :=
  System.play_run (fun _ _ _ h => h) s actions

/-! ## What an action can do -/

/-- What an action does, under the conditions it is taken. -/
inductive Effect (timeout : Option UInt64) (s : State N F) : Action → State N F → Prop where
  | shutdown : Effect timeout s .shutdown { s with initiate := s.initiate.exit }
  | resume {k : Nat} {i : Initiate N} (hresume : s.initiate.resume k = some i) :
      Effect timeout s (.resume k) { s with initiate := i }
  | begin {i : Nat} {task : Task F} {guard : UInt64} {guards : Guards.State}
      (hi : s.tasks[i]? = some task) (hstage : task.stage = .spawned)
      (hguards : Guards.step s.guards (.guard 0 guard) = some guards) :
      Effect timeout s (.begin i guard) { s with
        guards := guards, tasks := s.tasks.set i { task with stage := .busy guard } }
  | settle {i : Nat} {goesOn : Bool} {task : Task F} {guard : UInt64} {t : State N F}
      (hi : s.tasks[i]? = some task) (hstage : task.stage = .busy guard)
      (hput : s.put i guard { task with stage := if goesOn then .choosing guard else .finished }
        = some t) : Effect timeout s (.settle i goesOn) t
  | poll {i : Nat} {exitFirst : Bool} {result : Option Bool} {task : Task F} {guard : UInt64}
      {exit : F} {t : State N F} (hi : s.tasks[i]? = some task)
      (hexit : task.exit s.initiate.notify = some (guard, exit))
      (hput : s.put i guard (task.after guard (select s.initiate.notify exit exitFirst result))
        = some t) : Effect timeout s (.poll i exitFirst result) t
  | accept : Effect timeout s .accept { s with tasks := s.tasks ++ [handleConn] }
  | waitForGuards {guards : Guards.State} (hcell : s.initiate.cell = true)
      (hnone : s.guards.waiters = [])
      (hguards : Guards.step s.guards (.blockingWaitForGuards 0 timeout) = some guards) :
      Effect timeout s .waitForGuards { s with guards := guards }
  | wake {guards : Guards.State} (hguards : Guards.step s.guards (.wake 0) = some guards) :
      Effect timeout s .wake { s with guards := guards }
  | check {expired : Bool} {guards : Guards.State}
      (hguards : Guards.step s.guards (.check 0 expired) = some guards) :
      Effect timeout s (.check expired) { s with guards := guards }

variable {timeout : Option UInt64} {s t : State N F} {a : Action}

/-- Every action has its effect. -/
theorem step_effect (h : step timeout s a = some t) : Effect timeout s a t := by
  cases a with
  | shutdown =>
      obtain rfl := Option.some.inj h
      exact .shutdown
  | resume k =>
      obtain ⟨i, hresume, rfl⟩ := Option.map_eq_some_iff.mp h
      exact .resume hresume
  | begin i guard =>
      obtain ⟨task, hi, h⟩ := Option.bind_eq_some_iff.mp h
      split at h
      · next hstage =>
          obtain ⟨guards, hguards, rfl⟩ := Option.map_eq_some_iff.mp h
          exact .begin hi hstage hguards
      · cases h
  | settle i goesOn =>
      obtain ⟨task, hi, h⟩ := Option.bind_eq_some_iff.mp h
      split at h
      · next hstage => exact .settle hi hstage h
      · cases h
  | poll i exitFirst result =>
      obtain ⟨task, hi, h⟩ := Option.bind_eq_some_iff.mp h
      obtain ⟨⟨guard, exit⟩, hexit, h⟩ := Option.bind_eq_some_iff.mp h
      exact .poll hi hexit h
  | accept =>
      obtain ⟨-, rfl⟩ := guarded_eq_some.mp h
      exact .accept
  | waitForGuards =>
      obtain ⟨⟨hcell, hnone⟩, h⟩ := Option.ite_none_right_eq_some.mp h
      obtain ⟨guards, hguards, rfl⟩ := Option.map_eq_some_iff.mp h
      exact .waitForGuards hcell hnone hguards
  | wake =>
      obtain ⟨guards, hguards, rfl⟩ := Option.map_eq_some_iff.mp h
      exact .wake hguards
  | check expired =>
      obtain ⟨guards, hguards, rfl⟩ := Option.map_eq_some_iff.mp h
      exact .check hguards

namespace Task

variable {n : N} {task : Task F} {guard : UInt64} {exit : F}

/-- A task in a `select!` holds its guard. -/
theorem guard_of_exit (h : task.exit n = some (guard, exit)) : task.guard = some guard := by
  unfold Task.exit at h
  unfold Task.guard
  split at h <;> cases h <;> simp [*]

omit [Notify N F] in
/-- A poll keeps the guard, or the task is over. -/
theorem guard_after (next : Next F) :
    (task.after guard next).guard = some guard ∨ (task.after guard next).guard = none := by
  cases next with
  | waits exit => exact .inl rfl
  | ends => exact .inr rfl
  | goesOn =>
      by_cases hlast : task.selects ≤ 1
      · exact .inr (by simp [after, hlast, Task.guard])
      · exact .inl (by simp [after, hlast, Task.guard])

end Task

omit [Notify N F] in
/-- A task is put back with its guard, or without it. -/
theorem put_cases {i : Nat} {guard : UInt64} {task : Task F} (h : s.put i guard task = some t) :
    (task.guard.isSome ∧ t = { s with tasks := s.tasks.set i task }) ∨
      (task.guard = none ∧ ∃ guards, Guards.step s.guards (.drop guard) = some guards ∧
        t = { s with guards := guards, tasks := s.tasks.set i task }) := by
  unfold State.put at h
  split at h
  · next hsome =>
      obtain rfl := Option.some.inj h
      exact .inl ⟨hsome, rfl⟩
  · next hnone =>
      obtain ⟨guards, hguards, rfl⟩ := Option.map_eq_some_iff.mp h
      exact .inr ⟨Option.not_isSome_iff_eq_none.mp hnone, guards, hguards, rfl⟩

omit [Notify N F] in
/-- Nothing but the tasks changes when one is put back, and the guards. -/
theorem put_eq {i : Nat} {guard : UInt64} {task : Task F} (h : s.put i guard task = some t) :
    t.tasks = s.tasks.set i task ∧ t.initiate = s.initiate := by
  rcases put_cases h with ⟨-, rfl⟩ | ⟨-, -, -, rfl⟩ <;> exact ⟨rfl, rfl⟩

/-! ## Who holds a guard -/

/-- One element of a list and the others, as a filter sees them. -/
theorem filter_map_perm {α β : Type} {f : α → Option β} {l : List α} {i : Nat} {a : α}
    (h : l[i]? = some a) : (l.filterMap f).Perm ((f a).toList ++ (l.eraseIdx i).filterMap f) := by
  obtain ⟨hlt, rfl⟩ := List.getElem?_eq_some_iff.mp h
  refine ((List.getElem_cons_eraseIdx_perm hlt).symm.filterMap f).trans (.of_eq ?_)
  cases hf : f l[i] <;> simp [hf]

/-- Replacing one element leaves the others alone. -/
theorem filter_map_set_perm {α β : Type} {f : α → Option β} {l : List α} {i : Nat} {a : α} (b : α)
    (h : l[i]? = some a) :
    ((l.set i b).filterMap f).Perm ((f b).toList ++ (l.eraseIdx i).filterMap f) := by
  obtain ⟨hlt, -⟩ := List.getElem?_eq_some_iff.mp h
  have hset := filter_map_perm (f := f) (List.getElem?_set_self (a := b) hlt)
  rwa [List.eraseIdx_set_eq] at hset

/-- The guards that tasks hold. -/
def held (tasks : List (Task F)) : Multiset UInt64 := tasks.filterMap Task.guard

section Held

omit [Notify N F]

variable {tasks : List (Task F)} {task : Task F} {i : Nat} {guard : UInt64}

/-- A task that holds no guard adds none. -/
theorem held_of_none (hi : tasks[i]? = some task) (h : task.guard = none) :
    held tasks = held (tasks.eraseIdx i) :=
  Multiset.coe_eq_coe.mpr ((filter_map_perm hi).trans (.of_eq (by simp [h])))

/-- A task that holds a guard adds it to those of the others. -/
theorem held_of_some (hi : tasks[i]? = some task) (h : task.guard = some guard) :
    held tasks = guard ::ₘ held (tasks.eraseIdx i) :=
  Multiset.coe_eq_coe.mpr ((filter_map_perm hi).trans (.of_eq (by simp [h])))

/-- A task that is put back without a guard leaves those of the others. -/
theorem held_set_of_none (put : Task F) (hi : tasks[i]? = some task) (h : put.guard = none) :
    held (tasks.set i put) = held (tasks.eraseIdx i) :=
  Multiset.coe_eq_coe.mpr ((filter_map_set_perm put hi).trans (.of_eq (by simp [h])))

/-- A task that is put back with a guard adds it to those of the others. -/
theorem held_set_of_some (put : Task F) (hi : tasks[i]? = some task)
    (h : put.guard = some guard) :
    held (tasks.set i put) = guard ::ₘ held (tasks.eraseIdx i) :=
  Multiset.coe_eq_coe.mpr ((filter_map_set_perm put hi).trans (.of_eq (by simp [h])))

end Held

/-! ## The invariant -/

/-- The main thread has begun its wait for the guards at most once, behind the cell. The wait can
only time out with a timeout. -/
structure WaitsOnce (timeout : Option UInt64) (cell : Bool) (waiters : List Guards.Waiter) :
    Prop where
  once : waiters.length ≤ 1
  cell_set : waiters ≠ [] → cell = true
  own_timeout : ∀ w ∈ waiters, w.timeout = timeout
  in_time : timeout = none → ∀ w ∈ waiters, w.phase ≠ .returned true

/-- The live guards are those that the tasks hold, and each is held by one. -/
structure Inv (timeout : Option UInt64) (s : State N F) : Prop where
  guards : Guards.Inv s.guards
  handle : s.guards.handles = 1
  all_held : held s.tasks = s.guards.guards.val
  waits : WaitsOnce timeout s.initiate.cell s.guards.waiters

/-- A wait with no timeout does not time out. -/
theorem check_in_time {w : Guards.Waiter} (counter : UInt64) (expired : Bool)
    (h : w.timeout = none) : (w.check counter expired).phase ≠ .returned true := by
  unfold Guards.Waiter.check
  rw [h]
  split <;> simp

/-- A check keeps the timeout. -/
@[simp] theorem check_timeout (w : Guards.Waiter) (counter : UInt64) (expired : Bool) :
    (w.check counter expired).timeout = w.timeout := by
  unfold Guards.Waiter.check
  split
  · split <;> rfl
  · rfl

/-- Waking up keeps the timeout. -/
@[simp] theorem wake_timeout (w : Guards.Waiter) : w.wake.timeout = w.timeout := by
  unfold Guards.Waiter.wake
  split <;> rfl

/-- Waking up is not returning. -/
@[simp] theorem wake_returned {w : Guards.Waiter} {timedOut : Bool} :
    w.wake.phase = .returned timedOut ↔ w.phase = .returned timedOut := by
  unfold Guards.Waiter.wake
  split
  · next h => simp [h]
  · rfl

namespace WaitsOnce

variable {cell : Bool} {waiters : List Guards.Waiter}

/-- Nobody has begun to wait. -/
theorem nil : WaitsOnce timeout cell [] := by
  constructor <;> simp

/-- The one wait begins behind the cell. -/
theorem called (hcell : cell = true) : WaitsOnce timeout cell [⟨timeout, .called⟩] := by
  constructor <;> simp [hcell]

/-- The waiters may be woken. -/
theorem map_wake (h : WaitsOnce timeout cell waiters) :
    WaitsOnce timeout cell (waiters.map Guards.Waiter.wake) where
  once := by simpa using h.once
  cell_set := by simpa using h.cell_set
  own_timeout := by simpa using h.own_timeout
  in_time := by simpa using h.in_time

/-- A waiter may be replaced by one with its timeout that has not timed out without one. -/
theorem set {i : Nat} {w v : Guards.Waiter} (h : WaitsOnce timeout cell waiters)
    (hi : waiters[i]? = some w) (hsame : v.timeout = w.timeout)
    (htime : timeout = none → v.phase ≠ .returned true) :
    WaitsOnce timeout cell (waiters.set i v) where
  once := by simpa using h.once
  cell_set := by simpa using h.cell_set
  own_timeout u hu := by
    rcases List.mem_or_eq_of_mem_set hu with hmem | rfl
    · exact h.own_timeout u hmem
    · exact hsame.trans (h.own_timeout w (List.mem_of_getElem? hi))
  in_time hnone u hu := by
    rcases List.mem_or_eq_of_mem_set hu with hmem | rfl
    · exact h.in_time hnone u hmem
    · exact htime hnone

/-- A waiter may go on. -/
theorem step {guards guards' : Guards.State} {a : Guards.Action}
    (h : WaitsOnce timeout cell guards.waiters) (hstep : Guards.step guards a = some guards')
    (hcall : ∀ k t, a ≠ .blockingWaitForGuards k t) :
    WaitsOnce timeout cell guards'.waiters := by
  cases Guards.step_effect hstep with
  | clone _ => exact h
  | guard _ _ _ =>
      unfold Guards.State.guard
      split <;> exact h
  | drop _ =>
      unfold Guards.State.dropGuard
      dsimp only
      split
      · exact h
      · split
        · exact h.map_wake
        · exact h
  | call k t => exact absurd rfl (hcall k t)
  | wake hi =>
      refine h.set hi (wake_timeout _) fun hnone => ?_
      rw [Ne, wake_returned]
      exact h.in_time hnone _ (List.mem_of_getElem? hi)
  | check hi expired =>
      refine h.set hi (check_timeout _ _ _) fun hnone => check_in_time _ _ ?_
      rw [h.own_timeout _ (List.mem_of_getElem? hi), hnone]

end WaitsOnce

/-- The cell stays set. -/
theorem cell_of_resume {i j : Initiate N} {k : Nat} (h : i.resume k = some j)
    (hcell : i.cell = true) : j.cell = true := by
  unfold Initiate.resume at h
  split at h <;> cases h
  · rfl
  · exact hcell

/-- A new guard is added to the live ones. -/
theorem guards_of_guard {guards guards' : Guards.State} {k : Nat} {address : UInt64}
    (h : Guards.Inv guards) (hstep : Guards.step guards (.guard k address) = some guards') :
    guards'.guards.val = address ::ₘ guards.guards.val := by
  cases Guards.step_effect hstep with
  | guard _ hnull hfresh =>
      have hroom := Guards.card_lt hnull hfresh h.null
      rw [Guards.State.guard, if_pos (by rwa [h.counter])]
      exact Finset.insert_val_of_notMem hfresh

/-- A guard that is dropped leaves the other ones. -/
theorem guards_of_drop {guards guards' : Guards.State} {address : UInt64}
    (hstep : Guards.step guards (.drop address) = some guards') :
    guards'.guards = guards.guards.erase address := by
  cases Guards.step_effect hstep with
  | drop _ =>
      unfold Guards.State.dropGuard
      dsimp only
      split
      · rfl
      · split <;> rfl

/-- The number of handles is that of the system. -/
theorem handles_of_step {guards guards' : Guards.State} {a : Guards.Action}
    (hstep : Guards.step guards a = some guards') (hclone : ∀ k, a ≠ .clone k) :
    guards'.handles = guards.handles := by
  cases Guards.step_effect hstep with
  | clone k => exact absurd rfl (hclone k)
  | guard _ _ _ =>
      unfold Guards.State.guard
      split <;> rfl
  | drop _ =>
      unfold Guards.State.dropGuard
      dsimp only
      split
      · rfl
      · split <;> rfl
  | call _ _ | wake _ | check _ _ => rfl

/-- The guards are not touched by the one who waits for them. -/
theorem guards_of_wait {guards guards' : Guards.State} {a : Guards.Action}
    (hstep : Guards.step guards a = some guards') (hguard : ∀ k address, a ≠ .guard k address)
    (hdrop : ∀ address, a ≠ .drop address) : guards'.guards = guards.guards := by
  cases Guards.step_effect hstep with
  | guard k _ _ => exact absurd rfl (hguard k _)
  | drop _ => exact absurd rfl (hdrop _)
  | clone _ | call _ _ | wake _ | check _ _ => rfl

omit [Notify N F] in
/-- Putting a task back keeps the invariant. -/
theorem inv_put {i : Nat} {guard : UInt64} {old task : Task F} (h : Inv timeout s)
    (hi : s.tasks[i]? = some old) (hold : old.guard = some guard)
    (htask : task.guard = some guard ∨ task.guard = none)
    (hput : s.put i guard task = some t) : Inv timeout t := by
  have hbefore := (held_of_some hi hold).symm.trans h.all_held
  rcases put_cases hput with ⟨hsome, rfl⟩ | ⟨hnone, guards, hguards, rfl⟩
  · have hkeeps : task.guard = some guard := by
      rcases htask with h | h
      · exact h
      · simp [h] at hsome
    exact ⟨h.guards, h.handle, (held_set_of_some _ hi hkeeps).trans hbefore, h.waits⟩
  · refine ⟨Guards.step_inv h.guards hguards,
        (handles_of_step hguards nofun).trans h.handle, ?_, h.waits.step hguards nofun⟩
    rw [held_set_of_none _ hi hnone, guards_of_drop hguards, Finset.erase_val, ← hbefore,
      Multiset.erase_cons_head]

/-- Every action keeps the invariant. -/
theorem step_inv (h : Inv timeout s) (hstep : step timeout s a = some t) : Inv timeout t := by
  cases step_effect hstep with
  | shutdown => exact ⟨h.guards, h.handle, h.all_held, h.waits⟩
  | resume hresume =>
      have hwaits := h.waits
      refine ⟨h.guards, h.handle, h.all_held, hwaits.once, fun hne => ?_, hwaits.own_timeout,
        hwaits.in_time⟩
      exact cell_of_resume hresume (hwaits.cell_set hne)
  | begin hi hstage hguards =>
      refine ⟨Guards.step_inv h.guards hguards,
        (handles_of_step hguards nofun).trans h.handle, ?_, h.waits.step hguards nofun⟩
      rw [held_set_of_some _ hi rfl, guards_of_guard h.guards hguards, ← h.all_held,
        held_of_none hi (by rw [Task.guard, hstage])]
  | settle hi hstage hput =>
      refine inv_put h hi (by rw [Task.guard, hstage]) ?_ hput
      split
      · exact .inl rfl
      · exact .inr rfl
  | poll hi hexit hput =>
      exact inv_put h hi (Task.guard_of_exit hexit) (Task.guard_after _) hput
  | accept =>
      refine ⟨h.guards, h.handle, ?_, h.waits⟩
      rw [← h.all_held, held, List.filterMap_append, List.filterMap_cons_none rfl,
        List.filterMap_nil, List.append_nil, held]
  | waitForGuards hcell hnone hguards =>
      refine ⟨Guards.step_inv h.guards hguards,
        (handles_of_step hguards nofun).trans h.handle, ?_, ?_⟩
      · rw [guards_of_wait hguards nofun nofun]
        exact h.all_held
      · cases Guards.step_effect hguards with
        | call _ _ =>
            dsimp only
            rw [hnone]
            exact .called hcell
  | wake hguards =>
      refine ⟨Guards.step_inv h.guards hguards,
        (handles_of_step hguards nofun).trans h.handle, ?_, h.waits.step hguards nofun⟩
      rw [guards_of_wait hguards nofun nofun]
      exact h.all_held
  | check hguards =>
      refine ⟨Guards.step_inv h.guards hguards,
        (handles_of_step hguards nofun).trans h.handle, ?_, h.waits.step hguards nofun⟩
      rw [guards_of_wait hguards nofun nofun]
      exact h.all_held

/-- The invariant holds in every reachable state. -/
theorem reachable_inv (h : (system N F timeout).Reachable s) : Inv timeout s := by
  refine System.reachable_invariant ?_ (fun _ _ _ => step_inv) h
  rintro s rfl
  exact ⟨Guards.reachable_inv (.init rfl), rfl, rfl, .nil⟩

/-! ## The result -/

omit [Notify N F] in
/-- The wait of the main thread is over when its phase says so. -/
theorem returned_eq_some {timedOut : Bool} : s.returned = some timedOut ↔
    ∃ w, s.guards.waiters[0]? = some w ∧ w.phase = .returned timedOut := by
  unfold State.returned
  cases s.guards.waiters[0]? with
  | none => simp
  | some w =>
      obtain ⟨own, phase⟩ := w
      cases phase <;> simp

/-- The wait comes to its end in a check of its own. -/
theorem guards_return {guards guards' : Guards.State} {a : Guards.Action} {v : Guards.Waiter}
    {timedOut : Bool} (hstep : Guards.step guards a = some guards')
    (hv : guards'.waiters[0]? = some v) (hphase : v.phase = .returned timedOut) :
    (∃ w, guards.waiters[0]? = some w ∧ w.phase = .returned timedOut) ∨
      (∃ (w : Guards.Waiter) (expired : Bool), a = .check 0 expired ∧
        v = w.check guards.counter expired ∧ guards'.guards = guards.guards) := by
  cases Guards.step_effect hstep with
  | clone _ => exact .inl ⟨v, hv, hphase⟩
  | guard _ _ _ =>
      unfold Guards.State.guard at hv
      split at hv <;> exact .inl ⟨v, hv, hphase⟩
  | drop _ =>
      unfold Guards.State.dropGuard at hv
      dsimp only at hv
      split at hv
      · exact .inl ⟨v, hv, hphase⟩
      · split at hv
        · rw [Guards.State.notifyAll, List.getElem?_map] at hv
          obtain ⟨w, hw, rfl⟩ := Option.map_eq_some_iff.mp hv
          exact .inl ⟨w, hw, wake_returned.mp hphase⟩
        · exact .inl ⟨v, hv, hphase⟩
  | call _ own =>
      rw [List.getElem?_append] at hv
      split at hv
      · exact .inl ⟨v, hv, hphase⟩
      · obtain rfl := List.mem_singleton.mp (List.mem_of_getElem? hv)
        simp at hphase
  | @wake i w hi =>
      rw [List.getElem?_set] at hv
      split at hv
      · next hzero =>
          obtain ⟨-, rfl⟩ := guarded_eq_some.mp hv
          exact .inl ⟨w, hzero ▸ hi, wake_returned.mp hphase⟩
      · exact .inl ⟨v, hv, hphase⟩
  | @check i w hi expired =>
      rw [List.getElem?_set] at hv
      split at hv
      · next hzero =>
          subst hzero
          obtain ⟨-, rfl⟩ := guarded_eq_some.mp hv
          exact .inr ⟨w, expired, rfl, rfl, rfl⟩
      · exact .inl ⟨v, hv, hphase⟩

/-- A wait that is over in time has found the counter at zero. -/
theorem zero_of_check_in_time {w : Guards.Waiter} {counter : UInt64} {expired : Bool}
    (h : (w.check counter expired).phase = .returned false) : counter = 0 := by
  by_contra hne
  rw [Guards.Waiter.check, if_pos (UInt64.pos_iff_ne_zero.mpr hne)] at h
  obtain ⟨own, phase⟩ := w
  cases own with
  | none => cases h
  | some _ => cases expired <;> cases h

/-- The guards change in a step of their own, or not at all. -/
theorem guards_step (h : step timeout s a = some t) :
    t.guards = s.guards ∨ ∃ b, Guards.step s.guards b = some t.guards := by
  cases step_effect h with
  | shutdown | resume _ | accept => exact .inl rfl
  | begin _ _ hguards | waitForGuards _ _ hguards | wake hguards | check hguards =>
      exact .inr ⟨_, hguards⟩
  | settle _ _ hput | poll _ _ hput =>
      rcases put_cases hput with ⟨-, rfl⟩ | ⟨-, guards, hguards, rfl⟩
      · exact .inl rfl
      · exact .inr ⟨_, hguards⟩

omit [Notify N F] in
/-- With no live guard no task holds one. -/
theorem none_held (h : Inv timeout s) (hguards : s.guards.guards = ∅) :
    ∀ task ∈ s.tasks, task.guard = none := by
  have hheld := h.all_held
  rw [hguards, Finset.empty_val] at hheld
  exact List.filterMap_eq_nil_iff.mp (Multiset.coe_eq_zero _ |>.mp hheld)

omit [Notify N F] in
/-- The main thread is at its end only behind the cell. -/
theorem cell_of_returned (h : Inv timeout s) {timedOut : Bool}
    (hreturned : s.returned = some timedOut) : s.initiate.cell = true := by
  obtain ⟨v, hv, -⟩ := returned_eq_some.mp hreturned
  exact h.waits.cell_set (List.ne_nil_of_mem (List.mem_of_getElem? hv))

/-- When the wait comes to its end in time, no task holds a guard. -/
theorem quiet_of_returned (h : Inv timeout s) (hstep : step timeout s a = some t)
    (hbefore : s.returned ≠ some false) (hreturned : t.returned = some false) :
    ∀ task ∈ t.tasks, task.guard = none := by
  obtain ⟨v, hv, hphase⟩ := returned_eq_some.mp hreturned
  rcases guards_step hstep with hsame | ⟨b, hguards⟩
  · rw [hsame] at hv
    exact absurd (returned_eq_some.mpr ⟨v, hv, hphase⟩) hbefore
  · rcases guards_return hguards hv hphase with hold | ⟨w, expired, -, rfl, hsame⟩
    · exact absurd (returned_eq_some.mpr hold) hbefore
    · have hzero := h.guards.counter
      rw [zero_of_check_in_time hphase, UInt64.toNat_zero] at hzero
      exact none_held (step_inv h hstep) (hsame.trans (Finset.card_eq_zero.mp hzero.symm))

/-- The application returns only after `shutdown` has been called, and unless its timeout is up,
no task holds a guard then: every one is over or has not been polled. With no timeout it cannot
be up. -/
theorem returns_when_quiet {timedOut : Bool} (h : (system N F timeout).Reachable s)
    (hstep : step timeout s a = some t) (hbefore : s.returned = none)
    (hreturned : t.returned = some timedOut) :
    t.initiate.cell = true ∧ (timedOut = false → ∀ task ∈ t.tasks, task.guard = none) ∧
      (timedOut = true → timeout ≠ none) := by
  have hinv := reachable_inv h
  have hinv' := step_inv hinv hstep
  refine ⟨cell_of_returned hinv' hreturned, ?_, ?_⟩
  · rintro rfl
    exact quiet_of_returned hinv hstep (by simp [hbefore]) hreturned
  · rintro rfl hnone
    obtain ⟨v, hv, hphase⟩ := returned_eq_some.mp hreturned
    exact hinv'.waits.in_time hnone v (List.mem_of_getElem? hv) hphase

/-- The server waits in its `select!` when `shutdown` is called, and ends. The main thread has begun
its wait before that, and is woken up. -/
def endOfServer : List Action :=
  [.begin 0 8, .settle 0 true, .poll 0 false none, .shutdown, .resume 0, .waitForGuards,
    .check false, .resume 0, .poll 0 true none]

/-- The main thread returns behind the server. -/
theorem returns_when_quiet_server :
    let last := System.final (.new : State CallCount Nat) (play CallCount Nat none .new endOfServer)
    last.initiate.cell = true ∧ ∀ task ∈ last.tasks, task.guard = none := by
  have hreach := System.final_reachable (.init rfl)
    (play_run (N := CallCount) none .new endOfServer)
  obtain ⟨hcell, hquiet, -⟩ := returns_when_quiet hreach (a := .check false) rfl rfl rfl
  exact ⟨hcell, hquiet rfl⟩

end Bws.Session.Application
