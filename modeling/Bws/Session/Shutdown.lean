import Bws.Session.Application

/-!
# How the application shuts down

Which tasks hear of a shutdown, and what follows for the main thread. `shutdown_heard_iff` says in
which runs a shutdown is heard by every task that waits for it, `drained_returns` that the
application then comes to its end with no help from the clients, and `unheard_never_returns` that
it does not come to it in time otherwise.
-/

namespace Bws.Session.Application

open Bws.Base Bws.Base.Notify Bws.GracefulExit

variable {N F : Type} [Notify N F]
variable {timeout : Option UInt64} {s t : State N F} {a : Action}

/-! ## Who hears of it -/

/-- A task waits in a `select!` with this future. -/
def Waits (s : State N F) (exit : F) : Prop :=
  ∃ task ∈ s.tasks, ∃ guard, task.stage = .selecting guard exit

/-- A task begins to wait: the first poll of its `select!` finds no result in the other branch. With
a result there the task goes on, and has not waited. -/
def Begins (s : State N F) : Action → Prop
  | .poll i _ none => ∃ task ∈ s.tasks[i]?, ∃ guard, task.stage = .choosing guard
  | _ => False

/-- No task begins to wait after a call of `shutdown` has completed. -/
def InTime (s : State N F) (a : Action) : Prop := Begins s a → ¬ s.initiate.Exited

/-- Every task that waits hears of a call of `shutdown` that has completed. -/
def AllHear (s : State N F) : Prop := AllWoken s.initiate (Waits s)

omit [Notify N F] in
/-- A task that is put back is the only one that may have begun to wait. -/
theorem waits_of_set {i : Nat} {task : Task F} {exit : F} (htasks : t.tasks = s.tasks.set i task)
    (h : Waits t exit) : Waits s exit ∨ ∃ guard, task.stage = .selecting guard exit := by
  obtain ⟨other, hmem, hstage⟩ := h
  rw [htasks] at hmem
  rcases List.mem_or_eq_of_mem_set hmem with hmem | rfl
  · exact .inl ⟨other, hmem, hstage⟩
  · exact .inr hstage

/-- A `select!` waits with the future it has been polled with. -/
theorem select_waits {n : N} {exit f : F} {exitFirst : Bool} {result : Option Bool}
    (h : select n exit exitFirst result = .waits f) : result = none ∧ f = exit := by
  cases result with
  | none =>
      rw [select] at h
      split at h
      · cases h
      · exact ⟨rfl, (Next.waits.inj h).symm⟩
  | some result =>
      rw [select] at h
      split at h
      · cases h
      · split at h <;> cases h

omit [Notify N F] in
/-- A task waits after a poll when the poll says so. -/
theorem after_selecting {task : Task F} {guard own : UInt64} {next : Next F} {f : F}
    (h : (task.after guard next).stage = .selecting own f) : next = .waits f := by
  cases next with
  | waits exit =>
      cases h
      rfl
  | goesOn =>
      simp only [Task.after] at h
      split at h <;> cases h
  | ends => cases h

/-- What an action does to the shared part and to the tasks that wait. -/
theorem step_waits (h : step timeout s a = some t) :
    WaitStep (Begins s a) s.initiate (Waits s) t.initiate (Waits t) := by
  cases step_effect h with
  | shutdown => exact .advances id .exit fun _ hf => hf
  | resume hresume => exact .advances id (.resume hresume) fun _ hf => hf
  | begin _ _ _ =>
      refine .keeps id rfl fun f hf => (waits_of_set rfl hf).resolve_right ?_
      rintro ⟨_, ⟨⟩⟩
  | @settle i goesOn task guard _ hi hstage hput =>
      obtain ⟨htasks, hinitiate⟩ := put_eq hput
      refine .keeps id hinitiate fun f hf => (waits_of_set htasks hf).resolve_right ?_
      rintro ⟨own, hown⟩
      cases goesOn <;> cases hown
  | @poll i exitFirst result task guard exit _ hi hexit hput =>
      obtain ⟨htasks, hinitiate⟩ := put_eq hput
      have hsub : ∀ f, Waits t f → Waits s f ∨ (result = none ∧ f = exit) := fun f hf =>
        (waits_of_set htasks hf).imp_right fun ⟨_, hown⟩ => select_waits (after_selecting hown)
      cases hstage : task.stage with
      | spawned | busy _ | finished => simp [Task.exit, hstage] at hexit
      | choosing own =>
          -- the future has been created by this poll
          obtain ⟨rfl, rfl⟩ : own = guard ∧ notified s.initiate.notify = exit := by
            simpa [Task.exit, hstage] using hexit
          cases result with
          | none =>
              refine .begins ⟨task, hi, own, hstage⟩ hinitiate (fun hfresh => ?_)
                fun f hf => (hsub f hf).imp_right And.right
              have hlt := (List.getElem?_eq_some_iff.mp hi).1
              refine ⟨_, htasks ▸ List.mem_set hlt _, own, ?_⟩
              rw [select, if_neg (by simp [hfresh])]
              rfl
          | some result =>
              exact .keeps id hinitiate fun f hf => (hsub f hf).resolve_right (by simp)
      | selecting own f =>
          obtain ⟨rfl, rfl⟩ : own = guard ∧ f = exit := by
            simpa [Task.exit, hstage] using hexit
          refine .keeps ?_ hinitiate fun f hf => ?_
          · cases result <;> simp [Begins, hi, hstage]
          · rcases hsub f hf with hold | ⟨-, rfl⟩
            · exact hold
            · exact ⟨task, List.mem_of_getElem? hi, own, hstage⟩
  | accept =>
      refine .keeps id rfl fun f hf => ?_
      obtain ⟨task, hmem, guard, hstage⟩ := hf
      rcases List.mem_append.mp hmem with hmem | hmem
      · exact ⟨task, hmem, guard, hstage⟩
      · obtain rfl := List.mem_singleton.mp hmem
        cases hstage
  | waitForGuards _ _ _ | wake _ | check _ => exact .keeps id rfl fun _ hf => hf

variable (N F) in
/-- The tasks in a `select!` are the ones that wait. -/
def waiting (timeout : Option UInt64) : Waiting (system N F timeout) N F where
  initiate s := s.initiate
  waits := Waits
  begins := Begins
  init := by
    rintro s rfl
    refine ⟨rfl, fun f hf => ?_⟩
    obtain ⟨task, hmem, guard, hstage⟩ := hf
    obtain rfl := List.mem_singleton.mp hmem
    cases hstage
  step _ _ _ h := step_waits h

/-- A task hears of a shutdown only when a call of it has completed. -/
theorem exited_of_completed (hnotify : Documented N) (h : (system N F timeout).Reachable s)
    {task : Task F} (hmem : task ∈ s.tasks) {guard : UInt64} {exit : F}
    (hexit : task.exit s.initiate.notify = some (guard, exit))
    (hcompleted : completed s.initiate.notify exit = true) : s.initiate.Exited := by
  cases hstage : task.stage with
  | spawned | busy _ | finished => simp [Task.exit, hstage] at hexit
  | choosing own =>
      obtain ⟨-, rfl⟩ : own = guard ∧ notified s.initiate.notify = exit := by
        simpa [Task.exit, hstage] using hexit
      simp [hnotify.no_permit] at hcompleted
  | selecting own f =>
      obtain ⟨-, rfl⟩ : own = guard ∧ f = exit := by
        simpa [Task.exit, hstage] using hexit
      exact (waiting N F timeout).only_exit hnotify h f ⟨task, hmem, own, hstage⟩ hcompleted

/-- In a run every call of `shutdown` that has completed is heard by every task that waits exactly
when no task begins to wait after a call has completed: neither the server behind its bind, nor a
connection behind its look for a legacy ping or behind its handshake. -/
theorem shutdown_heard_iff (hnotify : Documented N) {run : List (Action × State N F)}
    (hrun : (system N F timeout).Run .new run) :
    System.States AllHear .new run ↔ System.Steps InTime .new run :=
  (waiting N F timeout).woken_iff hnotify rfl hrun

/-- `shutdown` is called while a connection is between its look for a legacy ping and its first
`select!`. -/
def lateConnection : List Action :=
  [.begin 0 8, .settle 0 true, .poll 0 false none, .accept, .begin 1 16, .settle 1 true,
    .shutdown, .resume 0, .resume 0, .poll 1 false none]

/-- Such a connection does not hear of it. -/
theorem shutdown_heard_late :
    ¬ System.States AllHear .new (play CallCount Nat none .new lateConnection) := by
  intro h
  have hsteps := (shutdown_heard_iff CallCount.documented (play_run none .new _)).mp h
  obtain ⟨-, -, -, -, -, -, -, -, -, hlast, -⟩ := hsteps
  exact hlast ⟨_, rfl, 16, rfl⟩ (List.mem_singleton.mpr rfl)

/-! ## Coming to the end -/

/-- What happens with no help from a client and no call of `shutdown`, as long as the time of the
main thread is not up: a `select!` is polled and its other branch has no result, or the main
thread goes on. -/
def Draining : Action → Prop
  | .poll _ _ none | .waitForGuards | .check false => True
  | _ => False

/-- How far the main thread is from its end, when nobody wakes it up. -/
def waitRank : List Guards.Waiter → Nat
  | [] => 3
  | ⟨_, .called⟩ :: _ => 2
  | ⟨_, .woken⟩ :: _ => 1
  | ⟨_, .asleep⟩ :: _ | ⟨_, .returned _⟩ :: _ => 0

/-- How many such actions are left: each task that is over may wake up the main thread. -/
def rank (s : State N F) : Nat := 2 * (held s.tasks).card + waitRank s.guards.waiters

/-- The tasks that hold a guard wait in a `select!` and have heard of the shutdown, and the wait of
the main thread has not timed out. -/
structure Drains (timeout : Option UInt64) (s : State N F) : Prop where
  inv : Inv timeout s
  cell_set : s.initiate.cell = true
  heard : ∀ task ∈ s.tasks, ∀ guard, task.guard = some guard → ∃ exit,
    task.stage = .selecting guard exit ∧ completed s.initiate.notify exit = true
  in_time : s.returned ≠ some true

/-- A notification brings the main thread at most one action away from its end. -/
theorem wait_rank_drop {guards guards' : Guards.State} {address : UInt64}
    (h : Guards.step guards (.drop address) = some guards') :
    waitRank guards'.waiters ≤ waitRank guards.waiters + 1 := by
  cases Guards.step_effect h with
  | drop _ =>
      unfold Guards.State.dropGuard
      dsimp only
      split
      · exact Nat.le_succ _
      · split
        · change waitRank (guards.waiters.map Guards.Waiter.wake) ≤ _
          cases guards.waiters with
          | nil => exact Nat.le_succ _
          | cons w rest =>
              obtain ⟨own, phase⟩ := w
              cases phase <;> simp [waitRank, Guards.Waiter.wake]
        · exact Nat.le_succ _

/-- A poll of a task that has heard of the shutdown ends it. -/
theorem drains_poll {i : Nat} {exitFirst : Bool} (h : Drains timeout s)
    (hstep : step timeout s (.poll i exitFirst none) = some t) :
    Drains timeout t ∧ rank t < rank s := by
  have hinv := step_inv h.inv hstep
  cases step_effect hstep with
  | @poll _ _ _ task guard exit _ hi hexit hput =>
      have hguard := Task.guard_of_exit hexit
      obtain ⟨f, hstage, hcompleted⟩ := h.heard task (List.mem_of_getElem? hi) guard hguard
      obtain rfl : f = exit := by simpa [Task.exit, hstage] using hexit
      rw [select, if_pos hcompleted] at hput
      rcases put_cases hput with ⟨hsome, -⟩ | ⟨-, guards, hguards, rfl⟩
      · cases hsome
      refine ⟨⟨hinv, h.cell_set, fun other hmem own hown => ?_, fun hreturned => ?_⟩, ?_⟩
      · rcases List.mem_or_eq_of_mem_set hmem with hmem | rfl
        · exact h.heard other hmem own hown
        · cases hown
      · obtain ⟨v, hv, hphase⟩ := returned_eq_some.mp hreturned
        rcases guards_return hguards hv hphase with hold | ⟨_, _, hcheck, -⟩
        · exact h.in_time (returned_eq_some.mpr hold)
        · cases hcheck
      · have hwait := wait_rank_drop hguards
        simp only [rank, held_of_some hi hguard, Multiset.card_cons, Task.after,
          held_set_of_none { task with stage := .finished } hi rfl]
        omega

/-- The main thread that begins its wait is nearer to its end. -/
theorem drains_wait (h : Drains timeout s) (hstep : step timeout s .waitForGuards = some t) :
    Drains timeout t ∧ rank t < rank s := by
  have hinv := step_inv h.inv hstep
  cases step_effect hstep with
  | waitForGuards hcell hnone hguards =>
      cases Guards.step_effect hguards with
      | call _ _ =>
          refine ⟨⟨hinv, hcell, h.heard, ?_⟩, ?_⟩
          · simp [State.returned, hnone]
          · simp [rank, hnone, waitRank]

/-- Who takes the mutex again has been woken up, or has not slept. -/
theorem phase_of_check {guards guards' : Guards.State} {i : Nat} {expired : Bool}
    (h : Guards.step guards (.check i expired) = some guards') :
    ∃ w, guards.waiters[i]? = some w ∧ (w.phase = .called ∨ w.phase = .woken) ∧ guards' =
      { guards with waiters := guards.waiters.set i (w.check guards.counter expired) } := by
  unfold Guards.step at h
  split at h
  · cases h
  · obtain ⟨w, hi, h⟩ := Option.bind_eq_some_iff.mp h
    obtain ⟨hphase, rfl⟩ := guarded_eq_some.mp h
    exact ⟨w, hi, hphase, rfl⟩

/-- The main thread sleeps or is at its end after a check, and has not timed out. -/
theorem check_phase (w : Guards.Waiter) (counter : UInt64) :
    (w.check counter false).phase = .asleep ∨ (w.check counter false).phase = .returned false := by
  unfold Guards.Waiter.check
  split
  · split
    · exact .inl rfl
    · exact .inl rfl
  · exact .inr rfl

/-- The main thread that takes the mutex is nearer to its end. -/
theorem drains_check (h : Drains timeout s) (hstep : step timeout s (.check false) = some t) :
    Drains timeout t ∧ rank t < rank s := by
  have hinv := step_inv h.inv hstep
  cases step_effect hstep with
  | check hguards =>
      obtain ⟨w, hw, hphase, rfl⟩ := phase_of_check hguards
      obtain ⟨rest, hwaiters⟩ : ∃ rest, s.guards.waiters = w :: rest := by
        cases hlist : s.guards.waiters with
        | nil => simp [hlist] at hw
        | cons first rest => exact ⟨rest, by simpa [hlist] using hw⟩
      obtain ⟨own, phase⟩ := w
      have hafter := check_phase ⟨own, phase⟩ s.guards.counter
      generalize Guards.Waiter.check ⟨own, phase⟩ s.guards.counter false = v at hafter hinv ⊢
      obtain ⟨other, after⟩ := v
      refine ⟨⟨hinv, h.cell_set, h.heard, ?_⟩, ?_⟩
      · rcases hafter with rfl | rfl <;> simp [State.returned, hwaiters]
      · rcases hphase with rfl | rfl <;> rcases hafter with rfl | rfl <;>
          simp [rank, hwaiters, waitRank]

/-- Every such action keeps what drains and is one of few. -/
theorem drains_step (h : Drains timeout s) (ha : Draining a) (hstep : step timeout s a = some t) :
    Drains timeout t ∧ rank t < rank s := by
  cases a with
  | poll i exitFirst result =>
      cases result with
      | none => exact drains_poll h hstep
      | some _ => exact ha.elim
  | waitForGuards => exact drains_wait h hstep
  | check expired =>
      cases expired with
      | false => exact drains_check h hstep
      | true => exact ha.elim
  | shutdown | resume _ | begin _ _ | settle _ _ | accept | wake => exact ha.elim

omit [Notify N F] in
/-- A guard that is held can be dropped. -/
theorem drop_possible {i : Nat} {task : Task F} {guard : UInt64} (h : Inv timeout s)
    (hi : s.tasks[i]? = some task) (hguard : task.guard = some guard) :
    Guards.step s.guards (.drop guard) = some (s.guards.dropGuard guard) := by
  have hmem : guard ∈ s.guards.guards := by
    rw [← Finset.mem_val, ← h.all_held, held_of_some hi hguard]
    exact Multiset.mem_cons_self _ _
  simp [Guards.step, h.guards.no_panic, hmem]

/-- As long as a task holds its guard, a poll can end it. -/
theorem poll_possible (h : Drains timeout s) {i : Nat} {task : Task F} {guard : UInt64}
    (hi : s.tasks[i]? = some task) (hguard : task.guard = some guard) :
    step timeout s (.poll i true none) ≠ none := by
  obtain ⟨exit, hstage, hcompleted⟩ := h.heard task (List.mem_of_getElem? hi) guard hguard
  simp [step, hi, Task.exit, hstage, select, hcompleted, State.put, Task.after, Task.guard,
    drop_possible h.inv hi hguard]

/-- As long as the main thread is not at its end, there is something left to do. -/
theorem drains_or_returns (h : Drains timeout s) :
    s.returned = some false ∨ ∃ a, Draining a ∧ step timeout s a ≠ none := by
  by_cases hquiet : ∀ task ∈ s.tasks, task.guard = none
  · have hguards : s.guards.guards = ∅ := by
      have hheld : held s.tasks = 0 := by
        rw [held, List.filterMap_eq_nil_iff.mpr hquiet]
        rfl
      rwa [h.inv.all_held, Finset.val_eq_zero] at hheld
    have hpanic := h.inv.guards.no_panic
    cases hwaiters : s.guards.waiters with
    | nil =>
        -- the main thread waits for the cell no longer
        refine .inr ⟨.waitForGuards, trivial, ?_⟩
        simp [step, h.cell_set, hwaiters, Guards.step, hpanic, h.inv.handle]
    | cons w rest =>
        have hw : s.guards.waiters[0]? = some w := by simp [hwaiters]
        cases hphase : w.phase with
        | called | woken =>
            refine .inr ⟨.check false, trivial, ?_⟩
            simp [step, Guards.step, hpanic, hw, hphase]
        | asleep =>
            have hsome := h.inv.guards.asleep w (List.mem_of_getElem? hw) hphase
            rw [hguards] at hsome
            exact absurd hsome Finset.not_nonempty_empty
        | returned timedOut =>
            have hreturned := returned_eq_some.mpr ⟨w, hw, hphase⟩
            cases timedOut with
            | false => exact .inl hreturned
            | true => exact absurd hreturned h.in_time
  · push Not at hquiet
    obtain ⟨task, hmem, hsome⟩ := hquiet
    obtain ⟨guard, hguard⟩ := Option.ne_none_iff_exists'.mp hsome
    obtain ⟨i, hi⟩ := List.mem_iff_getElem?.mp hmem
    -- the poll of a task that has heard of the shutdown ends it
    exact .inr ⟨.poll i true none, trivial, poll_possible h hi hguard⟩

omit [Notify N F] in
/-- At most two actions are left for each task, and three for the main thread. -/
theorem rank_le (s : State N F) : rank s ≤ 2 * s.tasks.length + 3 := by
  have htasks : (held s.tasks).card ≤ s.tasks.length := List.length_filterMap_le _ _
  have hwait : waitRank s.guards.waiters ≤ 3 := by
    unfold waitRank
    split <;> omega
  rw [rank]
  omega

/-- So it is where every task that holds a guard waits in a `select!` and hears of a call of
`shutdown` that has completed. -/
theorem drains_of_exited (h : (system N F timeout).Reachable s) (hexited : s.initiate.Exited)
    (hhear : AllHear s) (hselects : ∀ task ∈ s.tasks, ∀ guard, task.guard = some guard →
      ∃ exit, task.stage = .selecting guard exit) (htime : s.returned ≠ some true) :
    Drains timeout s := by
  have hcell := ((waiting N F timeout).inv h).cell_set _ hexited (by decide)
  refine ⟨reachable_inv h, hcell, fun task hmem guard hguard => ?_, htime⟩
  obtain ⟨exit, hstage⟩ := hselects task hmem guard hguard
  exact ⟨exit, hstage, hhear hexited exit ⟨task, hmem, guard, hstage⟩⟩

/-- If every task that holds a guard waits in a `select!` and hears of a call of `shutdown` that has
completed, then polls of these tasks that find no result in the other branch and the steps of the
main thread bring the application to its end in time, whatever their order: there are only so many
of them, and they do not stop before. -/
theorem drained_returns (h : (system N F timeout).Reachable s) (hexited : s.initiate.Exited)
    (hhear : AllHear s) (hselects : ∀ task ∈ s.tasks, ∀ guard, task.guard = some guard →
      ∃ exit, task.stage = .selecting guard exit) (htime : s.returned ≠ some true)
    {run : List (Action × State N F)} (hrun : (system N F timeout).Run s run)
    (hdraining : System.Steps (fun _ => Draining) s run) :
    run.length ≤ 2 * s.tasks.length + 3 ∧
      ((∀ a, Draining a → step timeout (System.final s run) a = none) →
        (System.final s run).returned = some false) := by
  have hdrains := drains_of_exited h hexited hhear hselects htime
  have hkeeps : ∀ u b v, Drains timeout u → Draining b → (system N F timeout).Step u b v →
      Drains timeout v := fun _ _ _ hu hb hstep => (drains_step hu hb hstep).1
  have hrank : ∀ u b v, Drains timeout u → Draining b → (system N F timeout).Step u b v →
      rank v < rank u := fun _ _ _ hu hb hstep => (drains_step hu hb hstep).2
  constructor
  · have hlength := System.length_add_rank_le hkeeps hrank hdrains hrun hdraining
    have hle := rank_le s
    omega
  intro hstuck
  rcases drains_or_returns (System.final_of_steps hkeeps hdrains hrun hdraining) with
    hreturned | ⟨a, ha, hstep⟩
  · exact hreturned
  · exact absurd (hstuck a ha) hstep

/-- A call of `shutdown` completes while the server waits in its `select!`. -/
def heardByServer : List Action :=
  [.begin 0 8, .settle 0 true, .poll 0 false none, .shutdown, .resume 0, .resume 0]

/-- The main thread sleeps until the server ends. -/
def drained : List Action := [.waitForGuards, .check false, .poll 0 true none, .check false]

/-- The main thread returns behind the server. -/
theorem drained_returns_server :
    (System.final (System.final .new (play CallCount Nat none .new heardByServer))
      (play CallCount Nat none (System.final .new (play CallCount Nat none .new heardByServer))
        drained)).returned = some false := by
  have hreach := System.final_reachable (.init rfl) (play_run (N := CallCount) none .new
    heardByServer)
  refine (drained_returns hreach (List.mem_singleton.mpr rfl) ?_ ?_ nofun
    (play_run none _ drained) ⟨trivial, trivial, trivial, trivial, trivial⟩).2 fun a ha => ?_
  · rintro - f ⟨task, hmem, guard, hstage⟩
    obtain rfl := List.mem_singleton.mp hmem
    cases hstage
    rfl
  · intro task hmem guard hguard
    obtain rfl := List.mem_singleton.mp hmem
    cases hguard
    exact ⟨0, rfl⟩
  · cases a with
    | poll i exitFirst result =>
        cases i <;> rfl
    | waitForGuards => rfl
    | check expired => rfl
    | shutdown | resume _ | begin _ _ | settle _ _ | accept | wake => exact ha.elim

/-! ## Not coming to the end -/

/-- No call of `shutdown` goes on, and the `select!` of the task `i` has no result. -/
def Ignores (i : Nat) : Action → Prop
  | .resume _ => False
  | .poll j _ (some _) => j ≠ i
  | _ => True

/-- A task waits in a `select!` and has not heard of a shutdown, and the application has not come to
its end in time. -/
structure Unheard (timeout : Option UInt64) (i : Nat) (task : Task F) (s : State N F) : Prop where
  inv : Inv timeout s
  waits : s.tasks[i]? = some task
  unheard : ∃ guard exit, task.stage = .selecting guard exit ∧
    completed s.initiate.notify exit = false
  in_time : s.returned ≠ some false

omit [Notify N F] in
/-- Another task is not touched when one is put back. -/
theorem get_of_set {i j : Nat} {task other put : Task F} (hi : s.tasks[i]? = some task)
    (hj : s.tasks[j]? = some other) (h : other.stage = task.stage → put = task) :
    (s.tasks.set j put)[i]? = some task := by
  rw [List.getElem?_set]
  split
  · next hji =>
      subst hji
      obtain rfl := Option.some.inj (hi.symm.trans hj)
      rw [if_pos (List.getElem?_eq_some_iff.mp hi).1, h rfl]
  · exact hi

/-- A task that has not heard of a shutdown goes on waiting, and nobody notifies it. -/
theorem unheard_tasks {i : Nat} {task : Task F} (h : Unheard timeout i task s)
    (ha : Ignores i a) (hstep : step timeout s a = some t) :
    t.tasks[i]? = some task ∧ t.initiate.notify = s.initiate.notify := by
  obtain ⟨own, f, hstage, hcompleted⟩ := h.unheard
  cases step_effect hstep with
  | shutdown | waitForGuards _ _ _ | wake _ | check _ => exact ⟨h.waits, rfl⟩
  | resume _ => exact ha.elim
  | begin hj hspawned _ =>
      exact ⟨get_of_set h.waits hj (by simp [hspawned, hstage]), rfl⟩
  | settle hj hbusy hput =>
      obtain ⟨htasks, hinitiate⟩ := put_eq hput
      rw [htasks, hinitiate]
      exact ⟨get_of_set h.waits hj (by simp [hbusy, hstage]), rfl⟩
  | @poll j _ result other guard exit _ hj hexit hput =>
      obtain ⟨htasks, hinitiate⟩ := put_eq hput
      rw [htasks, hinitiate]
      by_cases hji : j = i
      · subst hji
        obtain rfl := Option.some.inj (hj.symm.trans h.waits)
        obtain ⟨rfl, rfl⟩ : own = guard ∧ f = exit := by simpa [Task.exit, hstage] using hexit
        cases result with
        | none =>
            -- the poll finds nothing to do
            refine ⟨get_of_set h.waits hj fun _ => ?_, rfl⟩
            rw [select, if_neg (by simp [hcompleted]), Task.after, ← hstage]
        | some _ => exact absurd rfl ha
      · rw [List.getElem?_set_ne hji]
        exact ⟨h.waits, rfl⟩
  | accept =>
      have hlt := (List.getElem?_eq_some_iff.mp h.waits).1
      exact ⟨(List.getElem?_append_left hlt).trans h.waits, rfl⟩

/-- Nothing that ignores the task lets the application come to its end in time. -/
theorem unheard_step {i : Nat} {task : Task F} (h : Unheard timeout i task s)
    (ha : Ignores i a) (hstep : step timeout s a = some t) : Unheard timeout i task t := by
  obtain ⟨htask, hnotify⟩ := unheard_tasks h ha hstep
  obtain ⟨guard, exit, hstage, hcompleted⟩ := h.unheard
  refine ⟨step_inv h.inv hstep, htask, ⟨guard, exit, hstage, by rwa [hnotify]⟩, fun hreturned => ?_⟩
  -- the task still holds its guard
  have hnone := quiet_of_returned h.inv hstep h.in_time hreturned task (List.mem_of_getElem? htask)
  simp [Task.guard, hstage] at hnone

/-- A task whose `select!` waits without having heard of a shutdown goes on waiting until its other
branch has a result or a call of `shutdown` goes on, and keeps the application from its end:
with a timeout it runs into it, and with none it never ends. -/
theorem unheard_never_returns {i : Nat} {task : Task F} {guard : UInt64} {exit : F}
    (h : (system N F timeout).Reachable s) (hi : s.tasks[i]? = some task)
    (hstage : task.stage = .selecting guard exit)
    (hunheard : completed s.initiate.notify exit = false) (hbefore : s.returned = none)
    {run : List (Action × State N F)} (hrun : (system N F timeout).Run s run)
    (hignores : System.Steps (fun _ => Ignores i) s run) :
    (System.final s run).tasks[i]? = some task ∧ (System.final s run).returned ≠ some false ∧
      (timeout = none → (System.final s run).returned = none) := by
  have hstart : Unheard timeout i task s :=
    ⟨reachable_inv h, hi, ⟨guard, exit, hstage, hunheard⟩, by simp [hbefore]⟩
  have hkeeps : ∀ u b v, Unheard timeout i task u → Ignores i b →
      (system N F timeout).Step u b v → Unheard timeout i task v :=
    fun _ _ _ hu hb hstep => unheard_step hu hb hstep
  have hfinal := System.final_of_steps hkeeps hstart hrun hignores
  refine ⟨hfinal.waits, hfinal.in_time, fun hnone => ?_⟩
  cases hreturned : (System.final s run).returned with
  | none => rfl
  | some timedOut =>
      cases timedOut with
      | false => exact absurd hreturned hfinal.in_time
      | true =>
          obtain ⟨w, hw, hphase⟩ := returned_eq_some.mp hreturned
          exact absurd hphase (hfinal.inv.waits.in_time hnone w (List.mem_of_getElem? hw))

/-- Polls of the server and of a connection that comes too late, and the steps of the main
thread. -/
def undrained : List Action :=
  [.waitForGuards, .check false, .poll 1 true none, .poll 0 true none, .wake, .check false]

/-- Such a connection keeps an application with no timeout from its end. -/
theorem unheard_never_returns_late :
    (System.final (System.final .new (play CallCount Nat none .new lateConnection))
      (play CallCount Nat none (System.final .new (play CallCount Nat none .new lateConnection))
        undrained)).returned = none := by
  have hreach := System.final_reachable (.init rfl) (play_run (N := CallCount) none .new
    lateConnection)
  exact (unheard_never_returns (i := 1) hreach rfl rfl rfl rfl (play_run none _ undrained)
    ⟨trivial, trivial, trivial, trivial, trivial, trivial, trivial⟩).2.2 rfl

end Bws.Session.Application
