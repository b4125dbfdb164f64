import Bws.Session.Service

/-!
# How the service shuts down

What is left to do once a shutdown is heard. `drained_ends` says that the service comes to its end
with no help from its clients, in few actions and in whatever order, and that every connection is
then over.
-/

namespace Bws.Session.Service

open Bws.Base Bws.Base.Future Bws.Base.Notify Bws.Protocol Bws.Session

variable {J : Type} [SerdeJson J] {N F : Type} [Notify N F]
variable {server : ServerBase J} {libraries : Libraries J} {rounds : Nat}
  {timeout : Option UInt64} {s t : State N F} {a : Action}

/-- What happens with no help from a client: a connection is polled and looks for the shutdown
first, or the server or the main thread does what drains the application. -/
def Draining : Action → Prop
  | .main action => Application.Draining action
  | .poll _ true _ => True
  | _ => False

/-- The application drains, and its tasks are where the connections are. -/
structure Drains (server : ServerBase J) (libraries : Libraries J) (rounds : Nat)
    (timeout : Option UInt64) (s : State N F) : Prop where
  inv : Inv server libraries rounds timeout s
  app : Application.Drains timeout s.app

/-- A task in a `select!` has heard of the shutdown. -/
theorem completed_of_exit {app : Application.State N F} (h : Application.Drains timeout app)
    {i : Nat} {task : Application.Task F} {guard : UInt64} {exit : F}
    (hi : app.tasks[i]? = some task) (hexit : task.exit app.initiate.notify = some (guard, exit)) :
    completed app.initiate.notify exit = true := by
  have hguard := Application.Task.guard_of_exit hexit
  obtain ⟨f, hstage, hcompleted⟩ := h.heard task (List.mem_of_getElem? hi) guard hguard
  obtain rfl : f = exit := by simpa [Application.Task.exit, hstage] using hexit
  exact hcompleted

/-- What drains the service drains the application. -/
theorem draining_app (h : Drains server libraries rounds timeout s) (ha : Draining a)
    (hstep : step server libraries rounds timeout s a = some t) :
    ∃ b, Application.Draining b ∧ Application.step timeout s.app b = some t.app := by
  cases step_effect hstep with
  | main _ happ => exact ⟨_, ha, happ⟩
  | @poll i exitFirst _ _ _ _ result _ _ _ _ _ _ htask hexit hselect happ =>
      cases exitFirst with
      | false => exact ha.elim
      | true =>
          -- the other branch of the `select!` is not polled any more
          rcases (select_cases hselect).1 with ⟨-, htold⟩ | ⟨-, rfl, -⟩
          · cases (htold (completed_of_exit h.app htask hexit)).1
          · exact ⟨.poll (i + 1) true none, trivial, happ⟩
  | accept _ _ _ | begin _ _ | look _ _ _ | looked _ _ _ _ => exact ha.elim

/-- Such an action keeps what drains and is one of few. -/
theorem drains_step (h : Drains server libraries rounds timeout s) (ha : Draining a)
    (hstep : step server libraries rounds timeout s a = some t) :
    Drains server libraries rounds timeout t ∧
      Application.rank t.app < Application.rank s.app := by
  obtain ⟨b, hb, happ⟩ := draining_app h ha hstep
  obtain ⟨happ', hrank⟩ := Application.drains_step h.app hb happ
  exact ⟨⟨step_inv h.inv hstep, happ'⟩, hrank⟩

/-- What drains the application with no connection taking part can happen in the service. -/
theorem main_possible {b : Application.Action} (hb : Application.Draining b) (hmain : OfMain b)
    (hstep : Application.step timeout s.app b ≠ none) :
    ∃ a, Draining a ∧ step server libraries rounds timeout s a ≠ none := by
  obtain ⟨app, happ⟩ := Option.ne_none_iff_exists'.mp hstep
  exact ⟨.main b, hb, by simp [step, hmain, happ]⟩

/-- A connection whose task holds a guard has been polled. -/
theorem work_of_guard {task : Application.Task F} {work : Option Work} {guard : UInt64}
    (h : Matches task work) (hguard : task.guard = some guard) : ∃ own, work = some own := by
  cases work with
  | none =>
      cases h
      cases hguard
  | some own => exact ⟨own, rfl⟩

/-- As long as a task holds its guard, a poll can end it. -/
theorem guard_possible (h : Drains server libraries rounds timeout s) {i : Nat}
    {task : Application.Task F} {guard : UInt64} (hi : s.app.tasks[i]? = some task)
    (hguard : task.guard = some guard) :
    ∃ a, Draining a ∧ step server libraries rounds timeout s a ≠ none := by
  have hpossible := Application.poll_possible h.app hi hguard
  cases i with
  | zero =>
      -- the server
      have hmain : OfMain (.poll 0 true none) :=
        ⟨nofun, fun _ hpolled => (Option.some.inj hpolled).symm⟩
      exact main_possible (b := .poll 0 true none) trivial hmain hpossible
  | succ i =>
      obtain ⟨app, happ⟩ := Option.ne_none_iff_exists'.mp hpossible
      have hlt := (List.getElem?_eq_some_iff.mp hi).1
      rw [h.inv.tasks, Nat.add_lt_add_iff_right] at hlt
      have hconn := List.getElem?_eq_getElem hlt
      obtain ⟨own, hown, hmatches⟩ := h.inv.places i _ hconn
      obtain rfl := Option.some.inj (hown.symm.trans hi)
      obtain ⟨work, hwork⟩ := work_of_guard hmatches hguard
      obtain ⟨exit, hstage, hcompleted⟩ :=
        h.app.heard own (List.mem_of_getElem? hi) guard hguard
      refine ⟨.poll i true [], trivial, ?_⟩
      simp [step, hconn, hwork, hi, Application.Task.exit, hstage, select, hcompleted, happ]

/-- Where nothing of it is left to do, the main thread is at its end and no task holds a guard. -/
theorem ended_of_stuck (h : Drains server libraries rounds timeout s)
    (hstuck : ∀ a, Draining a → step server libraries rounds timeout s a = none) :
    s.app.returned = some false ∧ ∀ task ∈ s.app.tasks, task.guard = none := by
  have hnothing : ¬ ∃ a, Draining a ∧ step server libraries rounds timeout s a ≠ none :=
    fun ⟨a, ha, hstep⟩ => hstep (hstuck a ha)
  have hquiet : ∀ task ∈ s.app.tasks, task.guard = none := by
    intro task hmem
    obtain ⟨i, hi⟩ := List.mem_iff_getElem?.mp hmem
    by_contra hsome
    obtain ⟨guard, hguard⟩ := Option.ne_none_iff_exists'.mp hsome
    exact hnothing (guard_possible h hi hguard)
  refine ⟨(Application.drains_or_returns h.app).resolve_right ?_, hquiet⟩
  rintro ⟨b, hb, hstep⟩
  cases b with
  | poll i exitFirst result =>
      obtain ⟨app, happ⟩ := Option.ne_none_iff_exists'.mp hstep
      cases Application.step_effect happ with
      | poll hi hexit _ =>
          have hnone := hquiet _ (List.mem_of_getElem? hi)
          simp [Application.Task.guard_of_exit hexit] at hnone
  | waitForGuards | check _ => exact hnothing (main_possible hb ⟨nofun, nofun⟩ hstep)
  | shutdown | resume _ | begin _ _ | settle _ _ | accept | wake => exact hb.elim

/-- Nothing of it is left to do where the main thread is at its end and no task holds a guard. -/
theorem stuck_of_ended (hreturned : s.app.returned = some false)
    (hquiet : ∀ task ∈ s.app.tasks, task.guard = none) (ha : Draining a) :
    step server libraries rounds timeout s a = none := by
  have hexit : ∀ {i : Nat} {task : Application.Task F} {guard : UInt64} {exit : F},
      s.app.tasks[i]? = some task → task.exit s.app.initiate.notify ≠ some (guard, exit) := by
    intro i task guard exit hi hsome
    have hnone := hquiet task (List.mem_of_getElem? hi)
    simp [Application.Task.guard_of_exit hsome] at hnone
  obtain ⟨w, hw, hphase⟩ := Application.returned_eq_some.mp hreturned
  by_contra hstep
  obtain ⟨t, ht⟩ := Option.ne_none_iff_exists'.mp hstep
  cases step_effect ht with
  | poll _ _ htask hsome _ _ => exact hexit htask hsome
  | @main action app _ happ =>
      cases Application.step_effect happ with
      | poll hi hsome _ => exact hexit hi hsome
      | waitForGuards _ hnone _ => simp [hnone] at hw
      | check hguards =>
          obtain ⟨v, hv, hwaits, -⟩ := Application.phase_of_check hguards
          obtain rfl := Option.some.inj (hw.symm.trans hv)
          simp [hphase] at hwaits
      | shutdown | resume _ | begin _ _ _ | settle _ _ _ | accept | wake _ => exact ha.elim
  | accept _ _ _ | begin _ _ | look _ _ _ | looked _ _ _ _ => exact ha.elim

/-- If every task that holds a guard waits in a `select!` and hears of a call of `shutdown` that has
completed, then the service comes to its end in time with no help from its clients, whatever the
order in which its connections are polled, with the shutdown before the other branch, and the main
thread goes on: there are only so many of these actions, they do not stop before, and every
connection is then over or has not been polled. -/
theorem drained_ends (h : (system N F server libraries rounds timeout).Reachable s)
    (hexited : s.app.initiate.Exited) (hhear : Application.AllHear s.app)
    (hselects : ∀ task ∈ s.app.tasks, ∀ guard, task.guard = some guard →
      ∃ exit, task.stage = .selecting guard exit) (htime : s.app.returned ≠ some true)
    {run : List (Action × State N F)}
    (hrun : (system N F server libraries rounds timeout).Run s run)
    (hdraining : System.Steps (fun _ => Draining) s run) :
    run.length ≤ 2 * (s.conns.length + 1) + 3 ∧
      ((∀ a, Draining a → step server libraries rounds timeout (System.final s run) a = none) →
        (System.final s run).app.returned = some false ∧ ∀ conn ∈ (System.final s run).conns,
          (conn.work = none ∧ conn.events = []) ∨ ∃ whole, conn.stopped = some whole) := by
  have hinv := reachable_inv h
  have hdrains : Drains server libraries rounds timeout s :=
    ⟨hinv, Application.drains_of_exited hinv.app hexited hhear hselects htime⟩
  have hkeeps : ∀ u b v, Drains server libraries rounds timeout u → Draining b →
      (system N F server libraries rounds timeout).Step u b v →
        Drains server libraries rounds timeout v :=
    fun _ _ _ hu hb hstep => (drains_step hu hb hstep).1
  have hrank : ∀ u b v, Drains server libraries rounds timeout u → Draining b →
      (system N F server libraries rounds timeout).Step u b v →
        Application.rank v.app < Application.rank u.app :=
    fun _ _ _ hu hb hstep => (drains_step hu hb hstep).2
  constructor
  · have hlength := System.length_add_rank_le hkeeps hrank hdrains hrun hdraining
    have hle := Application.rank_le s.app
    rw [hinv.tasks] at hle
    omega
  · intro hstuck
    have hfinal := System.final_of_steps hkeeps hdrains hrun hdraining
    obtain ⟨hreturned, hquiet⟩ := ended_of_stuck hfinal hstuck
    exact ⟨hreturned, fun conn hmem => over_of_quiet hfinal.inv hquiet hmem⟩

/-- The login waits for its answer when a call of `shutdown` completes. -/
def heardActions : List Action :=
  loginActions ++ [.main .shutdown, .main (.resume 0), .main (.resume 0)]

/-- The main thread sleeps until the server and the login are over. -/
def drainActions : List Action :=
  [.main .waitForGuards, .main (.check false), .main (.poll 0 true none), .poll 0 true [],
    .main (.check false)]

/-- These actions behind a completed call of `shutdown`. -/
def drainRun : List (Action × State CallCount Nat) :=
  System.play plainStep (plainService heardActions) drainActions

/-- The main thread returns, and the login is over. -/
theorem drained_ends_login :
    (System.final (plainService heardActions) drainRun).app.returned = some false ∧
      ∀ conn ∈ (System.final (plainService heardActions) drainRun).conns,
        (conn.work = none ∧ conn.events = []) ∨ ∃ whole, conn.stopped = some whole := by
  let := nullJson
  have hall : ∀ task ∈ (plainService heardActions).app.tasks,
      task.stage = .selecting 8 0 ∨ task.stage = .selecting 16 0 := by decide +kernel
  have hcompleted : completed (plainService heardActions).app.initiate.notify 0 = true := by
    decide +kernel
  have hrun : (system CallCount Nat plainServer plainLibraries 64 none).Run
      (plainService heardActions) drainRun := System.play_run (fun _ _ _ h => h) _ _
  refine (drained_ends (plain_reachable heardActions) (by decide +kernel) ?_ ?_
    (by decide +kernel) hrun ?_).2 fun a ha => ?_
  · rintro - f ⟨task, hmem, guard, hstage⟩
    rcases hall task hmem with hown | hown
    all_goals
      cases hown.symm.trans hstage
      exact hcompleted
  · intro task hmem guard hguard
    rcases hall task hmem with hown | hown
    all_goals
      simp only [Application.Task.guard, hown, Option.some.injEq] at hguard
      exact ⟨0, hguard ▸ hown⟩
  · exact System.play_steps _ _ (by simp [drainActions, Draining, Application.Draining])
  · exact stuck_of_ended (by decide +kernel) (by decide +kernel) ha

end Bws.Session.Service
