import Bws.Server.Run
import Mathlib.Data.Fintype.EquivFin

/-!
# The connections of a server

What the accept loop does with the connections: the table of their keys and the tasks spawned
for them. `keys_are_spawned` is what the table holds at the head of the loop: an entry for every
connection that has been given a task, since nothing removes one. `serving_iff` says in which
runs the loop goes on to serve every connection until the shutdown: those in which no result of
`accept` and of `set_nodelay` is an error, because such an error ends the loop.
-/

namespace Bws.Server.Run

open Bws.Base Bws.Base.Notify Bws.GracefulExit

variable {N F : Type} [Notify N F]

/-! ## The table -/

/-- The key of the connection that is about to be given a task. -/
def Control.keys : Control F → List Nat
  | .inserted id => [id]
  | .head | .selecting _ | .accepted | .locking | .returned _ => []

/-- The loop is at its head, before or in the `select!` of a round. -/
def Control.AtHead : Control F → Prop
  | .head | .selecting _ => True
  | .accepted | .locking | .inserted _ | .returned _ => False

/-- The table has a key for every task and for the connection about to be given one, and no two
share theirs. -/
structure Table (s : State N F) : Prop where
  keys : s.connections = s.tasks.map Task.id ++ s.control.keys
  distinct : s.connections.Nodup

/-- A poll of the `select!` inserts nothing. -/
theorem select_keys (n : N) (f : F) (exitFirst : Bool) (accept : Option (Except Error Unit)) :
    (select n f exitFirst accept).keys = [] := by
  unfold select
  split
  · split <;> rfl
  · next result =>
      split
      · rfl
      · cases result <;> rfl

/-- A task keeps its connection when it finishes. -/
theorem map_id_finish {tasks : List Task} {k id : Nat} (h : tasks[k]? = some ⟨id, none⟩)
    (result : TaskEnd) : (tasks.set k ⟨id, some result⟩).map Task.id = tasks.map Task.id := by
  have hid : (tasks.map Task.id)[k]? = some id := by
    rw [List.getElem?_map, h]
    rfl
  obtain ⟨hlt, hget⟩ := List.getElem?_eq_some_iff.mp hid
  rw [List.map_set]
  exact hget ▸ List.set_getElem_self hlt

/-- An action keeps the table in order. -/
theorem table_step {s t : State N F} {a : Action} (hs : Table s) (h : step s a = some t) :
    Table t := by
  obtain ⟨hkeys, hdistinct⟩ := hs
  cases step_effect h with
  | exit | resume _ => exact ⟨hkeys, hdistinct⟩
  | finish result hk =>
      refine ⟨?_, hdistinct⟩
      change s.connections = _
      rw [map_id_finish hk, hkeys]
  | begins exitFirst accept hcontrol | polls exitFirst accept hcontrol =>
      refine ⟨?_, hdistinct⟩
      rw [hcontrol] at hkeys
      rw [select_keys]
      exact hkeys
  | configured hcontrol | not_configured e hcontrol =>
      rw [hcontrol] at hkeys
      exact ⟨hkeys, hdistinct⟩
  | insert hcontrol hfree =>
      rw [hcontrol] at hkeys
      refine ⟨?_, ?_⟩
      · change s.connections ++ _ = _
        rw [hkeys]
        exact congrArg (· ++ _) (List.append_nil _)
      · exact List.nodup_append_comm.mp (List.nodup_cons.mpr ⟨hfree, hdistinct⟩)
  | spawn hcontrol =>
      rw [hcontrol] at hkeys
      refine ⟨?_, hdistinct⟩
      change s.connections = _
      rw [hkeys, List.map_append]
      exact (List.append_nil _).symm

/-- The table is in order in every reachable state. -/
theorem table_inv {s : State N F} (h : (system N).Reachable s) : Table s := by
  refine System.reachable_invariant (fun s hs => ?_) (fun s a t hinv hst => ?_) h
  · obtain rfl := hs
    exact ⟨rfl, List.nodup_nil⟩
  · exact table_step hinv hst

/-- At the head of the loop the keys of the table are those of the connections that have been
given a task, each with a key of its own, whether or not the task has finished; they are those
of the live connections exactly as long as no task has. -/
theorem keys_are_spawned {s : State N F} (h : (system N).Reachable s)
    (hhead : s.control.AtHead) :
    (∀ id, id ∈ s.connections ↔ ∃ task ∈ s.tasks, task.id = id) ∧
      (s.tasks.map Task.id).Nodup ∧
      ((∀ id, id ∈ s.connections ↔ ∃ task ∈ s.tasks, task.id = id ∧ task.finished = none) ↔
        ∀ task ∈ s.tasks, task.finished = none) := by
  obtain ⟨hkeys, hdistinct⟩ := table_inv h
  have hnone : s.control.keys = [] := by
    cases hcontrol : s.control with
    | head | selecting f => rfl
    | accepted | locking | inserted id | returned result =>
        rw [hcontrol] at hhead
        exact hhead.elim
  rw [hnone, List.append_nil] at hkeys
  rw [hkeys] at hdistinct
  have hmem (id : Nat) : id ∈ s.connections ↔ ∃ task ∈ s.tasks, task.id = id := by
    rw [hkeys, List.mem_map]
  refine ⟨hmem, hdistinct, fun hlive task htask => ?_, fun hall id => ?_⟩
  · obtain ⟨live, hmemLive, hid, hfinished⟩ :=
      (hlive task.id).mp ((hmem task.id).mpr ⟨task, htask, rfl⟩)
    -- tasks with one key are one task
    obtain rfl : live = task := List.inj_on_of_nodup_map hdistinct hmemLive htask hid
    exact hfinished
  · rw [hmem]
    exact ⟨fun ⟨task, htask, hid⟩ => ⟨task, htask, hid, hall task htask⟩,
      fun ⟨task, htask, hid, _⟩ => ⟨task, htask, hid⟩⟩

/-- Two connections: the task of the first panics before the second is accepted. -/
def twoConnections : List (Action × State CallCount Nat) :=
  let first : Task := ⟨0, some (.panicked .subtractOverflow)⟩
  [(.poll false none, ⟨.selecting 0, [], .new, []⟩),
    (.poll false (some (.ok ())), ⟨.accepted, [], .new, []⟩),
    (.setNodelay (.ok ()), ⟨.locking, [], .new, []⟩),
    (.insert 0, ⟨.inserted 0, [0], .new, []⟩),
    (.spawn, ⟨.head, [0], .new, [⟨0, none⟩]⟩),
    (.finish 0 (.panicked .subtractOverflow), ⟨.head, [0], .new, [first]⟩),
    (.poll true (some (.ok ())), ⟨.accepted, [0], .new, [first]⟩),
    (.setNodelay (.ok ()), ⟨.locking, [0], .new, [first]⟩),
    (.insert 1, ⟨.inserted 1, [0, 1], .new, [first]⟩),
    (.spawn, ⟨.head, [0, 1], .new, [first, ⟨1, none⟩]⟩)]

/-- `twoConnections` is a run. -/
theorem two_connections_run : (system CallCount).Run .new twoConnections :=
  ⟨rfl, rfl, rfl, rfl, rfl, rfl, rfl, rfl, rfl, rfl, trivial⟩

/-- The tasks of both connections. -/
def bothTasks : List Task := [⟨0, some (.panicked .subtractOverflow)⟩, ⟨1, none⟩]

/-- At the end of `twoConnections` the keys are those of both connections, and are distinct. -/
theorem keys_are_spawned_two :
    (∀ id, id ∈ [0, 1] ↔ ∃ task ∈ bothTasks, task.id = id) ∧ (bothTasks.map Task.id).Nodup := by
  obtain ⟨-, hreach⟩ := System.run_reachable (.init rfl) two_connections_run
  have hlast := hreach (.spawn, ⟨.head, [0, 1], .new, bothTasks⟩) (by decide)
  obtain ⟨hkeys, hdistinct, -⟩ := keys_are_spawned hlast trivial
  exact ⟨hkeys, hdistinct⟩

/-- The key of a connection stays in the table when its task has finished. -/
theorem finished_key_stays :
    ∃ s : State CallCount Nat, (system CallCount).Reachable s ∧ s.control = .head ∧
      ¬ ∀ id, id ∈ s.connections ↔ ∃ task ∈ s.tasks, task.id = id ∧ task.finished = none := by
  obtain ⟨-, hreach⟩ := System.run_reachable (.init rfl) two_connections_run
  refine ⟨_, hreach (.finish 0 (.panicked .subtractOverflow),
    ⟨.head, [0], .new, [⟨0, some (.panicked .subtractOverflow)⟩]⟩) (by decide), rfl, fun h => ?_⟩
  obtain ⟨task, htask, -, hlive⟩ := (h 0).mp (by decide)
  obtain rfl := List.mem_singleton.mp htask
  cases hlive

/-! ## Serving every connection -/

/-- How many connections have been accepted and are not yet given a task. -/
def Control.inFlight : Control F → Nat
  | .accepted | .locking | .inserted _ => 1
  | .head | .selecting _ | .returned _ => 0

/-- The action takes a connection from the listener. -/
def Action.accepts : Action → Bool
  | .poll _ (some (.ok ())) => true
  | _ => false

/-- The action is an error of the listener or of an accepted socket. -/
def Action.SocketFails : Action → Prop
  | .poll _ (some (.error _)) | .setNodelay (.error _) => True
  | _ => False

/-- The socket does not fail, unless the shutdown has been called for. -/
def SocketWorks (s : State N F) (a : Action) : Prop := s.initiate.calls = [] → ¬ a.SocketFails

/-- The loop can go on from here to give the connection in flight a task, with an entry in the
table. -/
def CanServe (s : State N F) : Prop :=
  ∃ run id, (system N).Run s run ∧ (System.final s run).control = .head ∧
    (System.final s run).tasks = s.tasks ++ [⟨id, none⟩] ∧
    id ∈ (System.final s run).connections

/-- The loop serves every connection: it has not returned, at its head it accepts the next one,
and those accepted on the way `past` have been inserted in the table, each at a key of its own,
and given a task, all but one that it can go on to. -/
structure Serving (past : List Action) (s : State N F) : Prop where
  running : ∀ result, s.control ≠ .returned result
  accepts : s.control.AtHead → ∀ exitFirst,
    step s (.poll exitFirst (some (.ok ()))) = some { s with control := .accepted }
  served : past.countP Action.accepts = s.tasks.length + s.control.inFlight
  table : Table s
  goes_on : s.control.inFlight = 1 → CanServe s

/-- What can be served after a step that spawns nothing can be served before it. -/
theorem CanServe.of_step {s t : State N F} (a : Action) (hstep : step s a = some t)
    (htasks : t.tasks = s.tasks) (h : CanServe t) : CanServe s := by
  obtain ⟨run, id, hrun, hhead, hspawned, hmem⟩ := h
  exact ⟨(a, t) :: run, id, ⟨hstep, hrun⟩, hhead, htasks ▸ hspawned, hmem⟩

/-- A connection with an entry can be given its task. -/
theorem can_serve_inserted {s : State N F} {id : Nat} (hcontrol : s.control = .inserted id)
    (hmem : id ∈ s.connections) : CanServe s := by
  refine ⟨[(.spawn, { s with control := .head, tasks := s.tasks ++ [⟨id, none⟩] })], id,
    ⟨?_, trivial⟩, rfl, rfl, hmem⟩
  simp only [system, step, hcontrol]

/-- A connection can be inserted: some key is not in use. -/
theorem can_serve_locking {s : State N F} (hcontrol : s.control = .locking) : CanServe s := by
  obtain ⟨id, hid⟩ := Infinite.exists_notMem_finset s.connections.toFinset
  have hfree : id ∉ s.connections := fun hmem => hid (List.mem_toFinset.mpr hmem)
  have hstep : step s (.insert id) = some
      { s with control := .inserted id, connections := s.connections ++ [id] } := by
    simp only [step, hcontrol]
    exact if_pos hfree
  exact .of_step _ hstep rfl (can_serve_inserted rfl (by simp))

/-- A connection in flight can be given a task. -/
theorem can_serve {s : State N F} (htable : Table s) (h : s.control.inFlight = 1) :
    CanServe s := by
  cases hcontrol : s.control with
  | head | selecting f | returned result =>
      rw [hcontrol] at h
      cases h
  | accepted =>
      have hstep : step s (.setNodelay (.ok ())) = some { s with control := .locking } := by
        simp only [step, hcontrol]
      exact .of_step _ hstep rfl (can_serve_locking rfl)
  | locking => exact can_serve_locking hcontrol
  | inserted id =>
      refine can_serve_inserted hcontrol ?_
      rw [htable.keys, hcontrol]
      simp [Control.keys]

/-- Once `exit` has been called, it stays so. -/
theorem calls_step {s t : State N F} {a : Action} (h : step s a = some t)
    (hcalls : t.initiate.calls = []) : s.initiate.calls = [] := by
  cases step_effect h with
  | exit => simp [Initiate.exit] at hcalls
  | resume hres =>
      unfold Initiate.resume at hres
      split at hres
      · obtain rfl := Option.some.inj hres
        exact (List.set_eq_nil_iff _ _).mp hcalls
      · obtain rfl := Option.some.inj hres
        exact (List.set_eq_nil_iff _ _).mp hcalls
      · cases hres
      · cases hres
  | finish | begins | polls | configured | not_configured | insert | spawn => exact hcalls

/-- Without a call of `exit`, a call has no next statement. -/
theorem resume_of_no_calls {i : Initiate N} (h : i.calls = []) (k : Nat) : i.resume k = none := by
  simp [Initiate.resume, h]

/-- Without a shutdown, the `select!` waits for a connection. -/
theorem select_of_waiting {n : N} {f : F} (h : completed n f = false) (exitFirst : Bool)
    (accept : Option (Except Error Unit)) :
    select n f exitFirst accept = (accept.map question).getD (.selecting f) := by
  cases accept with
  | none => simp [select, h]
  | some result => simp [select, h]

/-- Unless `exit` has been called, the future of the round is not complete. -/
def Waits (s : State N F) : Prop :=
  s.initiate.calls = [] → ∀ f, s.control = .selecting f → completed s.initiate.notify f = false

/-- Without a call of `exit`, no future of a round completes. -/
theorem waits_inv {s : State N F} (h : (system N).Reachable s) : Waits s := by
  refine System.reachable_invariant (fun s hs => ?_) (fun s a t hinv hst => ?_) h
  · obtain rfl := hs
    intro _ f hf
    cases hf
  · intro hcalls f hf
    have hbefore := calls_step hst hcalls
    cases step_effect hst with
    | exit => simp [Initiate.exit] at hcalls
    | resume hres => simp [resume_of_no_calls hbefore] at hres
    | finish result hk => exact hinv hcalls f hf
    | begins exitFirst accept hcontrol | polls exitFirst accept hcontrol =>
        change select _ _ exitFirst accept = _ at hf
        obtain ⟨rfl, rfl⟩ := select_eq_selecting hf
        by_contra hcompleted
        simp [select, hcompleted] at hf
    | configured | not_configured | insert | spawn => cases hf

/-- Without a call of `exit`, the loop is at its head with a future that is not complete. -/
theorem poll_of_waiting (hnotify : Documented N) {s : State N F} (hreach : (system N).Reachable s)
    (hcalls : s.initiate.calls = []) {exitFirst : Bool} {accept : Option (Except Error Unit)}
    (hhead : s.control.AtHead) :
    ∃ f, step s (.poll exitFirst accept) =
      some { s with control := (accept.map question).getD (.selecting f) } := by
  cases hcontrol : s.control with
  | head =>
      refine ⟨notified s.initiate.notify, ?_⟩
      simp only [step, hcontrol, select_of_waiting (hnotify.no_permit _)]
  | selecting f =>
      refine ⟨f, ?_⟩
      simp only [step, hcontrol, select_of_waiting (waits_inv hreach hcalls f hcontrol)]
  | accepted | locking | inserted id | returned result =>
      rw [hcontrol] at hhead
      exact hhead.elim

/-- What is left to show of a state that serves: the rest holds in every reachable state. -/
theorem serving_of_count (hnotify : Documented N) {s : State N F}
    (hreach : (system N).Reachable s) (hcalls : s.initiate.calls = []) (past : List Action)
    (hrunning : ∀ result, s.control ≠ .returned result)
    (hserved : past.countP Action.accepts = s.tasks.length + s.control.inFlight) :
    Serving past s := by
  have htable := table_inv hreach
  refine ⟨hrunning, fun hhead exitFirst => ?_, hserved, htable, can_serve htable⟩
  exact (poll_of_waiting hnotify hreach hcalls hhead).choose_spec

/-- Only at its head does the loop poll. -/
theorem at_head_of_poll {s t : State N F} {exitFirst : Bool} {accept : Option (Except Error Unit)}
    (h : step s (.poll exitFirst accept) = some t) : s.control.AtHead := by
  cases step_effect h with
  | begins _ _ hcontrol | polls _ _ hcontrol =>
      rw [hcontrol]
      trivial

/-- A loop at its head has no connection in flight. -/
theorem in_flight_of_at_head {control : Control F} (h : control.AtHead) :
    control.inFlight = 0 := by
  cases control with
  | head | selecting f => rfl
  | accepted | locking | inserted id | returned result => exact h.elim

/-- A poll of a loop that serves leads to one that serves exactly when it finds no error. -/
theorem serving_poll_iff (hnotify : Documented N) {past : List Action} {s t : State N F}
    (hreach : (system N).Reachable s) (hcalls : s.initiate.calls = []) (hs : Serving past s)
    {exitFirst : Bool} {accept : Option (Except Error Unit)}
    (hstep : step s (.poll exitFirst accept) = some t) :
    Serving (past ++ [.poll exitFirst accept]) t ↔
      ¬ (Action.poll exitFirst accept).SocketFails := by
  have hhead := at_head_of_poll hstep
  have hreach' := hreach.step _ hstep
  obtain ⟨f, hpoll⟩ := poll_of_waiting hnotify hreach hcalls hhead
  obtain rfl := Option.some.inj (hpoll.symm.trans hstep)
  have hserved : past.countP Action.accepts = s.tasks.length := by
    rw [hs.served, in_flight_of_at_head hhead, Nat.add_zero]
  have hserves := serving_of_count hnotify hreach' hcalls (past ++ [.poll exitFirst accept])
  rw [List.countP_append, hserved] at hserves
  match accept with
  | none => exact iff_of_true (hserves (by simp) rfl) id
  | some (.ok ()) => exact iff_of_true (hserves (by simp [question]) rfl) id
  | some (.error e) => exact iff_of_false (fun h => h.running _ rfl) (fun h => h trivial)

/-- A step of a loop that serves leads to one that serves exactly when no socket fails. -/
theorem serving_step_iff (hnotify : Documented N) {past : List Action} {s t : State N F}
    {a : Action} (hreach : (system N).Reachable s) (hs : Serving past s)
    (hstep : step s a = some t) (hcalls : t.initiate.calls = []) :
    Serving (past ++ [a]) t ↔ ¬ a.SocketFails := by
  have hbefore := calls_step hstep hcalls
  have hserves := serving_of_count hnotify (hreach.step a hstep) hcalls (past ++ [a])
  have hserved := hs.served
  rw [List.countP_append, hserved] at hserves
  cases step_effect hstep with
  | exit => simp [Initiate.exit] at hcalls
  | resume hres => simp [resume_of_no_calls hbefore] at hres
  | finish result hk => exact iff_of_true (hserves hs.running (by simp [Action.accepts])) id
  | begins exitFirst accept hcontrol | polls exitFirst accept hcontrol =>
      exact serving_poll_iff hnotify hreach hbefore hs hstep
  | not_configured e hcontrol =>
      exact iff_of_false (fun h => h.running _ rfl) (fun h => h trivial)
  | configured hcontrol | insert hcontrol hfree | spawn hcontrol =>
      rw [hcontrol] at hserves
      exact iff_of_true (hserves (by simp) (by simp [Action.accepts, Control.inFlight])) id

/-- An action that is an error of a socket has nothing to do with the shutdown. -/
theorem initiate_of_socket_fails {s t : State N F} {a : Action} (h : step s a = some t)
    (hfails : a.SocketFails) : t.initiate = s.initiate := by
  cases step_effect h with
  | exit | resume _ => exact hfails.elim
  | finish | begins | polls | configured | not_configured | insert | spawn => rfl

/-- The loop serves every connection, as long as `exit` has not been called, exactly in the runs
in which until then no result of `accept` and of `set_nodelay` is an error. -/
theorem serving_iff (hnotify : Documented N) {run : List (Action × State N F)}
    (hrun : (system N).Run .new run) :
    System.Along (fun past s => s.initiate.calls = [] → Serving past s) [] .new run ↔
      System.Steps SocketWorks .new run := by
  refine System.along_iff_steps (fun past s a t hreach hs hstep => ?_) (.init rfl) ?_ hrun
  · constructor
    · intro ht hbefore hfails
      have hcalls : t.initiate.calls = [] := by
        rw [initiate_of_socket_fails hstep hfails, hbefore]
      exact (serving_step_iff hnotify hreach (hs hbefore) hstep hcalls).mp (ht hcalls) hfails
    · intro hworks hcalls
      have hbefore := calls_step hstep hcalls
      exact (serving_step_iff hnotify hreach (hs hbefore) hstep hcalls).mpr (hworks hbefore)
  · exact fun hcalls => serving_of_count hnotify (.init rfl) hcalls [] (by simp [State.new]) rfl

/-- Both connections of `twoConnections` are served, and the loop has not returned. -/
theorem serving_two_connections :
    System.Along (fun past s => s.initiate.calls = [] → Serving past s) [] .new twoConnections := by
  refine (serving_iff CallCount.documented two_connections_run).mpr ?_
  simp [twoConnections, System.Steps, SocketWorks, Action.SocketFails]

/-- The peer of a connection is gone before the connection is accepted. -/
def abortedPeer : List (Action × State CallCount Nat) :=
  let gone : Error := ⟨.other, "connection aborted"⟩
  [(.poll false none, ⟨.selecting 0, [], .new, []⟩),
    (.poll false (some (.error gone)), ⟨.returned (.error gone), [], .new, []⟩)]

/-- A peer that is gone ends the loop, though `exit` has not been called. -/
theorem aborted_peer_stops :
    (system CallCount).Run .new abortedPeer ∧
      ¬ System.Along (fun past s => s.initiate.calls = [] → Serving past s) [] .new abortedPeer ∧
      ∃ result, (System.final .new abortedPeer).control = .returned result ∧
        (System.final .new abortedPeer).initiate.calls = [] := by
  refine ⟨⟨rfl, rfl, trivial⟩, fun h => ?_, _, rfl, rfl⟩
  obtain ⟨-, -, hlast⟩ := h
  exact (hlast rfl).running _ rfl

end Bws.Server.Run
