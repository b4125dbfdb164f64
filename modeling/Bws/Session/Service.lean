import Bws.Base.Polling
import Bws.Session.Connection
import Bws.Session.Shutdown

/-!
# The service as a whole

The application with what its connections do: each task of a connection looks for a legacy ping,
reads a handshake, and holds a session, in polls that find whatever has arrived, and the last two
stand in a `select!` with the shutdown. `service_refines` says that this is an application, and that
each connection is a run of its future, up to where it is told to stop. So the results about the
two hold together: `never_dropped` says that nothing but a shutdown stops a connection, and
`graceful_end` what a shutdown in time means to the clients.
-/

namespace Bws.Session.Service

open Bws.Base Bws.Base.Future Bws.Base.Notify Bws.Protocol Bws.Session

variable {J : Type} [SerdeJson J]

/-! ## Connections -/

/-- What a connection is at: its look for a legacy ping, its handshake, or its session, or nothing
any more. -/
inductive Work where
  | looking (part : Config String (Option String) Bool)
  | reading (part : Config String (Option String) SBHandshake)
  | session (part : Config String (Option String) Unit)
  | stopped (whole : Config String (Option String) Unit)

/-- A connection: its client, the token it draws, what it is at when it has been polled, and what
its polls have found so far. -/
structure Conn where
  addr : SocketAddr
  token : Token
  work : Option Work
  events : List (Event (Option String))

/-- What a connection has come to that is over. -/
def Conn.stopped (conn : Conn) : Option (Config String (Option String) Unit) :=
  match conn.work with
  | some (.stopped whole) => some whole
  | _ => none

section Working

variable (server : ServerBase J) (libraries : Libraries J) (rounds : Nat) (conn : Conn)

/-- The future of a connection as a whole. -/
def Conn.future : Future String (Option String) Unit :=
  handleConn server conn.addr libraries conn.token rounds

namespace Work

/-- What the connection as a whole has come to. -/
def whole : Work → Config String (Option String) Unit
  | looking part => part.andThen (handleModern server conn.addr libraries conn.token rounds)
  | reading part => part.andThen (handleSession server conn.addr libraries conn.token rounds)
  | session part => part.settled
  | stopped whole => whole.settled

/-- A poll of what the connection is at, and its result: something to go on with, or not. What a
session ends with is dropped. -/
def advance (events : List (Event (Option String))) : Work → Option (Work × Option Bool)
  | looking part => do
      let part ← part.poll events
      match part.result with
      | none => some (looking part, none)
      | some (.ok false) => some (reading (part.handOver (readPacket SBHandshake)), some true)
      | some _ =>
          some (stopped (whole server libraries rounds conn (looking part)), some false)
  | reading part => do
      let part ← part.poll events
      match part.result with
      | none => some (reading part, none)
      | some (.ok packet) => some (session (part.handOver
          (handleSession server conn.addr libraries conn.token rounds packet)), some true)
      | some _ =>
          some (stopped (whole server libraries rounds conn (reading part)), some false)
  | session part => do
      let part ← part.poll events
      match part.result with
      | none => some (session part, none)
      | some _ => some (stopped part, some true)
  | stopped _ => none

end Work

end Working

/-! ## The service -/

/-- The application, and its connections in the order in which they have been accepted. The task of
the server is in front of theirs. -/
structure State (N F : Type) where
  app : Application.State N F
  conns : List Conn

/-- What happens next: something that no connection takes part in, or a client connects, or a
connection is polled for the first time, in its look for a legacy ping, or in a `select!`. -/
inductive Action where
  | main (action : Application.Action)
  | accept (addr : SocketAddr) (token : Token)
  | begin (conn : Nat) (guard : UInt64)
  | look (conn : Nat) (events : List (Event (Option String)))
  | poll (conn : Nat) (exitFirst : Bool) (events : List (Event (Option String)))

/-- The task that is polled. -/
def polled : Application.Action → Option Nat
  | .begin i _ | .settle i _ | .poll i _ _ => some i
  | .shutdown | .resume _ | .accept | .waitForGuards | .wake | .check _ => none

/-- No connection takes part. -/
def OfMain (action : Application.Action) : Prop :=
  action ≠ .accept ∧ ∀ i ∈ polled action, i = 0

instance (action : Application.Action) : Decidable (OfMain action) :=
  inferInstanceAs (Decidable (_ ∧ _))

variable {N F : Type} [Notify N F]

/-- One poll of a `select!` that is told of a shutdown or not. A poll of the shutdown before the
other branch leaves that alone. -/
def select (server : ServerBase J) (libraries : Libraries J) (rounds : Nat) (conn : Conn)
    (told exitFirst : Bool) (events : List (Event (Option String))) (work : Work) :
    Option (Work × Option Bool) :=
  if told && exitFirst then
    -- the other branch is dropped before it could find anything
    if events = [] then some (.stopped (work.whole server libraries rounds conn), none) else none
  else do
    let (work, result) ← work.advance server libraries rounds conn events
    if told && result.isNone then some (.stopped (work.whole server libraries rounds conn), none)
    else some (work, result)

/-- The application behind a poll of a look for a legacy ping. -/
def looked (timeout : Option UInt64) (app : Application.State N F) (i : Nat) :
    Option Bool → Option (Application.State N F)
  | none => some app
  | some goesOn => Application.step timeout app (.settle i goesOn)

/-- The state after an action, if it can happen. -/
def step (server : ServerBase J) (libraries : Libraries J) (rounds : Nat)
    (timeout : Option UInt64) (s : State N F) : Action → Option (State N F)
  | .main action =>
      if OfMain action then
        (Application.step timeout s.app action).map fun app => { s with app := app }
      else none
  | .accept addr token =>
      (Application.step timeout s.app .accept).map fun app =>
        ⟨app, s.conns ++ [⟨addr, token, none, []⟩]⟩
  | .begin i guard => do
      let conn ← s.conns[i]?
      let app ← Application.step timeout s.app (.begin (i + 1) guard)
      some ⟨app, s.conns.set i { conn with
        work := some (.looking (fresh (LegacyPing.handle server conn.addr []))) }⟩
  | .look i events => do
      let conn ← s.conns[i]?
      match conn.work with
      | some (.looking part) => do
          let (work, result) ← (Work.looking part).advance server libraries rounds conn events
          let app ← looked timeout s.app (i + 1) result
          some ⟨app, s.conns.set i { conn with
            work := some work, events := conn.events ++ events }⟩
      | _ => none
  | .poll i exitFirst events => do
      let conn ← s.conns[i]?
      let work ← conn.work
      let task ← s.app.tasks[i + 1]?
      let (_, exit) ← task.exit s.app.initiate.notify
      let (work, result) ← select server libraries rounds conn
        (completed s.app.initiate.notify exit) exitFirst events work
      let app ← Application.step timeout s.app (.poll (i + 1) exitFirst result)
      some ⟨app, s.conns.set i { conn with
        work := some work, events := conn.events ++ events }⟩

/-- The runs of a service with this timeout, from the start of its server on. -/
def system (N F : Type) [Notify N F] (server : ServerBase J) (libraries : Libraries J)
    (rounds : Nat) (timeout : Option UInt64) : System (State N F) Action where
  Init s := s = ⟨.new, []⟩
  Step s a t := step server libraries rounds timeout s a = some t

/-! ## What an action can do -/

section Effects

variable {server : ServerBase J} {libraries : Libraries J} {rounds : Nat}
  {timeout : Option UInt64} {s t : State N F} {a : Action}

/-- What an action does, under the conditions it is taken. -/
inductive Effect (server : ServerBase J) (libraries : Libraries J) (rounds : Nat)
    (timeout : Option UInt64) (s : State N F) : Action → State N F → Prop where
  | main {action : Application.Action} {app : Application.State N F} (hmain : OfMain action)
      (happ : Application.step timeout s.app action = some app) :
      Effect server libraries rounds timeout s (.main action) ⟨app, s.conns⟩
  | accept (addr : SocketAddr) (token : Token) {app : Application.State N F}
      (happ : Application.step timeout s.app .accept = some app) :
      Effect server libraries rounds timeout s (.accept addr token)
        ⟨app, s.conns ++ [⟨addr, token, none, []⟩]⟩
  | begin {i : Nat} {guard : UInt64} {conn : Conn} {app : Application.State N F}
      (hi : s.conns[i]? = some conn)
      (happ : Application.step timeout s.app (.begin (i + 1) guard) = some app) :
      Effect server libraries rounds timeout s (.begin i guard) ⟨app, s.conns.set i { conn with
        work := some (.looking (fresh (LegacyPing.handle server conn.addr []))) }⟩
  | look {i : Nat} {events : List (Event (Option String))} {conn : Conn} {part} {work : Work}
      (hi : s.conns[i]? = some conn) (hwork : conn.work = some (.looking part))
      (hadvance : (Work.looking part).advance server libraries rounds conn events =
        some (work, none)) :
      Effect server libraries rounds timeout s (.look i events) ⟨s.app, s.conns.set i { conn with
        work := some work, events := conn.events ++ events }⟩
  | looked {i : Nat} {events : List (Event (Option String))} {conn : Conn} {part} {work : Work}
      {goesOn : Bool} {app : Application.State N F}
      (hi : s.conns[i]? = some conn) (hwork : conn.work = some (.looking part))
      (hadvance : (Work.looking part).advance server libraries rounds conn events =
        some (work, some goesOn))
      (happ : Application.step timeout s.app (.settle (i + 1) goesOn) = some app) :
      Effect server libraries rounds timeout s (.look i events) ⟨app, s.conns.set i { conn with
        work := some work, events := conn.events ++ events }⟩
  | poll {i : Nat} {exitFirst : Bool} {events : List (Event (Option String))} {conn : Conn}
      {work work' : Work} {result : Option Bool} {task : Application.Task F} {guard : UInt64}
      {exit : F} {app : Application.State N F}
      (hi : s.conns[i]? = some conn) (hwork : conn.work = some work)
      (htask : s.app.tasks[i + 1]? = some task)
      (hexit : task.exit s.app.initiate.notify = some (guard, exit))
      (hselect : select server libraries rounds conn (completed s.app.initiate.notify exit)
        exitFirst events work = some (work', result))
      (happ : Application.step timeout s.app (.poll (i + 1) exitFirst result) = some app) :
      Effect server libraries rounds timeout s (.poll i exitFirst events)
        ⟨app, s.conns.set i { conn with work := some work', events := conn.events ++ events }⟩

/-- Every action has its effect. -/
theorem step_effect (h : step server libraries rounds timeout s a = some t) :
    Effect server libraries rounds timeout s a t := by
  cases a with
  | main action =>
      obtain ⟨hmain, h⟩ := Option.ite_none_right_eq_some.mp h
      obtain ⟨app, happ, rfl⟩ := Option.map_eq_some_iff.mp h
      exact .main hmain happ
  | accept addr token =>
      obtain ⟨app, happ, rfl⟩ := Option.map_eq_some_iff.mp h
      exact .accept addr token happ
  | begin i guard =>
      obtain ⟨conn, hi, h⟩ := Option.bind_eq_some_iff.mp h
      obtain ⟨app, happ, h⟩ := Option.bind_eq_some_iff.mp h
      cases h
      exact .begin hi happ
  | look i events =>
      obtain ⟨conn, hi, h⟩ := Option.bind_eq_some_iff.mp h
      split at h
      · next hwork =>
          obtain ⟨⟨work, result⟩, hadvance, h⟩ := Option.bind_eq_some_iff.mp h
          obtain ⟨app, happ, h⟩ := Option.bind_eq_some_iff.mp h
          cases h
          cases result with
          | none =>
              cases happ
              exact .look hi hwork hadvance
          | some goesOn => exact .looked hi hwork hadvance happ
      · cases h
  | poll i exitFirst events =>
      obtain ⟨conn, hi, h⟩ := Option.bind_eq_some_iff.mp h
      obtain ⟨work, hwork, h⟩ := Option.bind_eq_some_iff.mp h
      obtain ⟨task, htask, h⟩ := Option.bind_eq_some_iff.mp h
      obtain ⟨⟨guard, exit⟩, hexit, h⟩ := Option.bind_eq_some_iff.mp h
      obtain ⟨⟨work', result⟩, hselect, h⟩ := Option.bind_eq_some_iff.mp h
      obtain ⟨app, happ, h⟩ := Option.bind_eq_some_iff.mp h
      cases h
      exact .poll hi hwork htask hexit hselect happ

/-- An action of the service is one of the application, or none. -/
theorem app_step (h : step server libraries rounds timeout s a = some t) :
    t.app = s.app ∨ ∃ b, Application.step timeout s.app b = some t.app := by
  cases step_effect h with
  | main _ happ | accept _ _ happ | begin _ happ | looked _ _ _ happ | poll _ _ _ _ _ happ =>
      exact .inr ⟨_, happ⟩
  | look _ _ _ => exact .inl rfl

end Effects

/-! ## What a connection comes to -/

section Following

variable {server : ServerBase J} {libraries : Libraries J} {rounds : Nat} {conn : Conn}
  {events : List (Event (Option String))} {work work' : Work} {result : Option Bool}

/-- What a poll of a connection leads to: it stays where it is, it goes on, or it stops at its
end. -/
inductive Advances : Work → Option Bool → Work → Prop where
  | look (part part') : Advances (.looking part) none (.looking part')
  | modern (part part') : Advances (.looking part) (some true) (.reading part')
  | noModern (part) {whole} (hended : whole.result ≠ none) :
      Advances (.looking part) (some false) (.stopped whole)
  | read (part part') : Advances (.reading part) none (.reading part')
  | handshake (part part') : Advances (.reading part) (some true) (.session part')
  | noHandshake (part) {whole} (hended : whole.result ≠ none) :
      Advances (.reading part) (some false) (.stopped whole)
  | hold (part part') : Advances (.session part) none (.session part')
  | close (part) {whole} (hended : whole.result ≠ none) :
      Advances (.session part) (some true) (.stopped whole)

/-- A connection as a whole has run on to where it awaits something. -/
theorem settled_whole (work : Work) : (work.whole server libraries rounds conn).settled =
    work.whole server libraries rounds conn := by
  cases work <;> exact settled_settled _

/-- A poll advances the connection, and is a poll of its whole. -/
theorem advance_cases
    (h : work.advance server libraries rounds conn events = some (work', result)) :
    Advances work result work' ∧
      (work.whole server libraries rounds conn).poll events =
        some (work'.whole server libraries rounds conn) := by
  cases work with
  | looking part =>
      obtain ⟨part', hpoll, h⟩ := Option.bind_eq_some_iff.mp h
      have hwhole := poll_and_then hpoll
        (handleModern server conn.addr libraries conn.token rounds)
      split at h
      · cases h
        exact ⟨.look _ _, hwhole⟩
      · next hresult =>
          cases h
          -- the handshake takes over where the look has left the stream
          refine ⟨.modern _ _, hwhole.trans (congrArg some ?_)⟩
          exact and_then_of_ok hresult _
      · next result hfalse hsome =>
          cases h
          refine ⟨.noModern _ ?_,
            hwhole.trans (congrArg some (settled_whole (.looking part')).symm)⟩
          cases result with
          | ok legacy =>
              cases legacy with
              | false => exact absurd rfl hfalse
              | true => exact ne_of_eq_of_ne (congrArg _ (and_then_of_ok hsome _)) nofun
          | err _ | panic _ | diverge => exact and_then_result hsome nofun _
  | reading part =>
      obtain ⟨part', hpoll, h⟩ := Option.bind_eq_some_iff.mp h
      have hwhole := poll_and_then hpoll
        (handleSession server conn.addr libraries conn.token rounds)
      split at h
      · cases h
        exact ⟨.read _ _, hwhole⟩
      · next hresult =>
          cases h
          refine ⟨.handshake _ _, hwhole.trans (congrArg some ?_)⟩
          exact and_then_of_ok hresult _
      · next hvalue hsome =>
          cases h
          exact ⟨.noHandshake _ (and_then_result hsome hvalue _),
            hwhole.trans (congrArg some (settled_whole (.reading part')).symm)⟩
  | session part =>
      obtain ⟨part', hpoll, h⟩ := Option.bind_eq_some_iff.mp h
      have hsettled := settled_of_awaits (poll_awaits hpoll)
      have hwhole : part.settled.poll events = some part'.settled := by
        rw [Config.poll, settled_settled, hsettled]
        exact hpoll
      split at h
      · cases h
        exact ⟨.hold _ _, hwhole⟩
      · next hsome =>
          cases h
          exact ⟨.close _ (by simp [hsome]), hwhole⟩
  | stopped whole => cases h

/-- A poll of a `select!` advances the connection as well, or it is told to stop. -/
theorem select_cases {told exitFirst : Bool}
    (h : select server libraries rounds conn told exitFirst events work = some (work', result)) :
    ((Advances work result work' ∧ (told = true → exitFirst = false ∧ result ≠ none)) ∨
      (told = true ∧ result = none ∧ ∃ whole, work' = .stopped whole)) ∧
      (work.whole server libraries rounds conn).poll events =
        some (work'.whole server libraries rounds conn) := by
  unfold select at h
  split at h
  · next hfirst =>
      obtain ⟨rfl, hwork⟩ := Option.ite_none_right_eq_some.mp h
      cases hwork
      obtain ⟨rfl, rfl⟩ := Bool.and_eq_true_iff.mp hfirst
      exact ⟨.inr ⟨rfl, rfl, _, rfl⟩, rfl⟩
  · next hlater =>
      obtain ⟨⟨work'', result'⟩, hadvance, h⟩ := Option.bind_eq_some_iff.mp h
      obtain ⟨hadvances, hpoll⟩ := advance_cases hadvance
      dsimp only at h
      split at h
      · next htold =>
          cases h
          obtain ⟨rfl, hnone⟩ := Bool.and_eq_true_iff.mp htold
          refine ⟨.inr ⟨rfl, rfl, _, rfl⟩, hpoll.trans (congrArg some ?_)⟩
          exact (settled_whole work'').symm
      · next htold =>
          cases h
          refine ⟨.inl ⟨hadvances, fun hyes => ?_⟩, hpoll⟩
          subst hyes
          simpa using And.intro hlater htold

/-- The state of the connection as a whole. -/
def Conn.whole (server : ServerBase J) (libraries : Libraries J) (rounds : Nat) (conn : Conn) :
    Config String (Option String) Unit :=
  match conn.work with
  | none => Future.start (conn.future server libraries rounds)
  | some work => work.whole server libraries rounds conn

/-- The polls of a connection are polls of its future, up to where it stands. -/
structure Conn.Follows (server : ServerBase J) (libraries : Libraries J) (rounds : Nat)
    (conn : Conn) : Prop where
  polls : (fresh (conn.future server libraries rounds)).poll conn.events =
    some (conn.whole server libraries rounds)
  unpolled : conn.work = none → conn.events = []

end Following

/-! ## Tasks -/

section Tasks

variable {timeout : Option UInt64} {s t : Application.State N F} {a : Application.Action}

/-- An action changes the task that it polls, and no other, unless it accepts a connection. -/
theorem tasks_step (h : Application.step timeout s a = some t) :
    (a = .accept ∧ t.tasks = s.tasks ++ [Application.handleConn]) ∨
      (a ≠ .accept ∧ t.tasks.length = s.tasks.length ∧
        ∀ i, polled a ≠ some i → t.tasks[i]? = s.tasks[i]?) := by
  have hset : ∀ {i : Nat} {task : Application.Task F}, t.tasks = s.tasks.set i task →
      t.tasks.length = s.tasks.length ∧ ∀ j, some i ≠ some j → t.tasks[j]? = s.tasks[j]? :=
    fun htasks => by
      rw [htasks]
      exact ⟨List.length_set, fun j hne => List.getElem?_set_ne fun heq => hne (congrArg some heq)⟩
  cases Application.step_effect h with
  | accept => exact .inl ⟨rfl, rfl⟩
  | begin _ _ _ => exact .inr ⟨nofun, hset rfl⟩
  | settle _ _ hput | poll _ _ hput => exact .inr ⟨nofun, hset (Application.put_eq hput).1⟩
  | shutdown | resume _ | waitForGuards _ _ _ | wake _ | check _ =>
      exact .inr ⟨nofun, rfl, fun _ _ => rfl⟩

/-- The first poll of a task. -/
theorem begin_task {i : Nat} {guard : UInt64} {task : Application.Task F}
    (h : Application.step timeout s (.begin i guard) = some t) (hi : s.tasks[i]? = some task) :
    task.stage = .spawned ∧ t.tasks[i]? = some { task with stage := .busy guard } := by
  obtain ⟨hlt, -⟩ := List.getElem?_eq_some_iff.mp hi
  cases Application.step_effect h with
  | begin hi' hstage _ =>
      obtain rfl := Option.some.inj (hi'.symm.trans hi)
      exact ⟨hstage, List.getElem?_set_self hlt⟩

/-- The end of what a task does before its first `select!`. -/
theorem settle_task {i : Nat} {goesOn : Bool} {task : Application.Task F}
    (h : Application.step timeout s (.settle i goesOn) = some t) (hi : s.tasks[i]? = some task) :
    ∃ guard, t.tasks[i]? =
      some { task with stage := if goesOn then .choosing guard else .finished } := by
  obtain ⟨hlt, -⟩ := List.getElem?_eq_some_iff.mp hi
  cases Application.step_effect h with
  | @settle _ _ _ guard _ hi' _ hput =>
      obtain rfl := Option.some.inj (hi'.symm.trans hi)
      refine ⟨guard, ?_⟩
      rw [(Application.put_eq hput).1]
      exact List.getElem?_set_self hlt

/-- A poll of a `select!`. -/
theorem poll_task {i : Nat} {exitFirst : Bool} {result : Option Bool} {task : Application.Task F}
    (h : Application.step timeout s (.poll i exitFirst result) = some t)
    (hi : s.tasks[i]? = some task) :
    ∃ guard exit, task.exit s.initiate.notify = some (guard, exit) ∧ t.tasks[i]? =
      some (task.after guard (Application.select s.initiate.notify exit exitFirst result)) := by
  obtain ⟨hlt, -⟩ := List.getElem?_eq_some_iff.mp hi
  cases Application.step_effect h with
  | @poll _ _ _ _ guard exit _ hi' hexit hput =>
      obtain rfl := Option.some.inj (hi'.symm.trans hi)
      refine ⟨guard, exit, hexit, ?_⟩
      rw [(Application.put_eq hput).1]
      exact List.getElem?_set_self hlt

/-- A task is in a `select!` and has this many to go through. -/
def InSelect (task : Application.Task F) (selects : Nat) : Prop :=
  task.selects = selects ∧
    ∃ guard, task.stage = .choosing guard ∨ ∃ exit, task.stage = .selecting guard exit

/-- A task is where its connection is. -/
def Matches (task : Application.Task F) : Option Work → Prop
  | none => task = Application.handleConn
  | some (.looking _) => task.selects = 2 ∧ ∃ guard, task.stage = .busy guard
  | some (.reading _) => InSelect task 2
  | some (.session _) => InSelect task 1
  | some (.stopped _) => task.stage = .finished

/-- A connection whose task has not been polled has found nothing. -/
theorem unpolled_of_spawned {task : Application.Task F} {work : Option Work}
    (h : Matches task work) (hstage : task.stage = .spawned) :
    work = none ∧ task = Application.handleConn := by
  match work with
  | none => exact ⟨rfl, h⟩
  | some (.looking _) =>
      obtain ⟨-, guard, hbusy⟩ := h
      cases hstage.symm.trans hbusy
  | some (.reading _) | some (.session _) =>
      obtain ⟨-, guard, hchoosing | ⟨exit, hselecting⟩⟩ := h
      · cases hstage.symm.trans hchoosing
      · cases hstage.symm.trans hselecting
  | some (.stopped _) => cases hstage.symm.trans h

/-- A task behind its look for a legacy ping is where its connection is. -/
theorem look_matches {task : Application.Task F} {part} {work' : Work} {goesOn : Bool}
    (h : Matches task (some (.looking part)))
    (hadvances : Advances (.looking part) (some goesOn) work') (guard : UInt64) :
    Matches (F := F) { task with stage := if goesOn then .choosing guard else .finished }
      (some work') := by
  cases hadvances with
  | modern => exact ⟨h.1, guard, .inl rfl⟩
  | noModern => rfl

/-- A task whose `select!` has been polled is where its connection is. -/
theorem poll_matches {n : N} {exit : F} {exitFirst : Bool} {result : Option Bool}
    {task : Application.Task F} {guard : UInt64} {work work' : Work}
    (h : Matches task (some work)) (hexit : task.exit n = some (guard, exit))
    (hcases : (Advances work result work' ∧
        (completed n exit = true → exitFirst = false ∧ result ≠ none)) ∨
      (completed n exit = true ∧ result = none ∧ ∃ whole, work' = .stopped whole)) :
    Matches (task.after guard (Application.select n exit exitFirst result)) (some work') := by
  rcases hcases with ⟨hadvances, huntold⟩ | ⟨htold, rfl, whole, rfl⟩
  · -- what the other branch finds decides
    have hfirst : (exitFirst && completed n exit) = false := by
      cases htold : completed n exit with
      | true => simp [(huntold htold).1]
      | false => simp
    have hwaits : result = none → completed n exit = false := fun hnone =>
      Bool.eq_false_iff.mpr fun htold => (huntold htold).2 hnone
    cases hadvances with
    | look | modern | noModern =>
        obtain ⟨-, own, hstage⟩ := h
        simp [Application.Task.exit, hstage] at hexit
    | read | hold =>
        rw [Application.select, hwaits rfl]
        exact ⟨h.1, guard, .inr ⟨exit, rfl⟩⟩
    | handshake =>
        rw [Application.select, hfirst]
        have hselects : task.selects = 2 := h.1
        refine ⟨?_, guard, .inl ?_⟩
        · simp [Application.Task.after, hselects]
        · simp [Application.Task.after, hselects]
    | noHandshake =>
        rw [Application.select, hfirst]
        rfl
    | close =>
        rw [Application.select, hfirst]
        have hselects : task.selects = 1 := h.1
        simp [Matches, Application.Task.after, hselects]
  · rw [Application.select, htold]
    rfl

end Tasks

/-! ## The invariant -/

section Invariant

variable {server : ServerBase J} {libraries : Libraries J} {rounds : Nat}
  {timeout : Option UInt64} {s t : State N F} {a : Action}

/-- What holds of a service in every state: its tasks are those of an application, and each
connection is where its task and its polls have brought it. -/
structure Inv (server : ServerBase J) (libraries : Libraries J) (rounds : Nat)
    (timeout : Option UInt64) (s : State N F) : Prop where
  app : (Application.system N F timeout).Reachable s.app
  tasks : s.app.tasks.length = s.conns.length + 1
  follows : ∀ conn ∈ s.conns, conn.Follows server libraries rounds
  places : ∀ i conn, s.conns[i]? = some conn →
    ∃ task, s.app.tasks[i + 1]? = some task ∧ Matches task conn.work

/-- The invariant is kept where only the task of one connection changes, and the connection with
it. -/
theorem Inv.set (h : Inv server libraries rounds timeout s) {app : Application.State N F}
    {i : Nat} {conn : Conn} {task : Application.Task F}
    (happ : (Application.system N F timeout).Reachable app)
    (hlength : app.tasks.length = s.app.tasks.length)
    (hkept : ∀ j, i + 1 ≠ j → app.tasks[j]? = s.app.tasks[j]?)
    (htask : app.tasks[i + 1]? = some task) (hmatches : Matches task conn.work)
    (hfollows : conn.Follows server libraries rounds) :
    Inv server libraries rounds timeout ⟨app, s.conns.set i conn⟩ := by
  refine ⟨happ, by rw [hlength, h.tasks, List.length_set], ?_, ?_⟩
  · intro other hmem
    rcases List.mem_or_eq_of_mem_set hmem with hmem | rfl
    · exact h.follows other hmem
    · exact hfollows
  · intro j other hj
    rw [List.getElem?_set] at hj
    split at hj
    · next heq =>
        subst heq
        obtain ⟨-, hconn⟩ := guarded_eq_some.mp hj
        exact ⟨task, htask, hconn ▸ hmatches⟩
    · next hne =>
        obtain ⟨own, hown, hplace⟩ := h.places j other hj
        exact ⟨own, (hkept (j + 1) fun heq => hne (Nat.succ_inj.mp heq)).trans hown, hplace⟩

omit [SerdeJson J] in
/-- A connection is over when that is what it is at. -/
theorem stopped_eq_some {conn : Conn} {whole : Config String (Option String) Unit} :
    conn.stopped = some whole ↔ conn.work = some (.stopped whole) := by
  unfold Conn.stopped
  split <;> simp_all

/-- A connection that has found more is a poll further. -/
theorem follows_append {conn : Conn} {events : List (Event (Option String))} {work work' : Work}
    (h : conn.Follows server libraries rounds) (hwork : conn.work = some work)
    (hpoll : (work.whole server libraries rounds conn).poll events =
      some (work'.whole server libraries rounds conn)) :
    Conn.Follows server libraries rounds
      { conn with work := some work', events := conn.events ++ events } := by
  have hpolls := h.polls
  rw [Conn.whole, hwork] at hpolls
  exact ⟨poll_append hpolls hpoll, nofun⟩

/-- Where no connection takes part, the tasks of the connections stay where they are. -/
theorem kept_of_main {b : Application.Action} {app : Application.State N F} (hmain : OfMain b)
    (hstep : Application.step timeout s.app b = some app) :
    app.tasks.length = s.app.tasks.length ∧ ∀ i, app.tasks[i + 1]? = s.app.tasks[i + 1]? := by
  rcases tasks_step hstep with ⟨haccept, -⟩ | ⟨-, hlength, hkept⟩
  · exact absurd haccept hmain.1
  · exact ⟨hlength, fun i => hkept (i + 1) fun hpolled =>
      absurd (hmain.2 (i + 1) hpolled) (Nat.succ_ne_zero i)⟩

/-- The invariant is kept when a client connects. -/
theorem accept_inv (h : Inv server libraries rounds timeout s) {app : Application.State N F}
    (hstep : Application.step timeout s.app .accept = some app) (addr : SocketAddr)
    (token : Token) :
    Inv server libraries rounds timeout ⟨app, s.conns ++ [⟨addr, token, none, []⟩]⟩ := by
  have htasks : app.tasks = s.app.tasks ++ [Application.handleConn] := by
    rcases tasks_step hstep with ⟨-, htasks⟩ | ⟨hne, -⟩
    · exact htasks
    · exact absurd rfl hne
  have hlength := h.tasks
  refine ⟨h.app.step _ hstep, by simp [htasks, hlength], ?_, ?_⟩
  · exact List.forall_mem_append.mpr
      ⟨h.follows, List.forall_mem_singleton.mpr ⟨rfl, fun _ => rfl⟩⟩
  · intro i conn hi
    rw [List.getElem?_append] at hi
    split at hi
    · next hlt =>
        obtain ⟨task, htask, hmatches⟩ := h.places i conn hi
        have hlt' : i + 1 < s.app.tasks.length := by omega
        exact ⟨task, by rw [htasks, List.getElem?_append_left hlt', htask], hmatches⟩
    · next hle =>
        obtain ⟨hlt, rfl⟩ := List.getElem?_eq_some_iff.mp hi
        have hnew : i = s.conns.length := by
          simp only [List.length_singleton] at hlt
          omega
        refine ⟨Application.handleConn, ?_, ?_⟩
        · rw [htasks, hnew, ← hlength, List.getElem?_append_right (Nat.le_refl _), Nat.sub_self]
          rfl
        · rw [List.getElem_singleton]
          rfl

/-- A task of a connection that is polled leaves the others alone. -/
theorem kept_of_polled {b : Application.Action} {i : Nat} {app : Application.State N F}
    (hpolled : polled b = some i) (hstep : Application.step timeout s.app b = some app) :
    app.tasks.length = s.app.tasks.length ∧
      ∀ j, i ≠ j → app.tasks[j]? = s.app.tasks[j]? := by
  rcases tasks_step hstep with ⟨rfl, -⟩ | ⟨-, hlength, hkept⟩
  · cases hpolled
  · exact ⟨hlength, fun j hne => hkept j fun hj => hne (Option.some.inj (hpolled.symm.trans hj))⟩

/-- The invariant is kept by the first poll of a connection. -/
theorem begin_inv (h : Inv server libraries rounds timeout s) {i : Nat} {guard : UInt64}
    {conn : Conn} {app : Application.State N F} (hi : s.conns[i]? = some conn)
    (happ : Application.step timeout s.app (.begin (i + 1) guard) = some app) :
    Inv server libraries rounds timeout ⟨app, s.conns.set i { conn with
      work := some (.looking (fresh (LegacyPing.handle server conn.addr []))) }⟩ := by
  obtain ⟨task, htask, hmatches⟩ := h.places i conn hi
  obtain ⟨hstage, htask'⟩ := begin_task happ htask
  obtain ⟨hwork, rfl⟩ := unpolled_of_spawned hmatches hstage
  obtain ⟨hlength, hkept⟩ := kept_of_polled rfl happ
  refine h.set (h.app.step _ happ) hlength hkept htask' ⟨rfl, guard, rfl⟩ ⟨?_, nofun⟩
  have hnone := (h.follows conn (List.mem_of_getElem? hi)).unpolled hwork
  rw [hnone]
  rfl

/-- The invariant is kept when a connection is polled in a `select!`. -/
theorem poll_inv (h : Inv server libraries rounds timeout s) {i : Nat} {exitFirst : Bool}
    {events : List (Event (Option String))} {conn : Conn} {work work' : Work}
    {result : Option Bool} {task : Application.Task F} {guard : UInt64} {exit : F}
    {app : Application.State N F} (hi : s.conns[i]? = some conn) (hwork : conn.work = some work)
    (htask : s.app.tasks[i + 1]? = some task)
    (hexit : task.exit s.app.initiate.notify = some (guard, exit))
    (hselect : select server libraries rounds conn (completed s.app.initiate.notify exit)
      exitFirst events work = some (work', result))
    (happ : Application.step timeout s.app (.poll (i + 1) exitFirst result) = some app) :
    Inv server libraries rounds timeout ⟨app, s.conns.set i { conn with
      work := some work', events := conn.events ++ events }⟩ := by
  obtain ⟨hcases, hpoll⟩ := select_cases hselect
  obtain ⟨own, hown, hmatches⟩ := h.places i conn hi
  obtain rfl := Option.some.inj (hown.symm.trans htask)
  obtain ⟨guard', exit', hexit', htask'⟩ := poll_task happ htask
  obtain ⟨rfl, rfl⟩ : guard = guard' ∧ exit = exit' := by
    simpa using Option.some.inj (hexit.symm.trans hexit')
  obtain ⟨hlength, hkept⟩ := kept_of_polled rfl happ
  rw [hwork] at hmatches
  refine h.set (h.app.step _ happ) hlength hkept htask' (poll_matches hmatches hexit hcases) ?_
  exact follows_append (h.follows conn (List.mem_of_getElem? hi)) hwork hpoll

/-- The invariant is kept by every action. -/
theorem step_inv (h : Inv server libraries rounds timeout s)
    (hstep : step server libraries rounds timeout s a = some t) :
    Inv server libraries rounds timeout t := by
  cases step_effect hstep with
  | main hmain happ =>
      obtain ⟨hlength, hkept⟩ := kept_of_main hmain happ
      refine ⟨h.app.step _ happ, hlength.trans h.tasks, h.follows, fun i conn hi => ?_⟩
      obtain ⟨task, htask, hmatches⟩ := h.places i conn hi
      exact ⟨task, (hkept i).trans htask, hmatches⟩
  | accept addr token happ => exact accept_inv h happ addr token
  | begin hi happ => exact begin_inv h hi happ
  | look hi hwork hadvance =>
      obtain ⟨hadvances, hpoll⟩ := advance_cases hadvance
      obtain ⟨task, htask, hmatches⟩ := h.places _ _ hi
      refine h.set h.app rfl (fun _ _ => rfl) htask ?_
        (follows_append (h.follows _ (List.mem_of_getElem? hi)) hwork hpoll)
      rw [hwork] at hmatches
      cases hadvances with
      | look => exact hmatches
  | looked hi hwork hadvance happ =>
      obtain ⟨hadvances, hpoll⟩ := advance_cases hadvance
      obtain ⟨task, htask, hmatches⟩ := h.places _ _ hi
      obtain ⟨guard, htask'⟩ := settle_task happ htask
      obtain ⟨hlength, hkept⟩ := kept_of_polled rfl happ
      rw [hwork] at hmatches
      exact h.set (h.app.step _ happ) hlength hkept htask'
        (look_matches hmatches hadvances guard)
        (follows_append (h.follows _ (List.mem_of_getElem? hi)) hwork hpoll)
  | poll hi hwork htask hexit hselect happ =>
      exact poll_inv h hi hwork htask hexit hselect happ

/-- The invariant holds in every state that a service can reach. -/
theorem reachable_inv (h : (system N F server libraries rounds timeout).Reachable s) :
    Inv server libraries rounds timeout s := by
  induction h with
  | init hinit =>
      obtain rfl := hinit
      exact ⟨.init rfl, rfl, nofun, nofun⟩
  | step _ _ hstep ih => exact step_inv ih hstep

end Invariant

/-! ## What holds of the service -/

section Results

variable {server : ServerBase J} {libraries : Libraries J} {rounds : Nat}
  {timeout : Option UInt64} {s t : State N F} {a : Action} {conn : Conn}

/-- A service is an application whose tasks are where its connections are, and each connection is a
run of its future, whatever the others and the main thread do in between. -/
theorem service_refines (h : (system N F server libraries rounds timeout).Reachable s) :
    (Application.system N F timeout).Reachable s.app ∧
      s.app.tasks.length = s.conns.length + 1 ∧ ∀ i conn, s.conns[i]? = some conn →
        (∃ task, s.app.tasks[i + 1]? = some task ∧ Matches task conn.work) ∧
        ∃ run, (Future.system (conn.future server libraries rounds)).Run
            (start (conn.future server libraries rounds)) run ∧
          run.map Prod.fst = conn.events ∧
          System.final (start (conn.future server libraries rounds)) run =
            conn.whole server libraries rounds := by
  have hinv := reachable_inv h
  refine ⟨hinv.app, hinv.tasks, fun i conn hi => ⟨hinv.places i conn hi, ?_⟩⟩
  obtain ⟨run, hrun, hfinal, hevents⟩ :=
    poll_run (hinv.follows conn (List.mem_of_getElem? hi)).polls
  exact ⟨run, hrun, hevents, hfinal⟩

/-- An action of a service of `plainServer` with no timeout. -/
def plainStep (s : State CallCount Nat) (a : Action) : Option (State CallCount Nat) :=
  letI := nullJson
  step plainServer plainLibraries 64 none s a

/-- Such a service behind these actions. -/
def plainService (actions : List Action) : State CallCount Nat :=
  System.final ⟨.new, []⟩ (System.play plainStep ⟨.new, []⟩ actions)

/-- It is reachable. -/
theorem plain_reachable (actions : List Action) :
    letI := nullJson
    (system CallCount Nat plainServer plainLibraries 64 none).Reachable (plainService actions) :=
  letI := nullJson
  System.final_reachable (.init rfl) (System.play_run (fun _ _ _ h => h) _ actions)

/-- A client connects and logs in. -/
def loginActions : List Action :=
  [.main (.begin 0 8), .main (.settle 0 true), .main (.poll 0 false none),
    .accept ⟨"::1", 4⟩ sevens, .begin 0 16, .look 0 [.read loginRead], .poll 0 false [],
    .poll 0 false [], .poll 0 false [.took 40]]

/-- The polls of this connection are a run of its future. -/
theorem service_refines_login :
    ∃ run, (Future.system plainConn).Run (start plainConn) run ∧ run.length = 2 := by
  let := nullJson
  have hfirst : ((plainService loginActions).conns[0]?.map fun conn =>
      (conn.addr, conn.token.bytes, conn.events.length)) =
        some (⟨"::1", 4⟩, List.replicate 32 7, 2) := by decide +kernel
  obtain ⟨⟨addr, ⟨bytes, hbytes⟩, work, events⟩, hi, hconn⟩ := Option.map_eq_some_iff.mp hfirst
  obtain ⟨rfl, rfl, hlength⟩ : addr = ⟨"::1", 4⟩ ∧ bytes = List.replicate 32 7 ∧
      events.length = 2 := by simpa only [Prod.mk.injEq] using hconn
  obtain ⟨-, -, hplaces⟩ := service_refines (plain_reachable loginActions)
  obtain ⟨-, run, hrun, hevents, -⟩ := hplaces 0 _ hi
  exact ⟨run, hrun, (List.length_map _).symm.trans ((congrArg List.length hevents).trans hlength)⟩

/-- What a connection has said is at most what it should say to a client that has sent what has been
read, and asked. Without an error of the socket it is all of that, unless the connection awaits room
in the socket. -/
def Conn.Speaks (server : ServerBase J) (libraries : Libraries J) (rounds : Nat)
    (conn : Conn) : Prop :=
  let whole := conn.whole server libraries rounds
  ∃ ending sent asked,
    Says server conn.addr libraries conn.token rounds (reads conn.events) ending sent asked ∧
      whole.sent <+: sent ∧ whole.asked <+: asked ∧
        ((∀ e, .failed e ∉ conn.events) →
          whole.AwaitsRoom ∨ (whole.sent = sent ∧ whole.asked = asked))

/-- A connection that follows its future says what that does. -/
theorem speaks_of_follows (h : conn.Follows server libraries rounds)
    (hsends : Sends server conn.addr libraries) : conn.Speaks server libraries rounds := by
  obtain ⟨run, hrun, hfinal, hevents⟩ := poll_run h.polls
  obtain ⟨ending, answers, harrives⟩ := run_arrives hrun
  obtain ⟨hsent, hasked, hcaught⟩ := harrives
  rw [hfinal] at hsent hasked hcaught
  have hworks : (∀ e, .failed e ∉ conn.events) → Works run := by
    rintro hfine step hmem error herror
    rw [← hevents] at hfine
    exact hfine error (herror ▸ List.mem_map_of_mem hmem)
  have hsays := conn_says hsends conn.token rounds (arrived run) ending answers
  rw [arrived_eq, hevents] at hsays hsent hasked hcaught
  exact ⟨ending, _, _, hsays, hsent, hasked, fun hfine =>
    (hcaught (hworks hfine)).imp_right fun h => ⟨h.1, h.2.1⟩⟩

/-- A task that holds no guard has not been polled, or is over. -/
theorem quiet_matches {task : Application.Task F} {work : Option Work} (h : Matches task work)
    (hquiet : task.guard = none) : work = none ∨ ∃ whole, work = some (.stopped whole) := by
  match work with
  | none => exact .inl rfl
  | some (.looking _) =>
      obtain ⟨-, guard, hstage⟩ := h
      simp [Application.Task.guard, hstage] at hquiet
  | some (.reading _) | some (.session _) =>
      obtain ⟨-, guard, hstage | ⟨exit, hstage⟩⟩ := h <;>
        simp [Application.Task.guard, hstage] at hquiet
  | some (.stopped whole) => exact .inr ⟨whole, rfl⟩

/-- Where no task holds a guard every connection is over, unless it has not been polled. -/
theorem over_of_quiet (h : Inv server libraries rounds timeout s)
    (hquiet : ∀ task ∈ s.app.tasks, task.guard = none) (hmem : conn ∈ s.conns) :
    (conn.work = none ∧ conn.events = []) ∨ ∃ whole, conn.stopped = some whole := by
  obtain ⟨i, hi⟩ := List.mem_iff_getElem?.mp hmem
  obtain ⟨task, htask, hmatches⟩ := h.places i conn hi
  rcases quiet_matches hmatches (hquiet task (List.mem_of_getElem? htask)) with
    hnone | ⟨whole, hstopped⟩
  · exact .inl ⟨hnone, (h.follows conn hmem).unpolled hnone⟩
  · exact .inr ⟨whole, stopped_eq_some.mpr hstopped⟩

/-- When the application returns before its timeout, `shutdown` has been called, and every
connection is over, unless it has not been polled at all. Whether it has come to its end or has been
told to stop, its client has got the answers to all that it has been heard to say, and nothing else,
but for an error of the socket or a lack of room in it. -/
theorem graceful_end (hsends : ∀ conn ∈ t.conns, Sends server conn.addr libraries)
    (h : (system N F server libraries rounds timeout).Reachable s)
    (hstep : step server libraries rounds timeout s a = some t) (hbefore : s.app.returned = none)
    (hreturned : t.app.returned = some false) :
    t.app.initiate.cell = true ∧ ∀ conn ∈ t.conns,
      ((conn.work = none ∧ conn.events = []) ∨ ∃ whole, conn.stopped = some whole) ∧
        conn.Speaks server libraries rounds := by
  have hinv := reachable_inv h
  have hinv' := step_inv hinv hstep
  obtain ⟨b, happ⟩ := (app_step hstep).resolve_left fun hsame => by
    rw [hsame, hbefore] at hreturned
    cases hreturned
  have hquiet := Application.quiet_of_returned (Application.reachable_inv hinv.app) happ
    (by simp [hbefore]) hreturned
  refine ⟨Application.cell_of_returned (Application.reachable_inv hinv'.app) hreturned, ?_⟩
  intro conn hmem
  exact ⟨over_of_quiet hinv' hquiet hmem,
    speaks_of_follows (hinv'.follows conn hmem) (hsends conn hmem)⟩

/-- The login waits for its answer when `shutdown` is called, and is told to stop. -/
def dropActions : List Action :=
  loginActions ++ [.main .shutdown, .main (.resume 0), .main (.resume 0), .main .waitForGuards,
    .main (.check false), .main (.poll 0 true none), .poll 0 true []]

/-- The main thread returns behind it. -/
def plainEnd : State CallCount Nat :=
  (plainStep (plainService dropActions) (.main (.check false))).getD (plainService dropActions)

/-- The login is over, and its client has got what it should. -/
theorem graceful_end_login :
    letI := nullJson
    plainEnd.app.initiate.cell = true ∧ ∀ conn ∈ plainEnd.conns,
      ((conn.work = none ∧ conn.events = []) ∨ ∃ whole, conn.stopped = some whole) ∧
        conn.Speaks plainServer plainLibraries 64 := by
  let := nullJson
  have haddr : ∀ conn ∈ plainEnd.conns, conn.addr = ⟨"::1", 4⟩ := by decide +kernel
  refine graceful_end (fun conn hmem => ?_) (plain_reachable dropActions)
    (step_get (by decide +kernel) (plainService dropActions)) (by decide +kernel)
    (by decide +kernel)
  rw [haddr conn hmem]
  exact plain_sends

/-- A task has heard of a shutdown. -/
def Told (app : Application.State N F) : Prop :=
  ∃ task ∈ app.tasks, ∃ guard exit, task.exit app.initiate.notify = some (guard, exit) ∧
    completed app.initiate.notify exit = true

/-- A connection that a poll has stopped has come to its end. -/
theorem ended_of_stopped {work : Work} {result : Option Bool}
    {whole : Config String (Option String) Unit} (h : Advances work result (.stopped whole)) :
    whole.result ≠ none := by
  cases h with
  | noModern _ hended | noHandshake _ hended | close _ hended => exact hended

/-- A connection is stopped by an action only when it comes to its end, or hears of a shutdown. -/
theorem mem_step (h : step server libraries rounds timeout s a = some t) (hmem : conn ∈ t.conns) :
    conn ∈ s.conns ∨ ∀ whole, conn.stopped = some whole →
      whole.result ≠ none ∨ Told s.app := by
  cases step_effect h with
  | main _ _ => exact .inl hmem
  | accept addr token _ =>
      refine (List.mem_append.mp hmem).imp_right fun hnew => ?_
      obtain rfl := List.mem_singleton.mp hnew
      exact nofun
  | begin _ _ =>
      refine (List.mem_or_eq_of_mem_set hmem).imp_right ?_
      rintro rfl
      exact nofun
  | look _ _ hadvance | looked _ _ hadvance _ =>
      refine (List.mem_or_eq_of_mem_set hmem).imp_right ?_
      rintro rfl whole hstopped
      cases stopped_eq_some.mp hstopped
      exact .inl (ended_of_stopped (advance_cases hadvance).1)
  | @poll _ _ _ _ _ _ _ task guard exit _ _ _ htask hexit hselect _ =>
      refine (List.mem_or_eq_of_mem_set hmem).imp_right ?_
      rintro rfl whole hstopped
      cases stopped_eq_some.mp hstopped
      rcases (select_cases hselect).1 with ⟨hadvances, -⟩ | ⟨htold, -⟩
      · exact .inl (ended_of_stopped hadvances)
      · exact .inr ⟨task, List.mem_of_getElem? htask, guard, exit, hexit, htold⟩

/-- Without a call of `shutdown` that has completed no client is dropped: a connection that is over
has come to its end. -/
theorem never_dropped (hnotify : Documented N)
    (h : (system N F server libraries rounds timeout).Reachable s)
    (hexited : ¬ s.app.initiate.Exited) (hmem : conn ∈ s.conns)
    {whole : Config String (Option String) Unit} (hstopped : conn.stopped = some whole) :
    whole.result ≠ none := by
  induction h with
  | init hinit =>
      obtain rfl := hinit
      cases hmem
  | @step u t a hreach hstep ih =>
      have hexited' : ¬ u.app.initiate.Exited := fun hu => by
        rcases app_step hstep with hsame | ⟨b, happ⟩
        · exact hexited (hsame ▸ hu)
        · exact hexited ((Application.step_waits happ).exited hu)
      rcases mem_step hstep hmem with hold | hnew
      · exact ih hexited' hold
      · refine (hnew whole hstopped).resolve_right ?_
        rintro ⟨task, htask, guard, exit, hexit, hcompleted⟩
        exact hexited' (Application.exited_of_completed hnotify (reachable_inv hreach).app htask
          hexit hcompleted)

/-- A client connects and goes away. -/
def leaveActions : List Action :=
  [.main (.begin 0 8), .main (.settle 0 true), .main (.poll 0 false none),
    .accept ⟨"::1", 4⟩ sevens, .begin 0 16, .look 0 [.eof], .poll 0 false []]

/-- Its connection has come to its end. -/
theorem never_dropped_left : ∃ conn ∈ (plainService leaveActions).conns, ∃ whole,
    conn.stopped = some whole ∧ whole.result ≠ none := by
  let := nullJson
  have hany : ∃ conn ∈ (plainService leaveActions).conns, conn.stopped.isSome = true := by
    decide +kernel
  obtain ⟨conn, hmem, hsome⟩ := hany
  obtain ⟨whole, hstopped⟩ := Option.isSome_iff_exists.mp hsome
  exact ⟨conn, hmem, whole, hstopped, never_dropped CallCount.documented
    (plain_reachable leaveActions) (by decide +kernel) hmem hstopped⟩

end Results

end Bws.Session.Service
