import Bws.Base.Proc
import Bws.GracefulExit.Waiting

/-!
# The accept loop

`Server::run` with its connections and their handler tasks. Each round of the loop waits in a
`select!` for a connection or for the shutdown, with a future of the notifier that is created
for this round alone, and then configures the socket, awaits the lock of the connections and
spawns a task, with no future to wait for the shutdown. Calls of `exit` and the ends of tasks
come in between at any point. `shutdown_seen_iff` says in which runs a shutdown is never missed:
a `select!` that is begun behind it does not hear of it any more.
-/

namespace Bws.Server.Run

open Bws.Base Bws.Base.Notify Bws.GracefulExit

variable {N F : Type} [Notify N F]

/-- The end of the task that handles a connection. -/
inductive TaskEnd where
  | ok
  | err (error : Error)
  | panicked (reason : Panic)
  deriving DecidableEq, Repr

/-- The task that handles the connection `id`, and its end once it has finished. -/
structure Task where
  id : Nat
  finished : Option TaskEnd
  deriving DecidableEq, Repr

/-- Where `run` is: about to begin a `select!`, waiting in one with the future of this round,
about to configure a socket, awaiting the lock of the connections, about to spawn the task of a
connection, or back at its caller. -/
inductive Control (F : Type) where
  | head
  | selecting (exit : F)
  | accepted
  | locking
  | inserted (id : Nat)
  | returned (result : Except Error Unit)
  deriving DecidableEq

/-- A server: the keys of its connections, what initiates its shutdown, and the tasks spawned
so far. -/
structure State (N F : Type) where
  control : Control F
  connections : List Nat
  initiate : Initiate N
  tasks : List Task
  deriving DecidableEq

/-- What happens next: something outside of the loop, or the next part of a round. A poll of
the `select!` finds a result of `accept` or none, and polls the two branches in either order. A
slab inserts at any key that is not in use. -/
inductive Action where
  | exit
  | resume (call : Nat)
  | finish (task : Nat) (result : TaskEnd)
  | poll (exitFirst : Bool) (accept : Option (Except Error Unit))
  | setNodelay (result : Except Error Unit)
  | insert (id : Nat)
  | spawn
  deriving DecidableEq

/-- A new server has no connections. -/
def State.new : State N F := ⟨.head, [], .new, []⟩

/-- `}?` behind the `select!`. -/
def question : Except Error Unit → Control F
  | .ok () => .accepted
  | .error e => .returned (.error e)

/-- One poll of the `select!` of a round whose future of the notifier is `f`. -/
def select (n : N) (f : F) (exitFirst : Bool) : Option (Except Error Unit) → Control F
  | none => if completed n f then .returned (.ok ()) else .selecting f
  | some result =>
      if exitFirst && completed n f then .returned (.ok ()) else question result

/-- The state after an action, if it can happen. -/
def step (s : State N F) : Action → Option (State N F)
  | .exit => some { s with initiate := s.initiate.exit }
  | .resume k => (s.initiate.resume k).map fun i => { s with initiate := i }
  | .finish k result =>
      match s.tasks[k]? with
      | some ⟨id, none⟩ => some { s with tasks := s.tasks.set k ⟨id, some result⟩ }
      | _ => none
  | .poll exitFirst accept =>
      let n := s.initiate.notify
      match s.control with
      -- the future of a round is created by the first poll, and dropped with the round
      | .head => some { s with control := select n (notified n) exitFirst accept }
      | .selecting f => some { s with control := select n f exitFirst accept }
      | _ => none
  | .setNodelay result =>
      match s.control, result with
      | .accepted, .ok () => some { s with control := .locking }
      | .accepted, .error e => some { s with control := .returned (.error e) }
      | _, _ => none
  | .insert id =>
      match s.control with
      | .locking =>
          if id ∉ s.connections then
            some { s with control := .inserted id, connections := s.connections ++ [id] }
          else none
      | _ => none
  | .spawn =>
      match s.control with
      | .inserted id => some { s with control := .head, tasks := s.tasks ++ [⟨id, none⟩] }
      | _ => none

variable (N) in
/-- The runs of one server. -/
def system : System (State N F) Action where
  Init s := s = .new
  Step s a t := step s a = some t

/-- The loop is at its `select!` with this future for the shutdown: it waits there, or it is about
to begin, and the future is the one that its first poll is going to create. -/
def AtSelect (s : State N F) (f : F) : Prop :=
  (s.control = .head ∧ f = notified s.initiate.notify) ∨ s.control = .selecting f

/-- Once a call of `exit` has completed, a loop that is at its `select!` can take the branch of
the shutdown. -/
def ShutdownSeen (s : State N F) : Prop :=
  s.initiate.Exited → ∀ f, AtSelect s f → completed s.initiate.notify f = true

/-- No call of `exit` has completed when the loop comes back to its `select!`, and none completes
before the first poll there. -/
def InTime (s : State N F) : Action → Prop
  | .spawn => ¬ s.initiate.Exited
  | .resume k => s.control = .head → s.initiate.calls[k]? ≠ some .cellSet
  | .exit | .finish _ _ | .poll _ _ | .setNodelay _ | .insert _ => True

/-- `InTime` is decided by the position of the loop and the calls of `exit`. -/
instance [DecidableEq F] (s : State N F) : (a : Action) → Decidable (InTime s a)
  | .spawn => inferInstanceAs (Decidable (¬ s.initiate.Exited))
  | .resume k =>
      inferInstanceAs (Decidable (s.control = .head → s.initiate.calls[k]? ≠ some .cellSet))
  | .exit | .finish _ _ | .poll _ _ | .setNodelay _ | .insert _ => .isTrue trivial

/-- The action begins to wait in a `select!`, which has found no connection to accept. -/
def BeginsToWait (s : State N F) : Action → Prop
  | .poll _ none => s.control = .head
  | _ => False

/-! ## What an action can do -/

/-- What each action does, and where the loop is when it happens. -/
inductive Effect (s : State N F) : Action → State N F → Prop where
  | exit : Effect s .exit { s with initiate := s.initiate.exit }
  | resume {k : Nat} {i : Initiate N} (h : s.initiate.resume k = some i) :
      Effect s (.resume k) { s with initiate := i }
  | finish {k id : Nat} (result : TaskEnd) (h : s.tasks[k]? = some ⟨id, none⟩) :
      Effect s (.finish k result) { s with tasks := s.tasks.set k ⟨id, some result⟩ }
  | begins (exitFirst : Bool) (accept : Option (Except Error Unit)) (h : s.control = .head) :
      Effect s (.poll exitFirst accept) { s with
        control := select s.initiate.notify (notified s.initiate.notify) exitFirst accept }
  | polls {f : F} (exitFirst : Bool) (accept : Option (Except Error Unit))
      (h : s.control = .selecting f) :
      Effect s (.poll exitFirst accept)
        { s with control := select s.initiate.notify f exitFirst accept }
  | configured (h : s.control = .accepted) :
      Effect s (.setNodelay (.ok ())) { s with control := .locking }
  | not_configured (e : Error) (h : s.control = .accepted) :
      Effect s (.setNodelay (.error e)) { s with control := .returned (.error e) }
  | insert {id : Nat} (h : s.control = .locking) (hfree : id ∉ s.connections) :
      Effect s (.insert id)
        { s with control := .inserted id, connections := s.connections ++ [id] }
  | spawn {id : Nat} (h : s.control = .inserted id) :
      Effect s .spawn { s with control := .head, tasks := s.tasks ++ [⟨id, none⟩] }

/-- An action that can happen has its effect. -/
theorem step_effect {s t : State N F} {a : Action} (h : step s a = some t) : Effect s a t := by
  cases a with
  | exit =>
      obtain rfl := Option.some.inj h
      exact .exit
  | resume k =>
      obtain ⟨i, hres, rfl⟩ := Option.map_eq_some_iff.mp h
      exact .resume hres
  | finish k result =>
      simp only [step] at h
      split at h
      · next hk =>
          obtain rfl := Option.some.inj h
          exact .finish result hk
      · cases h
  | poll exitFirst accept =>
      simp only [step] at h
      split at h
      · next hcontrol =>
          obtain rfl := Option.some.inj h
          exact .begins exitFirst accept hcontrol
      · next f hcontrol =>
          obtain rfl := Option.some.inj h
          exact .polls exitFirst accept hcontrol
      · cases h
  | setNodelay result =>
      simp only [step] at h
      split at h
      · next hcontrol =>
          obtain rfl := Option.some.inj h
          exact .configured hcontrol
      · next e hcontrol =>
          obtain rfl := Option.some.inj h
          exact .not_configured e hcontrol
      · cases h
  | insert key =>
      simp only [step] at h
      split at h
      · next hcontrol =>
          obtain ⟨hfree, rfl⟩ := guarded_eq_some.mp h
          exact .insert hcontrol hfree
      · cases h
  | spawn =>
      simp only [step] at h
      split at h
      · next id hcontrol =>
          obtain rfl := Option.some.inj h
          exact .spawn hcontrol
      · cases h

/-- A poll does not lead back to the head of the loop. -/
theorem select_ne_head {n : N} {f : F} {exitFirst : Bool} {accept : Option (Except Error Unit)} :
    select n f exitFirst accept ≠ .head := by
  unfold select
  split
  · split <;> simp
  · next result => split <;> cases result <;> simp [question]

/-- A poll that leaves the loop waiting has found nothing. -/
theorem select_eq_selecting {n : N} {f g : F} {exitFirst : Bool}
    {accept : Option (Except Error Unit)} (h : select n f exitFirst accept = .selecting g) :
    f = g ∧ accept = none := by
  unfold select at h
  split at h
  · split at h
    · cases h
    · exact ⟨Control.selecting.inj h, rfl⟩
  · next result =>
      split at h
      · cases h
      · cases result <;> cases h

/-- What an action does to the shared part and to the future of the round. -/
theorem step_waits {s t : State N F} {a : Action} (h : step s a = some t) :
    WaitStep (BeginsToWait s a) s.initiate (fun f => s.control = .selecting f) t.initiate
      (fun f => t.control = .selecting f) := by
  cases step_effect h with
  | exit => exact .advances id .exit (fun _ hf => hf)
  | resume hres => exact .advances id (.resume hres) (fun _ hf => hf)
  | finish result hk => exact .keeps id rfl (fun _ hf => hf)
  | begins exitFirst accept hhead =>
      cases accept with
      | none =>
          refine .begins hhead rfl (fun hfresh => ?_) (fun f hf => ?_)
          · simp [select, hfresh]
          · change select _ _ exitFirst none = _ at hf
            exact .inr (select_eq_selecting hf).1.symm
      | some result =>
          -- a connection to accept ends the round at its first poll
          refine .keeps id rfl fun f hf => ?_
          change select _ _ exitFirst (some result) = _ at hf
          cases (select_eq_selecting hf).2
  | polls exitFirst accept hselecting =>
      refine .keeps ?_ rfl fun g hg => ?_
      · cases accept with
        | none => simp [BeginsToWait, hselecting]
        | some _ => exact id
      · rw [hselecting, (select_eq_selecting hg).1]
  | configured hcontrol | not_configured e hcontrol | insert hcontrol hfree | spawn hcontrol =>
      exact .keeps id rfl (fun _ => nofun)

/-! ## The results -/

variable (N F) in
/-- The future of the round is the one that waits. -/
def waiting : Waiting (system (F := F) N) N F where
  initiate s := s.initiate
  waits s f := s.control = .selecting f
  begins := BeginsToWait
  init := by
    rintro s rfl
    exact ⟨rfl, fun _ => nofun⟩
  step _ _ _ h := step_waits h

/-- A loop that sees the shutdown returns at the next poll that finds no connection. -/
theorem seen_returns {s : State N F} {f : F} (hseen : ShutdownSeen s)
    (hexited : s.initiate.Exited) (hat : AtSelect s f) (exitFirst : Bool) :
    step s (.poll exitFirst none) = some { s with control := .returned (.ok ()) } := by
  have hcompleted := hseen hexited f hat
  rcases hat with ⟨hhead, rfl⟩ | hselecting
  · simp only [step, hhead, select, hcompleted, if_true]
  · simp only [step, hselecting, select, hcompleted, if_true]

/-- A loop about to begin a `select!` behind a call of `exit` does not see the shutdown. -/
theorem not_seen_of_head (hnotify : Documented N) {s : State N F} (hhead : s.control = .head)
    (hexited : s.initiate.Exited) : ¬ ShutdownSeen s := by
  intro hseen
  have hcompleted := hseen hexited _ (.inl ⟨hhead, rfl⟩)
  simp [hnotify.no_permit] at hcompleted

/-- A call of `exit` that goes on is seen exactly when it does not complete at the head of the
loop. -/
theorem seen_resume_iff (hnotify : Documented N) {s : State N F}
    (hcreated : ∀ f, s.control = .selecting f → Created s.initiate.notify f)
    (hseen : ShutdownSeen s) {k : Nat} {i : Initiate N} (h : s.initiate.resume k = some i) :
    ShutdownSeen { s with initiate := i } ↔ InTime s (.resume k) := by
  rcases Initiate.resume_call_cases h with ⟨hcall, hnotified, hexited⟩ | ⟨hcall, hnotified, hexited⟩
  · refine iff_of_true (fun hexited' f hat => ?_) fun _ => hcall
    rw [AtSelect, hnotified] at hat
    change completed i.notify f = true
    rw [hnotified]
    exact hseen (hexited.mp hexited') f hat
  · by_cases hhead : s.control = .head
    · exact iff_of_false (not_seen_of_head hnotify hhead hexited) fun hin => hin hhead hcall
    · refine iff_of_true (fun _ f hat => ?_) fun hhead' => absurd hhead' hhead
      change completed i.notify f = true
      rw [hnotified]
      rcases hat with ⟨hhead', -⟩ | hselecting
      · exact absurd hhead' hhead
      · exact hnotify.completes _ f (hcreated f hselecting)

/-- A step keeps the shutdown seen exactly when it is in time. -/
theorem seen_step_iff (hnotify : Documented N) {s t : State N F} {a : Action}
    (h : (system (F := F) N).Reachable s) (hseen : ShutdownSeen s) (hstep : step s a = some t) :
    ShutdownSeen t ↔ InTime s a := by
  cases step_effect hstep with
  | exit =>
      refine iff_of_true (fun hexited f hat => ?_) trivial
      exact hseen (Initiate.exited_exit.mp hexited) f hat
  | resume hres => exact seen_resume_iff hnotify ((waiting N F).inv h).created hseen hres
  | finish result hk => exact iff_of_true hseen trivial
  | begins exitFirst accept hhead =>
      refine iff_of_true (fun hexited => ?_) trivial
      exact absurd hseen (not_seen_of_head hnotify hhead hexited)
  | polls exitFirst accept hselecting =>
      refine iff_of_true (fun hexited f hat => ?_) trivial
      rcases hat with ⟨hhead, -⟩ | hwaits
      · exact absurd hhead select_ne_head
      · exact hseen hexited f (.inr ((select_eq_selecting hwaits).1 ▸ hselecting))
  | configured hcontrol | not_configured e hcontrol | insert hcontrol hfree =>
      refine iff_of_true (fun _ f hat => ?_) trivial
      exact hat.elim (fun ⟨hhead, _⟩ => nomatch hhead) nofun
  | spawn hcontrol =>
      -- the loop is back at its head
      constructor
      · intro hseen' hexited
        exact absurd hseen' (not_seen_of_head hnotify rfl hexited)
      · exact fun hin hexited => absurd hexited hin

/-- A loop at its `select!`, about to begin it or waiting there, can always return after a call of
`exit` exactly when in the run no call has completed whenever the loop begins a `select!`, whether
or not there is a connection to accept then. -/
theorem shutdown_seen_iff (hnotify : Documented N) {run : List (Action × State N F)}
    (hrun : (system N).Run .new run) :
    System.States ShutdownSeen .new run ↔ System.Steps InTime .new run :=
  System.states_iff_steps (fun _ _ _ h hseen hstep => seen_step_iff hnotify h hseen hstep)
    (.init rfl) (fun hexited => absurd hexited List.not_mem_nil) hrun

/-- The shutdown comes while the loop waits for its first connection. -/
def waitingExit : List (Action × State CallCount Nat) :=
  [(.poll false none, ⟨.selecting 0, [], .new, []⟩),
    (.exit, ⟨.selecting 0, [], ⟨false, ⟨0⟩, [.called]⟩, []⟩),
    (.resume 0, ⟨.selecting 0, [], ⟨true, ⟨0⟩, [.cellSet]⟩, []⟩),
    (.resume 0, ⟨.selecting 0, [], ⟨true, ⟨1⟩, [.completed]⟩, []⟩),
    (.poll false none, ⟨.returned (.ok ()), [], ⟨true, ⟨1⟩, [.completed]⟩, []⟩)]

/-- A shutdown that comes while the loop waits is seen. -/
theorem shutdown_seen_waiting : System.States ShutdownSeen .new waitingExit := by
  refine (shutdown_seen_iff CallCount.documented ?_).mpr (by decide)
  exact ⟨rfl, rfl, rfl, rfl, rfl, trivial⟩

/-- A connection is accepted, and the shutdown comes before its task is spawned. -/
def configuringExit : List (Action × State CallCount Nat) :=
  [(.poll false (some (.ok ())), ⟨.accepted, [], .new, []⟩),
    (.exit, ⟨.accepted, [], ⟨false, ⟨0⟩, [.called]⟩, []⟩),
    (.resume 0, ⟨.accepted, [], ⟨true, ⟨0⟩, [.cellSet]⟩, []⟩),
    (.setNodelay (.ok ()), ⟨.locking, [], ⟨true, ⟨0⟩, [.cellSet]⟩, []⟩),
    (.resume 0, ⟨.locking, [], ⟨true, ⟨1⟩, [.completed]⟩, []⟩),
    (.insert 0, ⟨.inserted 0, [0], ⟨true, ⟨1⟩, [.completed]⟩, []⟩),
    (.spawn, ⟨.head, [0], ⟨true, ⟨1⟩, [.completed]⟩, [⟨0, none⟩]⟩),
    (.poll false none, ⟨.selecting 1, [0], ⟨true, ⟨1⟩, [.completed]⟩, [⟨0, none⟩]⟩)]

/-- A shutdown that comes between two rounds of the loop is missed. -/
theorem shutdown_missed :
    ∃ s : State CallCount Nat, (system CallCount).Reachable s ∧ ¬ ShutdownSeen s := by
  have hrun : (system CallCount).Run .new configuringExit :=
    ⟨rfl, rfl, rfl, rfl, rfl, rfl, rfl, rfl, trivial⟩
  obtain ⟨-, hreach⟩ := System.run_reachable (.init rfl) hrun
  refine ⟨_, hreach (.poll false none,
    ⟨.selecting 1, [0], ⟨true, ⟨1⟩, [.completed]⟩, [⟨0, none⟩]⟩) (by decide), fun h => ?_⟩
  exact absurd (h (by decide) 1 (.inr rfl)) (by decide)

end Bws.Server.Run
