import Bws.Base.Interleaving

/-!
# Polls of a future in parts

A poll of a future runs it over all that it finds. A function that awaits one future after the
other polls the one it is at: `poll_and_then` says that this is a poll of the whole. So what a
future does in such polls is a run of it, and `poll_arrives` says what that comes to.
-/

namespace Bws.Base.Future

variable {Q R α β : Type}

namespace Config

/-- Run on. -/
def settled (c : Config Q R α) : Config Q R α :=
  settle c.future c.buffer c.closed c.sent c.asked

/-- What a poll finds, one after the other. -/
def steps (c : Config Q R α) : List (Event R) → Option (Config Q R α)
  | [] => some c
  | e :: events => do (← c.step e).steps events

/-- A poll that finds these events. -/
def poll (c : Config Q R α) (events : List (Event R)) : Option (Config Q R α) :=
  c.settled.steps events

/-- Another future takes over the stream, and what has been sent and asked. -/
def handOver (c : Config Q R α) (t : Future Q R β) : Config Q R β :=
  ⟨t, c.buffer, c.closed, c.sent, c.asked⟩

/-- The whole of which a future under way is the first part. -/
def andThen (c : Config Q R α) (k : α → Future Q R β) : Config Q R β :=
  (c.handOver (c.future >>= k)).settled

/-- How a future has ended. One that diverges never does. -/
def result (c : Config Q R α) : Option (Outcome α) :=
  match c.future with
  | ended .diverge => none
  | ended o => some o
  | _ => none

end Config

/-- A future that has not been polled. -/
def fresh (t : Future Q R α) : Config Q R α := ⟨t, [], false, [], []⟩

/-! ## Running on -/

/-- Where something is awaited, there is nothing to run on to. -/
theorem settled_of_awaits {c : Config Q R α} (h : Awaits c) : c.settled = c := by
  obtain ⟨future, buffer, closed, sent, asked⟩ := c
  cases h with
  | ended o h =>
      cases h
      rfl
  | read h hbuffer hclosed =>
      cases h
      cases hbuffer
      cases hclosed
      rfl
  | @room bytes resume h hbytes =>
      cases h
      cases bytes with
      | nil => exact absurd rfl hbytes
      | cons b bs => rfl
  | answer h =>
      cases h
      rfl

/-- Running on stops where something is awaited. -/
theorem Config.settled_awaits (c : Config Q R α) : Awaits c.settled := settle_awaits _ _ _ _ _

/-- Running on twice is running on once. -/
theorem settled_settled (c : Config Q R α) : c.settled.settled = c.settled :=
  settled_of_awaits c.settled_awaits

/-- Running on a first part, and then the whole, is running on the whole. -/
theorem settle_bind (t : Future Q R α) (k : α → Future Q R β) (buffer : Bytes) (closed : Bool)
    (sent : Bytes) (asked : List Q) : settle (t >>= k) buffer closed sent asked =
      (settle t buffer closed sent asked).andThen k := by
  induction t, buffer, closed, sent, asked using settle.induct with
  | case1 | case2 | case7 | case9 => rfl
  | case3 resume sent asked ih => exact ih
  | case4 resume b bs closed sent asked ih => exact ih
  | case5 n resume buffer closed sent asked ih => exact ih
  | case6 resume buffer closed sent asked ih => exact ih
  | case8 query resume buffer closed sent asked ih => exact ih

/-- Running on the part makes no difference to the whole. -/
theorem settled_and_then (c : Config Q R α) (k : α → Future Q R β) :
    c.settled.andThen k = c.andThen k :=
  (settle_bind c.future k c.buffer c.closed c.sent c.asked).symm

/-- A future that has a result has ended with it. -/
theorem future_of_result {c : Config Q R α} {o : Outcome α} (h : c.result = some o) :
    c.future = ended o ∧ o ≠ .diverge := by
  unfold Config.result at h
  split at h
  · cases h
  · next hne hfuture =>
      obtain rfl := Option.some.inj h
      exact ⟨hfuture, hne⟩
  · cases h

/-- The whole of a part that has ended with a value goes on with it. -/
theorem and_then_of_ok {c : Config Q R α} {a : α} (h : c.result = some (.ok a))
    (k : α → Future Q R β) : c.andThen k = (c.handOver (k a)).settled := by
  rw [Config.andThen, (future_of_result h).1]
  rfl

/-- The whole of a part that has ended with no value has ended with it. -/
theorem and_then_result {c : Config Q R α} {o : Outcome α} (h : c.result = some o)
    (hvalue : ∀ a, o ≠ .ok a) (k : α → Future Q R β) : (c.andThen k).result ≠ none := by
  obtain ⟨hfuture, hends⟩ := future_of_result h
  rw [Config.andThen, hfuture]
  cases o with
  | ok a => exact absurd rfl (hvalue a)
  | diverge => exact absurd rfl hends
  | err e | panic r => exact nofun

/-! ## Polls -/

/-- A future that has found something awaits something again. -/
theorem step_awaits {c c' : Config Q R α} {e : Event R} (h : c.step e = some c') : Awaits c' := by
  cases step_effect h with
  | read | eof | took | answered => exact settle_awaits _ _ _ _ _
  | failed e => exact .ended _ rfl

/-- What a part finds, the whole finds. -/
theorem step_and_then {c c' : Config Q R α} {e : Event R} (hc : Awaits c)
    (h : c.step e = some c') (k : α → Future Q R β) :
    (c.andThen k).step e = some (c'.andThen k) := by
  obtain ⟨future, buffer, closed, sent, asked⟩ := c
  cases hc with
  | ended o hfuture =>
      cases hfuture
      cases e <;> cases h
  | @read resume hfuture hbuffer hclosed =>
      cases hfuture
      cases hbuffer
      cases hclosed
      cases e with
      | read r =>
          cases h
          exact congrArg some (settle_bind (fill resume) k r.val false sent asked)
      | eof =>
          cases h
          exact congrArg some (settle_bind (fill resume) k [] true sent asked)
      | took _ | answered _ => cases h
      | failed error =>
          cases h
          rfl
  | @room bytes resume hfuture hbytes =>
      cases hfuture
      cases bytes with
      | nil => exact absurd rfl hbytes
      | cons b bs =>
          cases e with
          | took n =>
              obtain ⟨hn, rfl⟩ := guarded_eq_some.mp h
              exact (if_pos hn).trans (congrArg some
                (settle_bind (send ((b :: bs).drop n) resume) k buffer closed _ asked))
          | read _ | eof | answered _ => cases h
          | failed error =>
              cases h
              rfl
  | @answer resume hfuture =>
      cases hfuture
      cases e with
      | answered a =>
          cases h
          exact congrArg some (settle_bind (resume a) k buffer closed sent asked)
      | read _ | eof | took _ | failed _ => cases h

/-- What a part finds, one after the other, the whole finds. -/
theorem steps_and_then {c c' : Config Q R α} {events : List (Event R)} (hc : Awaits c)
    (h : c.steps events = some c') (k : α → Future Q R β) :
    (c.andThen k).steps events = some (c'.andThen k) := by
  induction events generalizing c with
  | nil =>
      obtain rfl := Option.some.inj h
      rfl
  | cons e events ih =>
      obtain ⟨next, hstep, hrest⟩ := Option.bind_eq_some_iff.mp h
      exact Option.bind_eq_some_iff.mpr
        ⟨next.andThen k, step_and_then hc hstep k, ih (step_awaits hstep) hrest⟩

/-- Behind what it finds a future awaits something. -/
theorem steps_awaits {c c' : Config Q R α} {events : List (Event R)} (hc : Awaits c)
    (h : c.steps events = some c') : Awaits c' := by
  induction events generalizing c with
  | nil =>
      obtain rfl := Option.some.inj h
      exact hc
  | cons e events ih =>
      obtain ⟨next, hstep, hrest⟩ := Option.bind_eq_some_iff.mp h
      exact ih (step_awaits hstep) hrest

/-- A future that has been polled awaits something. -/
theorem poll_awaits {c c' : Config Q R α} {events : List (Event R)}
    (h : c.poll events = some c') : Awaits c' :=
  steps_awaits c.settled_awaits h

/-- A poll of the part is a poll of the whole. -/
theorem poll_and_then {c c' : Config Q R α} {events : List (Event R)}
    (h : c.poll events = some c') (k : α → Future Q R β) :
    (c.andThen k).poll events = some (c'.andThen k) := by
  have hsteps := steps_and_then c.settled_awaits h k
  have hsettled : (c.andThen k).settled = c.andThen k := settled_settled _
  rw [Config.poll, hsettled, ← settled_and_then]
  exact hsteps

/-- Behind what it finds first, a future finds the rest. -/
theorem steps_append {c c' : Config Q R α} {events : List (Event R)}
    (h : c.steps events = some c') (later : List (Event R)) :
    c.steps (events ++ later) = c'.steps later := by
  induction events generalizing c with
  | nil =>
      obtain rfl := Option.some.inj h
      rfl
  | cons e events ih =>
      obtain ⟨next, hstep, hrest⟩ := Option.bind_eq_some_iff.mp h
      rw [List.cons_append, Config.steps, hstep]
      exact ih hrest

/-- Polls one after the other are a poll that finds everything. -/
theorem poll_append {c c' c'' : Config Q R α} {events later : List (Event R)}
    (h : c.poll events = some c') (hlater : c'.poll later = some c'') :
    c.poll (events ++ later) = some c'' := by
  rw [Config.poll, settled_of_awaits (poll_awaits h)] at hlater
  exact (steps_append h later).trans hlater

/-! ## Polls and runs -/

/-- The reads among what has been found. -/
def reads (events : List (Event R)) : List Read :=
  events.filterMap fun
    | .read r => some r
    | .eof | .took _ | .answered _ | .failed _ => none

/-- What a future finds makes a run of it. -/
theorem steps_run (t : Future Q R α) {c c' : Config Q R α} {events : List (Event R)}
    (h : c.steps events = some c') :
    ∃ run, (system t).Run c run ∧ System.final c run = c' ∧ run.map Prod.fst = events := by
  induction events generalizing c with
  | nil => exact ⟨[], trivial, Option.some.inj h, rfl⟩
  | cons e events ih =>
      obtain ⟨next, hstep, hrest⟩ := Option.bind_eq_some_iff.mp h
      obtain ⟨run, hrun, hfinal, hevents⟩ := ih hrest
      exact ⟨(e, next) :: run, ⟨hstep, hrun⟩, hfinal, by rw [List.map_cons, hevents]⟩

/-- The reads that arrive in a run are those among its events. -/
theorem arrived_eq (run : List (Event R × Config Q R α)) :
    arrived run = reads (run.map Prod.fst) := by
  rw [arrived, reads, List.filterMap_map]
  rfl

/-- The polls of a future from its first on are a run of it. -/
theorem poll_run {t : Future Q R α} {c : Config Q R α} {events : List (Event R)}
    (h : (fresh t).poll events = some c) :
    ∃ run, (system t).Run (start t) run ∧ System.final (start t) run = c ∧
      run.map Prod.fst = events :=
  steps_run t h

end Bws.Base.Future
