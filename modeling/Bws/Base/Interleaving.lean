import Bws.Base.Future
import Bws.Base.Transition

/-!
# Futures under way

A future while the reads of its stream, the room in its socket and the answers to its questions
come one after the other, each at any time. `run_finish` says that in whatever parts they come,
the future is on its way to what it comes to over the whole of them, and `run_at_most` that
wherever it is dropped or fails, it has sent and asked a prefix of what it would have. By
`run_arrives` it is never behind what has come so far, but for room in its socket.
-/

namespace Bws.Base.Future

open Proc

variable {Q R α : Type}

/-- A future that has been polled: what is left of it, the bytes of its stream that have arrived
and are unused, whether the stream is at its end, and what has been sent and asked. -/
structure Config (Q R α : Type) where
  future : Future Q R α
  buffer : Bytes
  closed : Bool
  sent : Bytes
  asked : List Q

/-- What a poll finds: a read of the stream, its end, room in the socket for some bytes, an
answer, or an error of the socket. -/
inductive Event (R : Type) where
  | read (read : Read)
  | eof
  | took (n : Nat)
  | answered (a : R)
  | failed (e : Error)

/-- Run on to where the future awaits something. -/
def settle : Future Q R α → Bytes → Bool → Bytes → List Q → Config Q R α
  | ended outcome, buffer, closed, sent, asked => ⟨ended outcome, buffer, closed, sent, asked⟩
  | fill resume, [], false, sent, asked => ⟨fill resume, [], false, sent, asked⟩
  | fill resume, [], true, sent, asked => settle (resume []) [] true sent asked
  | fill resume, b :: bs, closed, sent, asked =>
      settle (resume (b :: bs)) (b :: bs) closed sent asked
  | consume n resume, buffer, closed, sent, asked =>
      settle resume (buffer.drop n) closed sent asked
  | send [] resume, buffer, closed, sent, asked => settle resume buffer closed sent asked
  | send (b :: bs) resume, buffer, closed, sent, asked =>
      ⟨send (b :: bs) resume, buffer, closed, sent, asked⟩
  | ask query resume, buffer, closed, sent, asked =>
      settle resume buffer closed sent (asked ++ [query])
  | answer resume, buffer, closed, sent, asked => ⟨answer resume, buffer, closed, sent, asked⟩

/-- The first poll. -/
def start (t : Future Q R α) : Config Q R α := settle t [] false [] []

namespace Config

/-- A poll that finds something, if the future awaits it. -/
def step (c : Config Q R α) : Event R → Option (Config Q R α)
  | .read r =>
      match c.future, c.buffer, c.closed with
      | fill resume, [], false => some (settle (fill resume) r.val false c.sent c.asked)
      | _, _, _ => none
  | .eof =>
      match c.future, c.buffer, c.closed with
      | fill resume, [], false => some (settle (fill resume) [] true c.sent c.asked)
      | _, _, _ => none
  | .took n =>
      match c.future with
      | send bytes resume =>
          if 0 < n ∧ n ≤ bytes.length then
            some (settle (send (bytes.drop n) resume) c.buffer c.closed
              (c.sent ++ bytes.take n) c.asked)
          else none
      | _ => none
  | .answered a =>
      match c.future with
      | answer resume => some (settle (resume a) c.buffer c.closed c.sent c.asked)
      | _ => none
  | .failed e =>
      match c.future with
      | fill _ | send _ _ => some { c with future := ended (.err e) }
      | _ => none

end Config

/-- What is yet to come: the reads of the stream, its end, and the answers. -/
structure Rest (R : Type) where
  reads : List Read
  ending : Ending
  answers : List R

/-- What was to come before an event. -/
def Event.before : Event R → Rest R → Rest R
  | .read r, rest => { rest with reads := r :: rest.reads }
  | .answered a, rest => { rest with answers := a :: rest.answers }
  | .eof, rest | .took _, rest | .failed _, rest => rest

/-- What was to come before the events of a run. -/
def comes (run : List (Event R × Config Q R α)) (rest : Rest R) : Rest R :=
  run.foldr (fun step rest => step.1.before rest) rest

/-- The reads that have come in a run. -/
def arrived (run : List (Event R × Config Q R α)) : List Read :=
  run.filterMap fun step =>
    match step.1 with
    | .read r => some r
    | .eof | .took _ | .answered _ | .failed _ => none

namespace Config

/-- What a future comes to if nothing interferes any more. -/
def finish (c : Config Q R α) (rest : Rest R) : Outcome α × World Q R :=
  c.future.run.run ⟨⟨c.buffer, rest.reads, rest.ending⟩, c.sent, c.asked, rest.answers⟩

/-- Nothing comes behind the end of a stream. -/
def Fits (c : Config Q R α) (rest : Rest R) : Prop :=
  c.closed = true → rest.reads = [] ∧ rest.ending = .closed

end Config

/-- The runs of a future from its first poll on. -/
def system (t : Future Q R α) : System (Config Q R α) (Event R) where
  Init c := c = start t
  Step c e c' := c.step e = some c'

/-! ## Running on -/

/-- Running on does not end the stream. -/
theorem settle_closed (t : Future Q R α) (buffer : Bytes) (closed : Bool) (sent : Bytes)
    (asked : List Q) : (settle t buffer closed sent asked).closed = closed := by
  induction t, buffer, closed, sent, asked using settle.induct <;> simp_all [settle]

/-- Running on changes nothing about what the future comes to. -/
theorem settle_finish (t : Future Q R α) (buffer : Bytes) (closed : Bool) (sent : Bytes)
    (asked : List Q) {rest : Rest R}
    (hrest : closed = true → rest.reads = [] ∧ rest.ending = .closed) :
    (settle t buffer closed sent asked).finish rest =
      t.run.run ⟨⟨buffer, rest.reads, rest.ending⟩, sent, asked, rest.answers⟩ := by
  induction t, buffer, closed, sent, asked using settle.induct with
  | case1 | case2 | case7 | case9 => rfl
  | case3 resume sent asked ih =>
      obtain ⟨hreads, hending⟩ := hrest rfl
      have hfill : (zoom World.incoming BufReader.fillBuf).run
            (⟨⟨[], [], .closed⟩, sent, asked, rest.answers⟩ : World Q R) =
          (.ok [], ⟨⟨[], [], .closed⟩, sent, asked, rest.answers⟩) := rfl
      have ih := ih hrest
      rw [hreads, hending] at ih ⊢
      rw [settle, ih, Future.run, bind_of_ok hfill]
  | case4 resume b bs closed sent asked ih => exact ih hrest
  | case5 n resume buffer closed sent asked ih => exact ih hrest
  | case6 resume buffer closed sent asked ih =>
      have hsend : (World.send []).run (⟨⟨buffer, rest.reads, rest.ending⟩, sent, asked,
            rest.answers⟩ : World Q R) =
          (.ok (), ⟨⟨buffer, rest.reads, rest.ending⟩, sent, asked, rest.answers⟩) := by
        simp [World.send]
      rw [settle, ih hrest, Future.run, bind_of_ok hsend]
  | case8 query resume buffer closed sent asked ih => exact ih hrest

/-! ## Events -/

/-- What an event finds, and what comes of it. -/
inductive Effect (c : Config Q R α) : Event R → Config Q R α → Prop where
  | read {resume : Bytes → Future Q R α} (r : Read) (hfuture : c.future = fill resume)
      (hbuffer : c.buffer = []) (hclosed : c.closed = false) :
      Effect c (.read r) (settle (fill resume) r.val false c.sent c.asked)
  | eof {resume : Bytes → Future Q R α} (hfuture : c.future = fill resume)
      (hbuffer : c.buffer = []) (hclosed : c.closed = false) :
      Effect c .eof (settle (fill resume) [] true c.sent c.asked)
  | took {bytes : Bytes} {resume : Future Q R α} {n : Nat} (hfuture : c.future = send bytes resume)
      (hn : n ≤ bytes.length) :
      Effect c (.took n) (settle (send (bytes.drop n) resume) c.buffer c.closed
        (c.sent ++ bytes.take n) c.asked)
  | answered {resume : R → Future Q R α} (a : R) (hfuture : c.future = answer resume) :
      Effect c (.answered a) (settle (resume a) c.buffer c.closed c.sent c.asked)
  | failed (e : Error) : Effect c (.failed e) { c with future := ended (.err e) }

/-- An event that a future awaits has its effect. -/
theorem step_effect {c c' : Config Q R α} {e : Event R} (h : c.step e = some c') :
    Effect c e c' := by
  cases e with
  | read r =>
      simp only [Config.step] at h
      split at h
      · next hfuture hbuffer hclosed =>
          obtain rfl := Option.some.inj h
          exact .read r hfuture hbuffer hclosed
      · cases h
  | eof =>
      simp only [Config.step] at h
      split at h
      · next hfuture hbuffer hclosed =>
          obtain rfl := Option.some.inj h
          exact .eof hfuture hbuffer hclosed
      · cases h
  | took n =>
      simp only [Config.step] at h
      split at h
      · next hfuture =>
          obtain ⟨⟨-, hn⟩, rfl⟩ := guarded_eq_some.mp h
          exact .took hfuture hn
      · cases h
  | answered a =>
      simp only [Config.step] at h
      split at h
      · next hfuture =>
          obtain rfl := Option.some.inj h
          exact .answered a hfuture
      · cases h
  | failed e =>
      simp only [Config.step] at h
      split at h
      all_goals first
        | obtain rfl := Option.some.inj h
          exact .failed e
        | cases h

/-- What fits behind an event fits before it with what the event has brought. -/
theorem step_fits {c c' : Config Q R α} {e : Event R} (h : c.step e = some c') {rest : Rest R}
    (hfits : c'.Fits rest) : c.Fits (e.before rest) := by
  intro hclosed
  cases step_effect h with
  | read _ _ _ hopen | eof _ _ hopen => simp [hopen] at hclosed
  | took | answered => exact hfits ((settle_closed ..).trans hclosed)
  | failed => exact hfits hclosed

/-- An event other than an error is on the way to what the future comes to. -/
theorem step_finish {c c' : Config Q R α} {e : Event R} (h : c.step e = some c')
    (hworks : ∀ error, e ≠ .failed error) {rest : Rest R} (hfits : c'.Fits rest) :
    c.finish (e.before rest) = c'.finish rest := by
  obtain ⟨future, buffer, closed, sent, asked⟩ := c
  cases step_effect h with
  | read r hfuture hbuffer hclosed =>
      obtain ⟨_ | ⟨b, bs⟩, hr⟩ := r
      · exact absurd rfl hr
      · cases hfuture
        cases hbuffer
        rw [settle_finish _ _ _ _ _ (by simp)]
        rfl
  | eof hfuture hbuffer hclosed =>
      cases hfuture
      cases hbuffer
      rw [settle_finish _ _ _ _ _ fun _ => hfits (settle_closed ..)]
      rfl
  | @took bytes resume n hfuture hn =>
      cases hfuture
      have hsent : sent ++ bytes.take n ++ bytes.drop n = sent ++ bytes := by
        rw [List.append_assoc, List.take_append_drop]
      rw [settle_finish _ _ _ _ _ fun hclosed => hfits ((settle_closed ..).trans hclosed)]
      simp only [Config.finish, Future.run, Proc.run_bind, World.send, hsent]
      rfl
  | answered a hfuture =>
      cases hfuture
      rw [settle_finish _ _ _ _ _ fun hclosed => hfits ((settle_closed ..).trans hclosed)]
      rfl
  | failed error => exact absurd rfl (hworks error)

/-- Whatever an event does, no more is sent and asked in the end than without an error. -/
theorem step_at_most {c c' : Config Q R α} {e : Event R} (h : c.step e = some c') {rest : Rest R}
    (hfits : c'.Fits rest) :
    (c'.finish rest).2.sent <+: (c.finish (e.before rest)).2.sent ∧
      (c'.finish rest).2.asked <+: (c.finish (e.before rest)).2.asked := by
  by_cases hworks : ∀ error, e ≠ .failed error
  · rw [step_finish h hworks hfits]
    exact ⟨List.prefix_rfl, List.prefix_rfl⟩
  · push Not at hworks
    obtain ⟨error, rfl⟩ := hworks
    cases step_effect h
    exact run_grows c.future _

/-! ## Runs -/

/-- No event of the run is an error of the socket. -/
def Works (run : List (Event R × Config Q R α)) : Prop :=
  ∀ step ∈ run, ∀ error, step.1 ≠ .failed error

/-- What fits behind a run fits before it with what the run has brought. -/
theorem run_fits {t : Future Q R α} {c : Config Q R α} {run : List (Event R × Config Q R α)}
    (hrun : (system t).Run c run) {rest : Rest R} (hfits : (System.final c run).Fits rest) :
    c.Fits (comes run rest) := by
  induction run generalizing c with
  | nil => exact hfits
  | cons step run ih => exact step_fits hrun.1 (ih hrun.2 hfits)

/-- In whatever parts the stream and the answers come, the future is on its way to what it comes
to over the whole of them. -/
theorem run_finish {t : Future Q R α} {c : Config Q R α} {run : List (Event R × Config Q R α)}
    (hrun : (system t).Run c run) (hworks : Works run) {rest : Rest R}
    (hfits : (System.final c run).Fits rest) :
    c.finish (comes run rest) = (System.final c run).finish rest := by
  induction run generalizing c with
  | nil => rfl
  | cons step run ih =>
      obtain ⟨hfirst, hworks⟩ := List.forall_mem_cons.mp hworks
      exact (step_finish hrun.1 hfirst (run_fits hrun.2 hfits)).trans (ih hrun.2 hworks hfits)

/-- Wherever a future is dropped or fails, it has sent and asked a prefix of what it comes to
over the whole of what has come and of whatever else may come. -/
theorem run_at_most {t : Future Q R α} {c : Config Q R α} {run : List (Event R × Config Q R α)}
    (hrun : (system t).Run c run) {rest : Rest R} (hfits : (System.final c run).Fits rest) :
    (System.final c run).sent <+: (c.finish (comes run rest)).2.sent ∧
      (System.final c run).asked <+: (c.finish (comes run rest)).2.asked := by
  induction run generalizing c with
  | nil =>
      exact run_grows c.future ⟨⟨c.buffer, rest.reads, rest.ending⟩, c.sent, c.asked, rest.answers⟩
  | cons step run ih =>
      obtain ⟨hsent, hasked⟩ := step_at_most hrun.1 (run_fits hrun.2 hfits)
      obtain ⟨hsent', hasked'⟩ := ih hrun.2 hfits
      exact ⟨hsent'.trans hsent, hasked'.trans hasked⟩

/-- What was to come before a run are the reads that have come in it, and what is to come behind
it. -/
theorem comes_stream (run : List (Event R × Config Q R α)) (rest : Rest R) :
    (comes run rest).reads = arrived run ++ rest.reads ∧
      (comes run rest).ending = rest.ending := by
  induction run with
  | nil => exact ⟨rfl, rfl⟩
  | cons step run ih =>
      obtain ⟨e, c⟩ := step
      obtain ⟨hreads, hending⟩ := ih
      cases e with
      | read r => exact ⟨congrArg (r :: ·) hreads, hending⟩
      | eof | took | answered | failed => exact ⟨hreads, hending⟩

/-! ## What has come so far -/

/-- A future that has been polled is over, or awaits a read of a stream that has not ended, room in
the socket, or an answer. -/
inductive Awaits : Config Q R α → Prop where
  | ended {c : Config Q R α} (o : Outcome α) (h : c.future = ended o) : Awaits c
  | read {c : Config Q R α} {resume : Bytes → Future Q R α} (h : c.future = fill resume)
      (hbuffer : c.buffer = []) (hclosed : c.closed = false) : Awaits c
  | room {c : Config Q R α} {bytes : Bytes} {resume : Future Q R α}
      (h : c.future = send bytes resume) (hbytes : bytes ≠ []) : Awaits c
  | answer {c : Config Q R α} {resume : R → Future Q R α} (h : c.future = answer resume) : Awaits c

/-- Running on stops where something is awaited. -/
theorem settle_awaits (t : Future Q R α) (buffer : Bytes) (closed : Bool) (sent : Bytes)
    (asked : List Q) : Awaits (settle t buffer closed sent asked) := by
  induction t, buffer, closed, sent, asked using settle.induct with
  | case1 o => exact .ended o rfl
  | case2 resume => exact .read rfl rfl rfl
  | case7 b bs resume => exact .room rfl (List.cons_ne_nil b bs)
  | case9 resume => exact .answer rfl
  | case3 | case4 | case5 | case6 | case8 => assumption

/-- Something is awaited at every point of a run. -/
theorem run_awaits {t : Future Q R α} {c : Config Q R α} {run : List (Event R × Config Q R α)}
    (hc : Awaits c) (hrun : (system t).Run c run) : Awaits (System.final c run) := by
  induction run generalizing c with
  | nil => exact hc
  | cons step run ih =>
      obtain ⟨e, c'⟩ := step
      refine ih ?_ hrun.2
      cases step_effect hrun.1 with
      | read | eof | took | answered => exact settle_awaits _ _ _ _ _
      | failed e => exact .ended _ rfl

/-- The future awaits room in the socket for bytes that it is sending. -/
def Config.AwaitsRoom (c : Config Q R α) : Prop :=
  ∃ bytes resume, c.future = send bytes resume ∧ bytes ≠ []

/-- Nothing more comes. -/
def Config.nothing (c : Config Q R α) : Rest R := ⟨[], if c.closed then .closed else .silent, []⟩

/-- The future has sent and asked what it comes to in the end, and is over if there is an end. -/
def Config.CaughtUp (c : Config Q R α) (done : Outcome α × World Q R) : Prop :=
  c.sent = done.2.sent ∧ c.asked = done.2.asked ∧ (done.1 ≠ .diverge → c.future = ended done.1)

/-- Where nothing more comes, only room in the socket is still of use. -/
theorem awaits_finish {c : Config Q R α} (h : Awaits c) :
    c.AwaitsRoom ∨ c.CaughtUp (c.finish c.nothing) := by
  obtain ⟨future, buffer, closed, sent, asked⟩ := c
  cases h with
  | ended o h =>
      cases h
      exact .inr ⟨rfl, rfl, fun _ => rfl⟩
  | read h hbuffer hclosed =>
      cases h
      cases hbuffer
      cases hclosed
      exact .inr ⟨rfl, rfl, fun hne => absurd rfl hne⟩
  | room h hbytes => exact .inl ⟨_, _, h, hbytes⟩
  | answer h =>
      cases h
      exact .inr ⟨rfl, rfl, fun hne => absurd rfl hne⟩

/-- A run of a future next to what the future comes to over the reads that have come in it: it has
sent and asked a prefix of that, and without an error of the socket all of it, unless it awaits
room in the socket. -/
structure Arrives (t : Future Q R α) (run : List (Event R × Config Q R α))
    (done : Outcome α × World Q R) : Prop where
  sent_so_far : (System.final (start t) run).sent <+: done.2.sent
  asked_so_far : (System.final (start t) run).asked <+: done.2.asked
  caught_up : Works run →
    (System.final (start t) run).AwaitsRoom ∨ (System.final (start t) run).CaughtUp done

/-- At every point of a run a future is where it comes to over the reads that have come so far. -/
theorem run_arrives {t : Future Q R α} {run : List (Event R × Config Q R α)}
    (hrun : (system t).Run (start t) run) :
    ∃ ending answers,
      Arrives t run (t.run.run ⟨⟨[], arrived run, ending⟩, [], [], answers⟩) := by
  let last := System.final (start t) run
  have hfits : last.Fits last.nothing := fun hclosed => ⟨rfl, if_pos hclosed⟩
  obtain ⟨hreads, hending⟩ := comes_stream run last.nothing
  refine ⟨last.nothing.ending, (comes run last.nothing).answers, ?_⟩
  have hstart : (start t).finish (comes run last.nothing) =
      t.run.run ⟨⟨[], arrived run, last.nothing.ending⟩, [], [],
        (comes run last.nothing).answers⟩ := by
    have hnone : last.nothing.reads = [] := rfl
    rw [start, settle_finish _ _ _ _ _ (by simp), hreads, hending, hnone, List.append_nil]
  obtain ⟨hsent, hasked⟩ := run_at_most hrun hfits
  rw [← hstart]
  refine ⟨hsent, hasked, fun hworks => ?_⟩
  rw [run_finish hrun hworks hfits]
  exact awaits_finish (run_awaits (settle_awaits _ _ _ _ _) hrun)

end Bws.Base.Future
