import Bws.Base.Streaming

/-!
# Futures

What an asynchronous function does, as a tree of what it does next: it looks at its stream, sends
bytes to its peer, or asks a service and awaits the answer. `Future.run` is what it comes to when
nothing interferes, over the whole of what arrives; how it comes to that while the parts arrive
one after the other is left open.
-/

namespace Bws.Base

open Proc

/-- A future that yields `α`, asks `Q` and is answered `R`. -/
inductive Future (Q R α : Type) where
  | ended (outcome : Outcome α)
  | fill (resume : Bytes → Future Q R α)
  | consume (n : Nat) (resume : Future Q R α)
  | send (bytes : Bytes) (resume : Future Q R α)
  | ask (query : Q) (resume : Future Q R α)
  | answer (resume : R → Future Q R α)

/-- What a future runs against: its stream, the bytes it has sent, what it has asked, and the
answers to come. -/
structure World (Q R : Type) where
  stream : BufReader
  sent : Bytes
  asked : List Q
  answers : List R

variable {Q R α β : Type}

namespace World

/-- The stream. -/
def incoming : Lens (World Q R) BufReader where
  get w := w.stream
  set w r := { w with stream := r }
  get_set _ _ := rfl
  set_get _ := rfl
  set_set _ _ _ := rfl

/-- The peer takes all bytes. -/
def send (bytes : Bytes) : Proc (World Q R) Unit :=
  ⟨fun w => (.ok (), { w with sent := w.sent ++ bytes })⟩

/-- The service is asked. -/
def ask (query : Q) : Proc (World Q R) Unit :=
  ⟨fun w => (.ok (), { w with asked := w.asked ++ [query] })⟩

/-- The service answers, if it ever does. -/
def answer : Proc (World Q R) R :=
  ⟨fun w =>
    match w.answers with
    | [] => (.diverge, w)
    | a :: answers => (.ok a, { w with answers := answers })⟩

end World

namespace Future

/-- Nothing is left to do. -/
protected def pure (a : α) : Future Q R α := ended (.ok a)

/-- Go on with the value of the first part; anything but a value ends the future. -/
protected def bind : Future Q R α → (α → Future Q R β) → Future Q R β
  | ended (.ok a), f => f a
  | ended (.err e), _ => ended (.err e)
  | ended (.panic r), _ => ended (.panic r)
  | ended .diverge, _ => ended .diverge
  | fill resume, f => fill fun bytes => (resume bytes).bind f
  | consume n resume, f => consume n (resume.bind f)
  | send bytes resume, f => send bytes (resume.bind f)
  | ask query resume, f => ask query (resume.bind f)
  | answer resume, f => answer fun a => (resume a).bind f

/-- `.await?` in sequence. -/
instance : Monad (Future Q R) where
  pure := Future.pure
  bind := Future.bind

/-- Return an error. -/
def fail (e : Error) : Future Q R α := ended (.err e)

/-- Unwind. -/
def unwind (r : Panic) : Future Q R α := ended (.panic r)

/-- `loop { body }`, for at most so many rounds. -/
def loop (body : β → Future Q R (β ⊕ α)) : Nat → β → Future Q R α
  | 0, _ => ended .diverge
  | rounds + 1, b => do
      match ← body b with
      | .inl next => loop body rounds next
      | .inr result => pure result

/-- Run a future to its end. -/
protected def run : Future Q R α → Proc (World Q R) α
  | ended outcome => ⟨fun w => (outcome, w)⟩
  | fill resume => do (resume (← zoom World.incoming BufReader.fillBuf)).run
  | consume n resume => do
      zoom World.incoming (BufReader.consume n)
      resume.run
  | send bytes resume => do
      World.send bytes
      resume.run
  | ask query resume => do
      World.ask query
      resume.run
  | answer resume => do (resume (← World.answer)).run

/-! ## The parts of a future -/

@[simp] theorem run_pure (a : α) : (pure a : Future Q R α).run = pure a := rfl

@[simp] theorem run_fail (e : Error) : (fail e : Future Q R α).run = Proc.fail e := rfl

@[simp] theorem run_unwind (r : Panic) : (unwind r : Future Q R α).run = Proc.unwind r := rfl

/-- A sequence of futures runs in sequence. -/
theorem run_bind (t : Future Q R α) (f : α → Future Q R β) :
    (t >>= f).run = t.run >>= fun a => (f a).run := by
  change (t.bind f).run = _
  induction t with
  | ended outcome => cases outcome <;> rfl
  | fill resume ih | answer resume ih =>
      simp only [Future.bind, Future.run, bind_assoc]
      congr 1
      funext a
      exact ih a
  | consume n resume ih | send bytes resume ih | ask query resume ih =>
      simp only [Future.bind, Future.run, bind_assoc, ih]

/-- A loop of futures runs as a loop. -/
theorem run_loop (body : β → Future Q R (β ⊕ α)) (rounds : Nat) (b : β) :
    (loop body rounds b).run = Proc.loop (fun b => (body b).run) rounds b := by
  induction rounds generalizing b with
  | zero => rfl
  | succ rounds ih =>
      rw [loop, run_bind, loop_succ]
      congr 1
      funext next
      cases next with
      | inl next => exact ih next
      | inr result => rfl

section Loop

variable {body : β → Future Q R (β ⊕ α)} {b : β} {w w' : World Q R} (rounds : Nat)

/-- A round that goes on. -/
theorem run_loop_next {next : β} (h : (body b).run.run w = (.ok (.inl next), w')) :
    (loop body (rounds + 1) b).run.run w = (loop body rounds next).run.run w' := by
  rw [loop, run_bind, bind_of_ok h]

/-- A round that breaks with what another part comes to. -/
theorem run_loop_break {t : Future Q R α} (h : (body b).run.run w = (Sum.inr <$> t.run).run w') :
    (loop body (rounds + 1) b).run.run w = t.run.run w' := by
  rw [loop, run_bind]
  rcases ht : t.run.run w' with ⟨_ | _ | _ | _, u⟩
  · rw [bind_of_ok (h.trans (map_of_ok ht _))]
    rfl
  · exact bind_of_err (h.trans (map_of_err ht _)) _
  · exact bind_of_panic (h.trans (map_of_panic ht _)) _
  · exact bind_of_diverge (h.trans (map_of_diverge ht _)) _

/-- A round without a value ends the loop. -/
theorem run_loop_none {o : Outcome (β ⊕ α)} (h : (body b).run.run w = (o, w'))
    (hnone : ∀ x, o ≠ .ok x) :
    ∃ o' : Outcome α, (loop body (rounds + 1) b).run.run w = (o', w') ∧ (∀ a, o' ≠ .ok a) ∧
      (o' = .diverge ↔ o = .diverge) := by
  rw [loop, run_bind]
  exact bind_of_none h hnone _

end Loop

/-- What has been sent and asked before a run of `p` stays. -/
def Grows (p : Proc (World Q R) α) : Prop :=
  ∀ w, w.sent <+: (p.run w).2.sent ∧ w.asked <+: (p.run w).2.asked

/-- Sequencing only adds. -/
theorem Grows.bind {p : Proc (World Q R) α} {f : α → Proc (World Q R) β} (hp : Grows p)
    (hf : ∀ a, Grows (f a)) : Grows (p >>= f) := by
  intro w
  obtain ⟨hsent, hasked⟩ := hp w
  rw [Proc.run_bind]
  rcases hrun : p.run w with ⟨a | e | r | _, w'⟩
  · rw [hrun] at hsent hasked
    obtain ⟨hsent', hasked'⟩ := hf a w'
    exact ⟨hsent.trans hsent', hasked.trans hasked'⟩
  all_goals
    rw [hrun] at hsent hasked
    exact ⟨hsent, hasked⟩

/-- A run on the stream neither sends nor asks. -/
theorem grows_incoming (p : Proc BufReader α) : Grows (zoom (World.incoming (Q := Q) (R := R)) p) :=
  fun _ => ⟨List.prefix_rfl, List.prefix_rfl⟩

/-- Whatever a future does, what has been sent and asked before stays. -/
theorem run_grows (t : Future Q R α) : Grows t.run := by
  induction t with
  | ended outcome => exact fun _ => ⟨List.prefix_rfl, List.prefix_rfl⟩
  | fill resume ih => exact (grows_incoming _).bind ih
  | consume n resume ih => exact (grows_incoming _).bind fun _ => ih
  | send bytes resume ih =>
      exact Grows.bind (fun w => ⟨List.prefix_append _ _, List.prefix_rfl⟩) fun _ => ih
  | ask query resume ih =>
      exact Grows.bind (fun w => ⟨List.prefix_rfl, List.prefix_append _ _⟩) fun _ => ih
  | answer resume ih =>
      refine Grows.bind (fun w => ?_) ih
      cases hanswers : w.answers with
      | nil | cons a answers =>
          simp only [World.answer, hanswers]
          exact ⟨List.prefix_rfl, List.prefix_rfl⟩

/-! ## Reading from the stream -/

/-- `fill_buf()`. -/
def fillBuf : Future Q R Bytes := fill pure

/-- `consume(n)`. -/
def use (n : Nat) : Future Q R Unit := consume n (pure ())

/-- `write_all`. -/
def writeAll (bytes : Bytes) : Future Q R Unit := send bytes (pure ())

/-- One round of `read_exact`. -/
def readRound (eof : Error) (n : Nat) (read : Bytes) : Future Q R (Bytes ⊕ Bytes) :=
  if n ≤ read.length then pure (.inr read)
  else do
    let part := (← fillBuf).take (n - read.length)
    if part = [] then fail eof
    else do
      use part.length
      pure (.inl (read ++ part))

/-- `read_exact`: read `n` bytes. -/
def readExact (eof : Error) (n : Nat) : Future Q R Bytes := loop (readRound eof n) (n + 1) []

@[simp] theorem run_fill_buf :
    (fillBuf : Future Q R Bytes).run = zoom World.incoming BufReader.fillBuf :=
  bind_pure _

@[simp] theorem run_use (n : Nat) :
    (use n : Future Q R Unit).run = zoom World.incoming (BufReader.consume n) :=
  bind_pure _

@[simp] theorem run_write_all (bytes : Bytes) :
    (writeAll bytes : Future Q R Unit).run = World.send bytes :=
  bind_pure _

/-- A number of bytes is read from the stream alone. -/
theorem run_read_exact (eof : Error) (n : Nat) :
    (readExact eof n : Future Q R Bytes).run =
      zoom World.incoming (BufReader.readExact eof n) := by
  rw [readExact, run_loop, BufReader.readExact, zoom_loop]
  congr 1
  funext read
  rw [readRound, BufReader.readRound]
  split
  · exact (zoom_pure _ _).symm
  · rw [run_bind, run_fill_buf, zoom_bind]
    congr 1
    funext buffer
    dsimp only
    split
    · exact (zoom_fail _ _).symm
    · rw [run_bind, run_use, zoom_bind, zoom_pure]
      rfl

/-- What is read of a stream that is closed. -/
theorem read_exact_closed (eof : Error) (n : Nat) (w : World Q R)
    (hclosed : w.stream.ending = .closed) : ∃ r : BufReader,
      (readExact eof n).run.run w =
        (if n ≤ w.stream.pending.length then .ok (w.stream.pending.take n) else .err eof,
          { w with stream := r }) ∧
      r.ending = .closed ∧ r.pending = w.stream.pending.drop n := by
  by_cases hle : n ≤ w.stream.pending.length
  · obtain ⟨r, hrun, hpending, hending⟩ := BufReader.read_exact_of_le eof hle
    refine ⟨r, ?_, hending.trans hclosed, hpending⟩
    rw [run_read_exact, if_pos hle]
    exact congrArg (fun x : Outcome Bytes × BufReader => (x.1, { w with stream := x.2 })) hrun
  · have hspec := BufReader.read_exact_run eof n w.stream
    rw [BufReader.readSpec, if_neg hle, hclosed] at hspec
    obtain ⟨houtcome, hgather⟩ := Prod.mk.inj hspec
    obtain ⟨hpending, -, hending⟩ := BufReader.mk.inj hgather
    refine ⟨((BufReader.readExact eof n).run w.stream).2, ?_, hending, ?_⟩
    · rw [run_read_exact, if_neg hle]
      exact Prod.ext houtcome rfl
    · rw [List.drop_of_length_le (Nat.le_of_not_le hle)]
      exact hpending

/-! ## Futures that only read -/

/-- The future reads from its stream what `p` reads from the bytes, and does nothing else. -/
def Reads (t : Future Q R α) (p : Reader α) : Prop :=
  ∃ q, t.run = zoom World.incoming q ∧ BufReader.Streams p q

namespace Reads

theorem pure (a : α) : Reads (Pure.pure a : Future Q R α) (Pure.pure a) :=
  ⟨Pure.pure a, (zoom_pure _ a).symm, .pure a⟩

theorem fail (e : Error) : Reads (Future.fail e : Future Q R α) (Proc.fail e) :=
  ⟨Proc.fail e, (zoom_fail _ e).symm, .fail e⟩

theorem unwind (r : Panic) : Reads (Future.unwind r : Future Q R α) (Proc.unwind r) :=
  ⟨Proc.unwind r, (zoom_unwind _ r).symm, .unwind r⟩

/-- A number of bytes. -/
theorem readExact (eof : Error) (n : Nat) :
    Reads (Future.readExact eof n : Future Q R Bytes) (Reader.readExact n) :=
  ⟨_, run_read_exact eof n, .readExact eof n⟩

/-- In sequence, one goes on where the other has stopped. -/
theorem bind {t : Future Q R α} {p : Reader α} {f : α → Future Q R β} {g : α → Reader β}
    (ht : Reads t p) (hf : ∀ a, Reads (f a) (g a)) : Reads (t >>= f) (p >>= g) := by
  obtain ⟨q, hq, hstreams⟩ := ht
  choose q' hq' hstreams' using hf
  refine ⟨q >>= q', ?_, hstreams.bind hstreams'⟩
  rw [run_bind, hq, zoom_bind]
  congr 1
  funext a
  exact hq' a

/-- Mapping the value. -/
theorem map {t : Future Q R α} {p : Reader α} (h : Reads t p) (f : α → β) :
    Reads (f <$> t) (f <$> p) := by
  rw [map_eq_pure_bind f p]
  exact h.bind fun a => pure (f a)

/-- A loop whose rounds only read. -/
theorem loop {body : β → Future Q R (β ⊕ α)} {body' : β → Reader (β ⊕ α)}
    (h : ∀ b, Reads (body b) (body' b)) (rounds : Nat) (b : β) :
    Reads (Future.loop body rounds b) (Proc.loop body' rounds b) := by
  choose q hq hstreams using h
  refine ⟨Proc.loop q rounds b, ?_, .loop hstreams rounds b⟩
  rw [run_loop, zoom_loop]
  congr 1
  funext b
  exact hq b

variable {t : Future Q R α} {p : Reader α} (h : Reads t p) {w w' : World Q R} {a : α}

include h

/-- What is read from the bytes is read from the stream. -/
theorem of_ok {rest : Bytes} (hrun : p.run w.stream.pending = (.ok a, rest)) :
    ∃ r, t.run.run w = (.ok a, { w with stream := r }) ∧ r.pending = rest ∧
      r.ending = w.stream.ending := by
  obtain ⟨q, hq, hstreams⟩ := h
  obtain ⟨r, hrun', hpending, hending⟩ := hstreams.of_ok hrun
  refine ⟨r, ?_, hpending, hending⟩
  rw [hq, zoom_ok_iff]
  exact ⟨r, hrun', rfl⟩

/-- What is read from the stream is read from its bytes. -/
theorem to_ok (hrun : t.run.run w = (.ok a, w')) :
    p.run w.stream.pending = (.ok a, w'.stream.pending) ∧
      w' = { w with stream := w'.stream } ∧ w'.stream.ending = w.stream.ending := by
  obtain ⟨q, hq, hstreams⟩ := h
  rw [hq] at hrun
  obtain ⟨r, hrun', rfl⟩ := (zoom_ok_iff _).mp hrun
  obtain ⟨hread, hending⟩ := hstreams.to_ok hrun'
  exact ⟨hread, rfl, hending⟩

/-- Only the stream is touched. -/
theorem touches (w : World Q R) :
    (t.run.run w).2 = { w with stream := (t.run.run w).2.stream } := by
  obtain ⟨q, hq, -⟩ := h
  rw [hq]
  rfl

/-- A reader that comes to an end comes to one on a stream that is not silent. -/
theorem ends (hends : Ends p w.stream.pending) (hending : w.stream.ending ≠ .silent) :
    Ends t.run w := by
  obtain ⟨q, hq, hstreams⟩ := h
  rw [hq]
  exact hstreams.ends hends hending

/-- A panic on the stream is one on its bytes. -/
theorem unwinds_iff : Unwinds t.run w ↔ Unwinds p w.stream.pending := by
  obtain ⟨q, hq, hstreams⟩ := h
  rw [hq]
  exact hstreams.unwinds_iff

end Reads

end Future

end Bws.Base
