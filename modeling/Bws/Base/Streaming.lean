import Bws.Base.BufReader

/-!
# Readers on streams

A reader takes its input from a byte string, and a server takes it from a stream that arrives in
reads. `Streams r q` says that `q` does on a stream what `r` does on its bytes: it returns the
same value and leaves the same bytes, and where `r` meets the end of its input, `q` ends as the
stream does. The relation is closed under sequencing and loops.
-/

namespace Bws.Base.BufReader

open Proc

variable {α β : Type}

/-- A run on a stream with this ending, next to a run on its bytes. -/
inductive Follows (ending : Ending) : Outcome α × Bytes → Outcome α × BufReader → Prop where
  | ok (a : α) {rest : Bytes} {r : BufReader} (hrest : r.pending = rest)
      (hending : r.ending = ending) : Follows ending (.ok a, rest) (.ok a, r)
  | err (e : Error) (rest : Bytes) (r : BufReader) : Follows ending (.err e, rest) (.err e, r)
  | early (message eof : Error) (rest : Bytes) (r : BufReader)
      (hkind : message.kind = .unexpectedEof) :
      Follows ending (.err message, rest) (atEnd eof ending, r)
  | panic (p : Panic) (rest : Bytes) (r : BufReader) :
      Follows ending (.panic p, rest) (.panic p, r)
  | diverge (rest : Bytes) (r : BufReader) : Follows ending (.diverge, rest) (.diverge, r)

/-- `q` does on every stream what `p` does on its bytes. -/
def Streams (p : Reader α) (q : Proc BufReader α) : Prop :=
  ∀ r : BufReader, Follows r.ending (p.run r.pending) (q.run r)

namespace Streams

theorem pure (a : α) : Streams (pure a) (pure a) := fun _ => .ok a rfl rfl

theorem fail (e : Error) : Streams (Proc.fail e : Reader α) (Proc.fail e) :=
  fun _ => .err e _ _

theorem unwind (p : Panic) : Streams (Proc.unwind p : Reader α) (Proc.unwind p) :=
  fun _ => .panic p _ _

/-- In sequence, the second part goes on with the bytes that the first has left. -/
theorem bind {p : Reader α} {q : Proc BufReader α} {f : α → Reader β}
    {g : α → Proc BufReader β} (hp : Streams p q) (hf : ∀ a, Streams (f a) (g a)) :
    Streams (p >>= f) (q >>= g) := by
  intro r
  have hfirst := hp r
  rcases hrun : p.run r.pending with ⟨o, rest⟩
  rcases hrun' : q.run r with ⟨o', r'⟩
  rw [hrun, hrun'] at hfirst
  cases hfirst with
  | ok a hrest hending =>
      have hsecond := hf a r'
      rw [bind_of_ok hrun, bind_of_ok hrun']
      rwa [hrest, hending] at hsecond
  | err e =>
      rw [bind_of_err hrun, bind_of_err hrun']
      exact .err e _ _
  | early message eof _ _ hkind =>
      rw [bind_of_err hrun, bind_of_at_end hrun']
      exact .early message eof _ _ hkind
  | panic reason =>
      rw [bind_of_panic hrun, bind_of_panic hrun']
      exact .panic reason _ _
  | diverge =>
      rw [bind_of_diverge hrun, bind_of_diverge hrun']
      exact .diverge _ _

/-- Mapping the value. -/
theorem map {p : Reader α} {q : Proc BufReader α} (h : Streams p q) (f : α → β) :
    Streams (f <$> p) (f <$> q) := by
  rw [map_eq_pure_bind, map_eq_pure_bind]
  exact h.bind fun a => pure (f a)

/-- A loop whose iterations follow each other. -/
theorem loop {body : β → Reader (β ⊕ α)} {body' : β → Proc BufReader (β ⊕ α)}
    (h : ∀ b, Streams (body b) (body' b)) (fuel : Nat) (b : β) :
    Streams (Proc.loop body fuel b) (Proc.loop body' fuel b) := by
  induction fuel generalizing b with
  | zero => exact fun _ => .diverge _ _
  | succ fuel ih =>
      rw [loop_succ, loop_succ]
      refine (h b).bind fun next => ?_
      cases next with
      | inl next => exact ih next
      | inr result => exact pure result

/-- A fixed number of bytes. -/
theorem readExact (eof : Error) (n : Nat) :
    Streams (Reader.readExact n) (BufReader.readExact eof n) := by
  intro r
  rw [Reader.run_read_exact]
  by_cases hle : n ≤ r.pending.length
  · obtain ⟨r', hrun, hpending, hending⟩ := read_exact_of_le eof hle
    rw [if_pos hle, hrun]
    exact .ok _ hpending hending
  · obtain ⟨r', hrun⟩ := read_exact_of_lt eof (Nat.lt_of_not_le hle)
    rw [if_neg hle, hrun]
    exact .early _ eof _ _ rfl

variable {p : Reader α} {q : Proc BufReader α} (h : Streams p q) {r : BufReader} {rest : Bytes}

include h

/-- A value that is read from the bytes is read from the stream. -/
theorem of_ok {a : α} (hrun : p.run r.pending = (.ok a, rest)) :
    ∃ r', q.run r = (.ok a, r') ∧ r'.pending = rest ∧ r'.ending = r.ending := by
  have hfollows := h r
  rcases hrun' : q.run r with ⟨o, r'⟩
  rw [hrun, hrun'] at hfollows
  cases hfollows with
  | ok _ hrest hending => exact ⟨r', rfl, hrest, hending⟩

/-- A value that is read from the stream is read from its bytes. -/
theorem to_ok {a : α} {r' : BufReader} (hrun : q.run r = (.ok a, r')) :
    p.run r.pending = (.ok a, r'.pending) ∧ r'.ending = r.ending := by
  have hfollows := h r
  rcases hrun' : p.run r.pending with ⟨o, rest⟩
  rw [hrun, hrun'] at hfollows
  generalize ho : Outcome.ok a = o' at hfollows
  cases hfollows with
  | ok _ hrest hending =>
      obtain rfl := Outcome.ok.inj ho
      exact ⟨by rw [hrest], hending⟩
  | err e | panic p | diverge => cases ho
  | early message eof =>
      cases hending : r.ending <;> rw [hending] at ho <;> cases ho

/-- A panic on the stream is one on its bytes. -/
theorem unwinds_iff : Unwinds q r ↔ Unwinds p r.pending := by
  have hfollows := h r
  unfold Unwinds
  rcases hrun : p.run r.pending with ⟨o, rest⟩
  rcases hrun' : q.run r with ⟨o', r'⟩
  rw [hrun, hrun'] at hfollows
  cases hfollows with
  | ok | err | panic | diverge => simp
  | early message eof => cases r.ending <;> simp [atEnd]

omit h in
/-- An end of the stream that is not silent is seen. -/
theorem at_end_ends (eof : Error) {ending : Ending} (h : ending ≠ .silent) :
    (atEnd eof ending : Outcome α) ≠ .diverge := by
  cases ending with
  | closed | failed e => simp [atEnd]
  | silent => exact absurd rfl h

/-- A reader that comes to an end comes to one on a stream that is not silent. -/
theorem ends (hends : Ends p r.pending) (hending : r.ending ≠ .silent) : Ends q r := by
  have hfollows := h r
  rcases hrun : p.run r.pending with ⟨o, rest⟩
  rcases hrun' : q.run r with ⟨o', r'⟩
  rw [hrun, hrun'] at hfollows
  rw [Ends, hrun'] at *
  cases hfollows with
  | ok | err | panic => simp
  | early message eof => exact at_end_ends eof hending
  | diverge => simp [hrun] at hends

end Streams

end Bws.Base.BufReader
