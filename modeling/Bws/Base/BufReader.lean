import Bws.Base.BigEndian

/-!
# Buffered readers

A buffered reader over a stream that arrives in reads of any size. `fillBuf` shows how the
stream was split, since it hands out the first read as it is, but `readExact` does not:
`read_exact_run` says what it reads in terms of the bytes alone, so that `read_exact_respects`:
it does not tell two splits of a stream apart.
-/

namespace Bws.Base

open Proc

/-- What one read of the stream returns: some bytes, and not none. -/
abbrev Read := { bs : Bytes // bs ≠ [] }

/-- The stream behind the last read: it is at its end, it fails, or it stays silent. -/
inductive Ending where
  | closed
  | failed (error : Error)
  | silent
  deriving DecidableEq, Repr

/-- A reader: the bytes in its buffer, the reads to come, and how the stream ends. -/
@[ext] structure BufReader where
  buffer : Bytes
  reads : List Read
  ending : Ending
  deriving DecidableEq

namespace BufReader

/-- The bytes of some reads. -/
def bytes (reads : List Read) : Bytes := (reads.map Subtype.val).flatten

/-- `fill_buf()`: an empty buffer takes the next read. -/
def fillBuf : Proc BufReader Bytes :=
  ⟨fun r =>
    match r.buffer, r.reads with
    | [], read :: reads => (.ok read.val, { r with buffer := read.val, reads := reads })
    | [], [] =>
        match r.ending with
        | .closed => (.ok [], r)
        | .failed e => (.err e, r)
        | .silent => (.diverge, r)
    | b :: bs, _ => (.ok (b :: bs), r)⟩

/-- `consume(n)`: the first `n` bytes of the buffer have been used. -/
def consume (n : Nat) : Proc BufReader Unit :=
  ⟨fun r => (.ok (), { r with buffer := r.buffer.drop n })⟩

/-- One round of `read_exact`: as many of the missing bytes as the buffer has. -/
def readRound (eof : Error) (n : Nat) (read : Bytes) : Proc BufReader (Bytes ⊕ Bytes) :=
  if n ≤ read.length then pure (.inr read)
  else do
    let part := (← fillBuf).take (n - read.length)
    if part = [] then fail eof
    else
      consume part.length
      pure (.inl (read ++ part))

/-- `read_exact`: read `n` bytes, in rounds of at least one byte each. -/
def readExact (eof : Error) (n : Nat) : Proc BufReader Bytes :=
  loop (readRound eof n) (n + 1) []

/-- All bytes that have not been used yet. -/
def pending (r : BufReader) : Bytes := r.buffer ++ bytes r.reads

/-- The same reader with all of its bytes in the buffer. -/
def gather (r : BufReader) : BufReader := ⟨r.pending, [], r.ending⟩

/-! ## What is read -/

/-- What an end of the stream does to a read that needs more bytes. -/
def atEnd {α : Type} (eof : Error) : Ending → Outcome α
  | .closed => .err eof
  | .failed e => .err e
  | .silent => .diverge

/-- An end of the stream is never a value, so it skips the rest. -/
theorem bind_of_at_end {σ α β : Type} {p : Proc σ α} {s t : σ} {eof : Error} {ending : Ending}
    (h : p.run s = (atEnd eof ending, t)) (f : α → Proc σ β) :
    (p >>= f).run s = (atEnd eof ending, t) := by
  cases ending with
  | closed | failed e => exact bind_of_err h f
  | silent => exact bind_of_diverge h f

/-- A reader with no bytes left has neither buffer nor reads. -/
theorem pending_eq_nil {r : BufReader} (h : r.pending = []) : r.buffer = [] ∧ r.reads = [] := by
  obtain ⟨hbuffer, hreads⟩ := List.append_eq_nil_iff.mp h
  refine ⟨hbuffer, ?_⟩
  cases hr : r.reads with
  | nil => rfl
  | cons read reads =>
      rw [hr] at hreads
      exact absurd (List.append_eq_nil_iff.mp hreads).1 read.property

/-- With bytes left, the buffer is filled with some of them. -/
theorem fill_buf_run {r : BufReader} (h : r.pending ≠ []) :
    ∃ r', fillBuf.run r = (.ok r'.buffer, r') ∧ r'.buffer ≠ [] ∧ r'.gather = r.gather := by
  obtain ⟨buffer, reads, ending⟩ := r
  cases buffer with
  | cons b bs => exact ⟨⟨b :: bs, reads, ending⟩, rfl, List.cons_ne_nil b bs, rfl⟩
  | nil =>
      cases reads with
      | nil => exact absurd rfl h
      | cons read reads => exact ⟨⟨read.val, reads, ending⟩, rfl, read.property, rfl⟩

/-- One round at the end of the stream. -/
theorem read_round_at_end {r : BufReader} (h : r.pending = []) (eof : Error) {n : Nat}
    {read : Bytes} (hn : read.length < n) :
    (readRound eof n read).run r = (atEnd eof r.ending, r) := by
  obtain ⟨hbuffer, hreads⟩ := pending_eq_nil h
  obtain ⟨buffer, reads, ending⟩ := r
  subst hbuffer hreads
  rw [readRound, if_neg (Nat.not_le_of_lt hn)]
  cases ending with
  | closed =>
      have hfill : fillBuf.run ⟨[], [], .closed⟩ = (.ok [], ⟨[], [], .closed⟩) := rfl
      rw [bind_of_ok hfill, List.take_nil, if_pos rfl]
      rfl
  | failed e => exact bind_of_err rfl _
  | silent => exact bind_of_diverge rfl _

/-- One round with bytes left moves some of them. -/
theorem read_round_run {r : BufReader} (h : r.pending ≠ []) (eof : Error) {n : Nat}
    {read : Bytes} (hn : read.length < n) :
    ∃ part r', (readRound eof n read).run r = (.ok (.inl (read ++ part)), r') ∧ part ≠ [] ∧
      part.length ≤ n - read.length ∧ r.pending = part ++ r'.pending ∧ r'.ending = r.ending := by
  obtain ⟨r', hfill, hne, hgather⟩ := fill_buf_run h
  obtain ⟨hpending, -, hending⟩ := BufReader.mk.inj hgather
  have hpart : r'.buffer.take (n - read.length) ≠ [] := by
    rw [Ne, List.take_eq_nil_iff]
    rintro (hzero | hnil)
    · omega
    · exact hne hnil
  -- the round takes what it needs of the buffer, or all of it
  refine ⟨r'.buffer.take (n - read.length),
    { r' with buffer := r'.buffer.drop (r'.buffer.take (n - read.length)).length }, ?_, hpart,
    List.length_take_le _ _, ?_, hending⟩
  · rw [readRound, if_neg (Nat.not_le_of_lt hn), bind_of_ok hfill, if_neg hpart]
    rfl
  · have hpre : r'.buffer.take (n - read.length) <+: r'.buffer := List.take_prefix _ _
    rw [← hpending, pending, pending, ← List.append_assoc, List.prefix_iff_eq_append.mp hpre]

/-- What is read and what is left, by the bytes alone. -/
def readSpec (eof : Error) (read : Bytes) (k : Nat) (r : BufReader) : Outcome Bytes × BufReader :=
  if k ≤ r.pending.length then
    (.ok (read ++ r.pending.take k), ⟨r.pending.drop k, [], r.ending⟩)
  else (atEnd eof r.ending, ⟨[], [], r.ending⟩)

/-- The rounds of a read that still needs `n - read.length` bytes. -/
theorem read_rounds_run (eof : Error) {n fuel : Nat} {read : Bytes} {r : BufReader}
    (hread : read.length ≤ n) (hfuel : n < read.length + fuel) :
    Prod.map id gather ((loop (readRound eof n) fuel read).run r) =
      readSpec eof read (n - read.length) r := by
  -- the induction is on the rounds left, of which each moves at least one byte
  induction fuel generalizing read r with
  | zero => omega
  | succ fuel ih =>
      rw [loop_succ]
      by_cases hn : n ≤ read.length
      · have hround : (readRound eof n read).run r = (.ok (.inr read), r) := by
          rw [readRound, if_pos hn]
          rfl
        rw [bind_of_ok hround, readSpec, Nat.sub_eq_zero_of_le hn, if_pos (Nat.zero_le _)]
        simp [gather]
      · have hlt : read.length < n := Nat.lt_of_not_le hn
        by_cases hend : r.pending = []
        · have hshort : ¬ n - read.length ≤ r.pending.length := by
            rw [hend, List.length_nil]
            omega
          have hgather : r.gather = ⟨[], [], r.ending⟩ := by rw [gather, hend]
          rw [readSpec, if_neg hshort, ← hgather, bind_of_at_end (read_round_at_end hend eof hlt)]
          rfl
        · obtain ⟨part, r', hround, hne, hle, hpending, hending⟩ := read_round_run hend eof hlt
          have hpos : 0 < part.length := List.length_pos_iff.mpr hne
          have hlen : (read ++ part).length = read.length + part.length := List.length_append
          rw [bind_of_ok hround]
          refine (ih (by omega) (by omega)).trans ?_
          rw [readSpec, readSpec, hlen, hpending, hending, List.length_append]
          have hk : n - (read.length + part.length) = n - read.length - part.length := by omega
          by_cases hshort : n - read.length ≤ part.length + r'.pending.length
          · rw [if_pos hshort, if_pos (by omega), hk, List.append_assoc, List.take_append,
              List.drop_append, List.take_of_length_le hle, List.drop_of_length_le hle,
              List.nil_append]
          · rw [if_neg hshort, if_neg (by omega)]

/-- What `readExact` reads and leaves. -/
theorem read_exact_run (eof : Error) (n : Nat) (r : BufReader) :
    Prod.map id gather ((readExact eof n).run r) = readSpec eof [] n r :=
  read_rounds_run eof (Nat.zero_le n) (by simp)

/-- Bytes that are there are taken off the front of those that are pending. -/
theorem read_exact_of_le (eof : Error) {n : Nat} {r : BufReader} (h : n ≤ r.pending.length) :
    ∃ r', (readExact eof n).run r = (.ok (r.pending.take n), r') ∧
      r'.pending = r.pending.drop n ∧ r'.ending = r.ending := by
  have hspec := read_exact_run eof n r
  rw [readSpec, if_pos h] at hspec
  obtain ⟨houtcome, hgather⟩ := Prod.mk.inj hspec
  obtain ⟨hpending, -, hending⟩ := BufReader.mk.inj hgather
  exact ⟨_, Prod.ext houtcome rfl, hpending, hending⟩

/-- A read of more bytes than there will be ends as the stream does. -/
theorem read_exact_of_lt (eof : Error) {n : Nat} {r : BufReader} (h : r.pending.length < n) :
    ∃ r', (readExact eof n).run r = (atEnd eof r.ending, r') := by
  have hspec := read_exact_run eof n r
  rw [readSpec, if_neg (Nat.not_le_of_lt h)] at hspec
  exact ⟨_, Prod.ext (Prod.mk.inj hspec).1 rfl⟩

/-- Bytes that are there are read, and what is behind them is left. -/
theorem read_exact_of_pending (eof : Error) {r : BufReader} {read rest : Bytes}
    (h : r.pending = read ++ rest) :
    ∃ r', (readExact eof read.length).run r = (.ok read, r') ∧ r'.pending = rest := by
  have hle : read.length ≤ r.pending.length := by
    rw [h, List.length_append]
    exact Nat.le_add_right _ _
  obtain ⟨r', hrun, hpending, -⟩ := read_exact_of_le eof hle
  rw [h, List.take_left] at hrun
  rw [h, List.drop_left] at hpending
  exact ⟨r', hrun, hpending⟩

/-- `readExact` does not tell two splits of a stream apart. -/
theorem read_exact_respects (eof : Error) (n : Nat) : Respects gather (readExact eof n) := by
  intro r r' h
  obtain ⟨hpending, -, hending⟩ := BufReader.mk.inj h
  have hspec : readSpec eof [] n r = readSpec eof [] n r' := by
    rw [readSpec, readSpec, hpending, hending]
  have hrun := (read_exact_run eof n r).trans (hspec.trans (read_exact_run eof n r').symm)
  exact Prod.ext_iff.mp hrun

end BufReader

end Bws.Base
