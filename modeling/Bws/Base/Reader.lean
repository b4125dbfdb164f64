import Bws.Base.Proc
import Mathlib.Data.List.Basic

/-!
# Readers of byte strings

A reader is a procedure whose state is the input still unread. Three laws are closed under
sequencing and are what the results about composite formats rest on.

* `SelfDelimiting`: what a successful run returns is fixed by the bytes it consumes, and
  every shorter input ends in `unexpectedEof`.
* `Undoes`: reading back what a writer appended gives the value written and leaves the
  bytes after it.
* `Shortens`: what has been read as a value can be written, in no more bytes.
-/

namespace Bws.Base

/-- A byte string. -/
abbrev Bytes := List UInt8

/-- A procedure that reads from the front of its input. -/
abbrev Reader (α : Type) := Proc Bytes α

namespace Reader

variable {α β : Type}

/-- The error of a read that needs more bytes than there are. -/
def eof : Error := ⟨.unexpectedEof, "failed to fill whole buffer"⟩

/-- The same error of a `read_exact` on a stream. -/
def earlyEof : Error := ⟨.unexpectedEof, "early eof"⟩

/-- The same error of a read of a number on a stream. -/
def unexpectedEnd : Error := ⟨.unexpectedEof, "unexpected end of file"⟩

/-- Take exactly `n` bytes, or report the end of the input having drained it. -/
def readExact (n : Nat) : Reader Bytes :=
  ⟨fun s => if n ≤ s.length then (.ok (s.take n), s.drop n) else (.err eof, [])⟩

/-- Take one byte. -/
def readByte : Reader UInt8 :=
  ⟨fun
    | b :: s => (.ok b, s)
    | [] => (.err eof, [])⟩

/-- What `readExact` does to an input. -/
theorem run_read_exact (n : Nat) (s : Bytes) :
    (readExact n).run s =
      if n ≤ s.length then (.ok (s.take n), s.drop n) else (.err eof, []) := rfl

/-- Reading the bytes in front of `rest` leaves `rest`. -/
theorem read_exact_append (bytes rest : Bytes) :
    (readExact bytes.length).run (bytes ++ rest) = (.ok bytes, rest) := by
  simp [run_read_exact]

/-- A successful `readExact` splits the input. -/
theorem read_exact_ok_iff {n : Nat} {s bytes rest : Bytes} :
    (readExact n).run s = (.ok bytes, rest) ↔ s = bytes ++ rest ∧ bytes.length = n := by
  constructor
  · intro h
    rw [run_read_exact] at h
    split at h
    · next hn =>
        obtain ⟨rfl, rfl⟩ : s.take n = bytes ∧ s.drop n = rest := by simpa using h
        exact ⟨(List.take_append_drop n s).symm, List.length_take_of_le hn⟩
    · simp at h
  · rintro ⟨rfl, rfl⟩
    exact read_exact_append bytes rest

/-- Too short an input is an `unexpectedEof`. -/
theorem read_exact_short {n : Nat} {s : Bytes} (h : s.length < n) :
    (readExact n).run s = (.err eof, []) := by
  rw [run_read_exact, if_neg (Nat.not_le_of_lt h)]

/-- Reading a fixed number of bytes always comes back. -/
@[simp] theorem returns_read_exact (n : Nat) (s : Bytes) : Proc.Returns (readExact n) s := by
  rw [Proc.Returns, run_read_exact]
  split <;> trivial

@[simp] theorem read_byte_cons (b : UInt8) (s : Bytes) :
    readByte.run (b :: s) = (.ok b, s) := rfl

@[simp] theorem read_byte_nil : readByte.run [] = (.err eof, []) := rfl

/-- A byte is a one-byte `readExact`. -/
theorem read_byte_eq : readByte = (fun bytes => bytes.headD 0) <$> readExact 1 := by
  ext1
  funext s
  cases s with
  | nil => rw [Proc.map_of_err (read_exact_short (by simp))]; rfl
  | cons b s =>
      have h := Proc.map_of_ok (read_exact_append [b] s) fun bytes => bytes.headD 0
      exact h.symm

/-! ## Self-delimiting readers -/

/-- The run ends in an `unexpectedEof` error. -/
def EndsEarly (r : Reader α) (s : Bytes) : Prop :=
  ∃ message rest, r.run s = (.err ⟨.unexpectedEof, message⟩, rest)

/-- `r` reads `used` as `a`: so it does whatever follows, and on no proper prefix. -/
structure Accepts (r : Reader α) (used : Bytes) (a : α) : Prop where
  reads : ∀ more, r.run (used ++ more) = (.ok a, more)
  truncated : ∀ k, k < used.length → EndsEarly r (used.take k)

/-- A reader whose every successful run is an acceptance of the bytes it consumed. -/
def SelfDelimiting (r : Reader α) : Prop :=
  ∀ s a rest, r.run s = (.ok a, rest) → ∃ used, s = used ++ rest ∧ Accepts r used a

/-- Accepting in sequence: the prefixes that stop in the first part or in the second. -/
theorem Accepts.bind {r : Reader α} {f : α → Reader β} {first second : Bytes} {a : α} {b : β}
    (hr : Accepts r first a) (hf : Accepts (f a) second b) :
    Accepts (r >>= f) (first ++ second) b := by
  refine ⟨fun more => ?_, fun k hk => ?_⟩
  · rw [List.append_assoc, Proc.bind_of_ok (hr.reads _), hf.reads]
  · by_cases hfirst : k < first.length
    · obtain ⟨message, rest, h⟩ := hr.truncated k hfirst
      rw [List.take_append_of_le_length (Nat.le_of_lt hfirst)]
      exact ⟨message, rest, Proc.bind_of_err h f⟩
    · obtain ⟨j, rfl⟩ := Nat.exists_eq_add_of_le (Nat.le_of_not_lt hfirst)
      rw [List.length_append] at hk
      obtain ⟨message, rest, h⟩ := hf.truncated j (by omega)
      rw [List.take_length_add_append]
      exact ⟨message, rest, (Proc.bind_of_ok (hr.reads _) f).trans h⟩

/-- Sequencing keeps readers self-delimiting. -/
theorem SelfDelimiting.bind {r : Reader α} {f : α → Reader β} (hr : SelfDelimiting r)
    (hf : ∀ a, SelfDelimiting (f a)) : SelfDelimiting (r >>= f) := by
  intro s b rest h
  obtain ⟨a, middle, hfirst, hsecond⟩ := Proc.bind_ok_iff.mp h
  obtain ⟨first, rfl, hacc⟩ := hr s a middle hfirst
  obtain ⟨second, rfl, hacc'⟩ := hf a middle b rest hsecond
  exact ⟨first ++ second, (List.append_assoc ..).symm, hacc.bind hacc'⟩

/-- Returning a value consumes nothing. -/
theorem SelfDelimiting.pure (a : α) : SelfDelimiting (pure a) := by
  intro s b rest h
  obtain ⟨rfl, rfl⟩ : a = b ∧ s = rest := by simpa using h
  exact ⟨[], rfl, fun _ => rfl, fun _ hk => absurd hk (Nat.not_lt_zero _)⟩

/-- A reader that never succeeds is self-delimiting for want of a successful run. -/
theorem SelfDelimiting.fail (e : Error) : SelfDelimiting (Proc.fail e : Reader α) := by
  intro s a rest h
  simp at h

/-- Likewise for one that unwinds. -/
theorem SelfDelimiting.unwind (p : Panic) : SelfDelimiting (Proc.unwind p : Reader α) := by
  intro s a rest h
  simp at h

/-- So is one that never comes back. -/
theorem SelfDelimiting.diverge : SelfDelimiting (Proc.diverge : Reader α) := by
  intro s a rest h
  simp at h

/-- A fixed number of bytes is self-delimiting. -/
theorem SelfDelimiting.readExact (n : Nat) : SelfDelimiting (readExact n) := by
  intro s bytes rest h
  obtain ⟨rfl, rfl⟩ := read_exact_ok_iff.mp h
  refine ⟨bytes, rfl, read_exact_append bytes, fun k hk => ?_⟩
  have hshort : (bytes.take k).length < bytes.length := by
    rw [List.length_take]
    omega
  exact ⟨_, _, read_exact_short hshort⟩

/-! ## Reading back what was written -/

/-- Whenever `write` appends to a buffer successfully, `read` takes the appended bytes to `a`,
in front of every `rest` that meets `tail`. -/
def UndoesAt (tail : Bytes → Prop) (write : Proc Bytes Nat) (read : Reader α) (a : α) : Prop :=
  ∀ buf n out, write.run buf = (.ok n, out) →
    ∃ bytes, out = buf ++ bytes ∧ ∀ rest, tail rest → read.run (bytes ++ rest) = (.ok a, rest)

/-- `read` takes what `write a` appends back to `a`, for every `a`. -/
def Undoes (tail : Bytes → Prop) (write : α → Proc Bytes Nat) (read : Reader α) : Prop :=
  ∀ a, UndoesAt tail (write a) read a

/-- Fewer tails ask for less. -/
theorem Undoes.mono {tail tail' : Bytes → Prop} {write : α → Proc Bytes Nat} {read : Reader α}
    (h : Undoes tail write read) (himp : ∀ rest, tail' rest → tail rest) :
    Undoes tail' write read := by
  intro a buf n out hw
  obtain ⟨bytes, hout, hread⟩ := h a buf n out hw
  exact ⟨bytes, hout, fun rest hrest => hread rest (himp rest hrest)⟩

/-! ## Writing what was read -/

/-- `write` appends `bytes` to every buffer. -/
def Appends (write : Proc Bytes Nat) (bytes : Bytes) : Prop :=
  ∀ buf, ∃ n, write.run buf = (.ok n, buf ++ bytes)

/-- A result without a write appends nothing. -/
theorem Appends.pure (n : Nat) : Appends (pure n) [] := fun buf => ⟨n, by simp⟩

/-- Writes in sequence append in sequence. -/
theorem Appends.bind {write : Proc Bytes Nat} {f : Nat → Proc Bytes Nat} {first second : Bytes}
    (hwrite : Appends write first) (hf : ∀ n, Appends (f n) second) :
    Appends (write >>= f) (first ++ second) := by
  intro buf
  obtain ⟨n, hn⟩ := hwrite buf
  obtain ⟨k, hk⟩ := hf n (buf ++ first)
  exact ⟨k, by rw [Proc.bind_of_ok hn, hk, List.append_assoc]⟩

/-- Whenever `read` takes `a` off an input, `write` succeeds and appends no more bytes than were
taken. -/
def ShortensAt (write : Proc Bytes Nat) (read : Reader α) (a : α) : Prop :=
  ∀ s rest, read.run s = (.ok a, rest) →
    ∃ used bytes, s = used ++ rest ∧ Appends write bytes ∧ bytes.length ≤ used.length

/-- What `read` takes off an input is written in no more bytes, for every value. -/
def Shortens (write : α → Proc Bytes Nat) (read : Reader α) : Prop :=
  ∀ a, ShortensAt (write a) read a

end Reader

end Bws.Base
