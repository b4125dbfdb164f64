import Bws.Base.Reader

/-!
# Laws of composed readers

A law of readers is `Compositional` when a sequence meets it as soon as its parts do; a composed
reader then meets it by the shape of its definition alone. Two such laws say that a reader is
self-delimiting and that it comes to an end on every input. The third is `Forward`, about what a
reader does not read: it leaves the input behind the bytes it has taken, and what it returns
without taking any it would return on every input.
-/

namespace Bws.Base.Reader

variable {α β : Type}

/-- A law that holds of the parts of a reader and so of the reader. An error that a part makes up
is never `unexpectedEof`, which is left to the reads that meet the end of the input. -/
structure Compositional (P : ∀ {γ : Type}, Reader γ → Prop) : Prop where
  pure {γ : Type} (c : γ) : P (pure c : Reader γ)
  fail {γ : Type} (e : Error) : e.kind ≠ .unexpectedEof → P (Proc.fail e : Reader γ)
  unwind {γ : Type} (r : Panic) : P (Proc.unwind r : Reader γ)
  readExact (n : Nat) : P (readExact n)
  bind {γ δ : Type} {r : Reader γ} {f : γ → Reader δ} : P r → (∀ c, P (f c)) → P (r >>= f)

namespace Compositional

variable {P : ∀ {γ : Type}, Reader γ → Prop}

/-- Mapping the value keeps the law. -/
theorem map (hP : Compositional P) {r : Reader α} (hr : P r) (f : α → β) : P (f <$> r) := by
  rw [map_eq_pure_bind]
  exact hP.bind hr fun _ => hP.pure _

/-- Branching on what is already known keeps the law. -/
theorem ite (_ : Compositional P) {p : Prop} [Decidable p] {r q : Reader α} (hr : P r)
    (hq : P q) : P (if p then r else q) := by
  split
  · exact hr
  · exact hq

/-- One byte. -/
theorem readByte (hP : Compositional P) : P readByte := by
  rw [read_byte_eq]
  exact hP.map (hP.readExact 1) _

/-- The iterations of a loop, with the law for the loop that has run out of them. -/
theorem loop (hP : Compositional P) {body : β → Reader (β ⊕ α)} (hbody : ∀ b, P (body b))
    (hend : P (Proc.diverge : Reader α)) : ∀ fuel b, P (Proc.loop body fuel b)
  | 0, _ => hend
  | fuel + 1, b => hP.bind (hbody b) fun
      | .inl next => hP.loop hbody hend fuel next
      | .inr result => hP.pure result

end Compositional

/-- Self-delimitation is such a law. -/
theorem SelfDelimiting.compositional : Compositional fun {_} r => SelfDelimiting r where
  pure := .pure
  fail e _ := .fail e
  unwind := .unwind
  readExact := .readExact
  bind := .bind

/-- So is coming to an end. -/
theorem ends_compositional : Compositional fun {_} r => ∀ s, Proc.Ends r s where
  pure c s := (Proc.returns_pure c s).ends
  fail e _ s := by simp [Proc.Ends]
  unwind r s := by simp [Proc.Ends]
  readExact n s := (returns_read_exact n s).ends
  bind hr hf s := (hr s).bind fun a t _ => hf a t

/-! ## Going forward -/

/-- The reader goes forward through its input. -/
structure Forward (r : Reader α) : Prop where
  /-- What is left is the back of the input. -/
  suffix : ∀ s, (r.run s).2 <:+ s
  /-- The end of the input is reported at the end of the input. -/
  eof_at_end : ∀ s message rest, r.run s = (.err ⟨.unexpectedEof, message⟩, rest) → rest = []
  /-- What is read of no bytes, with bytes left, does not depend on them. -/
  constant : ∀ s a, s ≠ [] → r.run s = (.ok a, s) → ∀ t, r.run t = (.ok a, t)

/-- A successful read takes its bytes off the front. -/
theorem Forward.takes_front {r : Reader α} (hr : Forward r) {s rest : Bytes} {a : α}
    (h : r.run s = (.ok a, rest)) : ∃ segment, s = segment ++ rest := by
  obtain ⟨segment, hs⟩ := hr.suffix s
  rw [h] at hs
  exact ⟨segment, hs.symm⟩

/-- Nothing is read of an empty input but its end. -/
theorem Forward.rest_nil {r : Reader α} (hr : Forward r) {rest : Bytes} {o : Outcome α}
    (h : r.run [] = (o, rest)) : rest = [] := by
  have hs := hr.suffix []
  rw [h] at hs
  exact List.suffix_nil.mp hs

theorem Forward.pure (a : α) : Forward (pure a) where
  suffix s := List.suffix_rfl
  eof_at_end s message rest h := by simp at h
  constant s b _ h t := by
    obtain rfl : a = b := by simpa using h
    rfl

theorem Forward.fail {e : Error} (he : e.kind ≠ .unexpectedEof) :
    Forward (Proc.fail e : Reader α) where
  suffix s := List.suffix_rfl
  eof_at_end s message rest h := by
    obtain ⟨rfl, -⟩ : e = ⟨.unexpectedEof, message⟩ ∧ s = rest := by simpa using h
    exact absurd rfl he
  constant s a _ h := by simp at h

theorem Forward.unwind (p : Panic) : Forward (Proc.unwind p : Reader α) where
  suffix s := List.suffix_rfl
  eof_at_end s message rest h := by simp at h
  constant s a _ h := by simp at h

theorem Forward.diverge : Forward (Proc.diverge : Reader α) where
  suffix s := List.suffix_rfl
  eof_at_end s message rest h := by simp at h
  constant s a _ h := by simp at h

theorem Forward.readExact (n : Nat) : Forward (readExact n) where
  suffix s := by
    rw [run_read_exact]
    split
    · exact List.drop_suffix n s
    · exact List.nil_suffix
  eof_at_end s message rest h := by
    rw [run_read_exact] at h
    split at h
    · simp at h
    · exact (Prod.mk.inj h).2.symm
  constant s bytes _ h t := by
    -- only no bytes at all leave the input as it is
    obtain ⟨hs, rfl⟩ := read_exact_ok_iff.mp h
    obtain rfl := List.self_eq_append_left.mp hs
    exact read_exact_append [] t

/-- Going forward in sequence. -/
theorem Forward.bind {r : Reader α} {f : α → Reader β} (hr : Forward r)
    (hf : ∀ a, Forward (f a)) : Forward (r >>= f) where
  suffix s := by
    have hs := hr.suffix s
    rcases hrun : r.run s with ⟨a | e | p | _, t⟩ <;> rw [hrun] at hs
    · rw [Proc.bind_of_ok hrun]
      exact ((hf a).suffix t).trans hs
    · rwa [Proc.bind_of_err hrun]
    · rwa [Proc.bind_of_panic hrun]
    · rwa [Proc.bind_of_diverge hrun]
  eof_at_end s message rest h := by
    rcases hrun : r.run s with ⟨a | e | p | _, t⟩
    · rw [Proc.bind_of_ok hrun] at h
      exact (hf a).eof_at_end t message rest h
    · rw [Proc.bind_of_err hrun] at h
      obtain ⟨heof, rfl⟩ := Prod.mk.inj h
      cases heof
      exact hr.eof_at_end s message t hrun
    · simp [Proc.bind_of_panic hrun] at h
    · simp [Proc.bind_of_diverge hrun] at h
  constant s b hs h t := by
    obtain ⟨a, middle, hfirst, hsecond⟩ := Proc.bind_ok_iff.mp h
    -- neither part takes a byte
    have hmiddle : middle <:+ s := by simpa [hfirst] using hr.suffix s
    have hback : s <:+ middle := by simpa [hsecond] using (hf a).suffix middle
    obtain rfl := hmiddle.eq_of_length_le hback.length_le
    rw [Proc.bind_of_ok (hr.constant middle a hs hfirst t)]
    exact (hf a).constant middle b hs hsecond t

/-- Going forward is a law of composed readers. -/
theorem Forward.compositional : Compositional fun {_} r => Forward r where
  pure := .pure
  fail _ := .fail
  unwind := .unwind
  readExact := .readExact
  bind := .bind

end Bws.Base.Reader
