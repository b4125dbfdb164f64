import Bws.Protocol.Lists

/-!
# Where the list reader stops

The loop that reads a `Box<[T]>` counts nothing. It stops where an element ends in an error, and
each byte that an element takes brings it closer to the end of the input; but where an element is
read of no bytes at all, the next iteration finds the same input again. `ends_within_iff`: the
loop stops, and within one iteration more than there are bytes, exactly when it does not come to
such a place. `stands_still_nowhere_iff` says for which elements there is none.
-/

namespace Bws.Protocol

open Bws.Base Bws.Base.Proc

/-- The loop of the list reader comes to an end within `n` iterations. -/
def EndsWithin (α : Type) [FromBytes α] (n : Nat) (s : Bytes) : Prop :=
  Ends (Proc.loop (readElementOrEof (α := α)) n []) s

/-- No element is read of an empty input. -/
def RejectsEmpty (α : Type) [FromBytes α] : Prop :=
  ∀ (a : α) rest, readFrom.run [] ≠ (.ok a, rest)

/-- Behind some elements of the input, the next one is read of no bytes, or its own reader does
not come to an end. -/
def StandsStill (α : Type) [FromBytes α] (s : Bytes) : Prop :=
  ∃ (elems : List α) (segments : List Bytes) (rest : Bytes),
    ReadsInto s elems segments rest ∧
      ((∃ a : α, readFrom.run rest = (.ok a, rest)) ∨ ¬ Ends (readFrom : Reader α) rest)

variable {α : Type} [FromBytes α]

/-! ## The loop -/

/-- The list reader ends where its loop does with an iteration for each byte and one more. -/
theorem ends_read_box_slice_iff {s : Bytes} :
    Ends (readFrom : Reader (BoxSlice α)) s ↔ EndsWithin α (s.length + 1) s :=
  ends_map_iff

/-- An element of no bytes is read in every iteration. -/
theorem loop_stuck {s : Bytes} {a : α} (h : readFrom.run s = (.ok a, s)) (n : Nat)
    (res : List α) : ¬ Ends (Proc.loop readElementOrEof n res) s := by
  induction n generalizing res with
  | zero => simp [Ends, Proc.loop]
  | succ n ih =>
      rw [Ends, read_loop_of_ok n res h]
      exact ih (res ++ [a])

/-- An element without an end is the last one that is begun. -/
theorem loop_hangs {s : Bytes} (h : ¬ Ends (readFrom : Reader α) s) (n : Nat) (res : List α) :
    ¬ Ends (Proc.loop readElementOrEof n res) s := by
  rcases hread : (readFrom : Reader α).run s with ⟨a | e | r | _, t⟩
  · simp [Ends, hread] at h
  · simp [Ends, hread] at h
  · simp [Ends, hread] at h
  · cases n with
    | zero => simp [Ends, Proc.loop]
    | succ n => simp [Ends, read_loop_of_diverge n res hread]

/-- The loop has no end behind which it has none. -/
theorem ReadsInto.never_ends {s rest : Bytes} {elems : List α} {segments : List Bytes}
    (h : ReadsInto s elems segments rest)
    (hrest : ∀ n res, ¬ Ends (Proc.loop (readElementOrEof (α := α)) n res) rest) (n : Nat)
    (res : List α) : ¬ Ends (Proc.loop readElementOrEof n res) s := by
  induction h generalizing n res with
  | nil s => exact hrest n res
  | @cons s segment middle rest segments a as _ hread _ ih =>
      cases n with
      | zero => simp [Ends, Proc.loop]
      | succ n =>
          rw [Ends, read_loop_of_ok n res hread]
          exact ih hrest n (res ++ [a])

/-- Where the loop comes to stand still, no number of iterations is enough. -/
theorem StandsStill.never_ends {s : Bytes} (h : StandsStill α s) (n : Nat) :
    ¬ EndsWithin α n s := by
  obtain ⟨elems, segments, rest, hreads, ⟨a, hstuck⟩ | hhang⟩ := h
  · exact hreads.never_ends (loop_stuck hstuck) n []
  · exact hreads.never_ends (loop_hangs hhang) n []

/-- An element in front of a place where the loop stands still. -/
theorem StandsStill.cons {s segment rest : Bytes} {a : α} (hs : s = segment ++ rest)
    (hread : readFrom.run s = (.ok a, rest)) (h : StandsStill α rest) : StandsStill α s := by
  obtain ⟨elems, segments, last, hreads, hlast⟩ := h
  exact ⟨a :: elems, segment :: segments, last, .cons hs hread hreads, hlast⟩

/-- A loop that has not ended after an iteration for each byte and one more has come to stand
still. -/
theorem stands_still_of_loop (hfront : TakesFront α) {fuel : Nat} {s : Bytes} {res : List α}
    (hfuel : s.length < fuel) (h : ¬ Ends (Proc.loop readElementOrEof fuel res) s) :
    StandsStill α s := by
  -- each iteration takes a byte, or is one that stands still
  induction fuel generalizing s res with
  | zero => omega
  | succ fuel ih =>
      rcases read_loop_cases fuel res s with ⟨a, rest, hread, hloop⟩ | ⟨_, _, _, hloop⟩ |
        ⟨_, _, _, _, hloop⟩ | ⟨_, _, _, hloop⟩ | ⟨rest, hread, _⟩
      · obtain ⟨segment, hs⟩ := hfront s a rest hread
        rw [Ends, hloop] at h
        by_cases hsegment : segment = []
        · obtain rfl : s = rest := by rw [hs, hsegment, List.nil_append]
          exact ⟨[], [], s, .nil s, .inl ⟨a, hread⟩⟩
        · have hpos := List.length_pos_iff.mpr hsegment
          have hlen : s.length = segment.length + rest.length := by rw [hs, List.length_append]
          have hfuel' : rest.length < fuel := by omega
          exact .cons hs hread (ih hfuel' h)
      · simp [Ends, hloop] at h
      · simp [Ends, hloop] at h
      · simp [Ends, hloop] at h
      · exact ⟨[], [], s, .nil s, .inr (by simp [Ends, hread])⟩

/-- The loop ends, with at most an iteration for each byte and one more, exactly when it does not
come to stand still. -/
theorem ends_within_iff (hfront : TakesFront α) (s : Bytes) :
    EndsWithin α (s.length + 1) s ↔ ¬ StandsStill α s := by
  constructor
  · exact fun h hstill => hstill.never_ends _ h
  · intro h
    by_contra hends
    exact h (stands_still_of_loop hfront (Nat.lt_succ_self s.length) hends)

/-- The bound on the iterations of the list reader cuts nothing off: where it does not come to an
end, no number of iterations is enough. -/
theorem never_ends_of_read (hfront : TakesFront α) {s : Bytes}
    (h : ¬ Ends (readFrom : Reader (BoxSlice α)) s) (n : Nat) : ¬ EndsWithin α n s := by
  rw [ends_read_box_slice_iff, ends_within_iff hfront, not_not] at h
  exact h.never_ends n

/-! ## Elements that go forward -/

/-- The loop stands still on no input exactly when the elements come to an end on every one and
none is read of the empty one. -/
theorem stands_still_nowhere_iff (hα : Reader.Forward (readFrom : Reader α)) :
    (∀ s, ¬ StandsStill α s) ↔ (∀ s, Ends (readFrom : Reader α) s) ∧ RejectsEmpty α := by
  constructor
  · intro h
    refine ⟨fun s => ?_, fun a rest hread => ?_⟩
    · by_contra hhang
      exact h s ⟨[], [], s, .nil s, .inr hhang⟩
    · obtain rfl := hα.rest_nil hread
      exact h [] ⟨[], [], [], .nil [], .inl ⟨a, hread⟩⟩
  · rintro ⟨hends, hempty⟩ s ⟨elems, segments, rest, -, ⟨a, hstuck⟩ | hhang⟩
    · by_cases hrest : rest = []
      · subst hrest
        exact hempty a [] hstuck
      · exact hempty a [] (hα.constant rest a hrest hstuck [])
    · exact hhang (hends rest)

/-- The loop leaves the back of its input, which is nothing when it succeeds, and never reports
the end of the input. -/
theorem loop_goes_forward (hα : Reader.Forward (readFrom : Reader α)) {fuel : Nat}
    {res : List α} {s t : Bytes} {o : Outcome (List α)}
    (h : (Proc.loop readElementOrEof fuel res).run s = (o, t)) :
    t <:+ s ∧ (∀ elems, o = .ok elems → t = []) ∧
      ∀ message, o ≠ .err ⟨.unexpectedEof, message⟩ := by
  induction fuel generalizing s res with
  | zero =>
      obtain ⟨rfl, rfl⟩ := Prod.mk.inj h
      simp
  | succ fuel ih =>
      have hs := hα.suffix s
      rcases read_loop_cases fuel res s with ⟨a, rest, hread, hloop⟩ |
        ⟨message, rest, hread, hloop⟩ | ⟨e, rest, hread, hkind, hloop⟩ | ⟨r, rest, hread, hloop⟩ |
        ⟨rest, hread, hloop⟩ <;>
        rw [hread] at hs <;> rw [hloop] at h
      · obtain ⟨hsuffix, hrest⟩ := ih h
        exact ⟨hsuffix.trans hs, hrest⟩
      · obtain ⟨rfl, rfl⟩ := Prod.mk.inj h
        exact ⟨hs, fun _ _ => hα.eof_at_end s message _ hread, by simp⟩
      · obtain ⟨rfl, rfl⟩ := Prod.mk.inj h
        refine ⟨hs, by simp, fun message heq => ?_⟩
        cases heq
        exact hkind rfl
      · obtain ⟨rfl, rfl⟩ := Prod.mk.inj h
        exact ⟨hs, by simp, by simp⟩
      · obtain ⟨rfl, rfl⟩ := Prod.mk.inj h
        exact ⟨hs, by simp, by simp⟩

/-- Lists of elements that go forward go forward. -/
theorem forward_box_slice (hα : Reader.Forward (readFrom : Reader α)) :
    Reader.Forward (readFrom : Reader (BoxSlice α)) := by
  have hloop (s t : Bytes) (o : Outcome (List α))
      (h : (Proc.loop readElementOrEof (s.length + 1) []).run s = (o, t)) :=
    loop_goes_forward hα h
  refine Reader.Forward.compositional.map ⟨fun s => ?_, fun s message rest h => ?_,
    fun s elems hs h => ?_⟩ _
  · exact (hloop s _ _ rfl).1
  · exact absurd rfl ((hloop s _ _ h).2.2 message)
  · exact absurd ((hloop s _ _ h).2.1 elems rfl) hs

end Bws.Protocol
