import Bws.Protocol.Delimited
import Bws.Protocol.Totality

/-!
# Unprefixed lists

A `Box<[T]>` has no length and no end marker: its reader stops where an element ends in
`UnexpectedEof`. So it reads back every list that was written in front of nothing else,
`list_round_trip`, but an input that ends in the middle of an element is a shorter list and not
an error: `nothing_dropped_iff`.
-/

namespace Bws.Protocol

open Bws.Base Bws.Base.Reader

variable {α : Type} [FromBytes α]

/-- A successful read takes its bytes off the front of the input. -/
def TakesFront (α : Type) [FromBytes α] : Prop :=
  ∀ s (a : α) rest, readFrom.run s = (.ok a, rest) → ∃ segment, s = segment ++ rest

/-- Successful reads one after the other: each takes an element off its segment of the input, and
`rest` is what is left. -/
inductive ReadsInto : Bytes → List α → List Bytes → Bytes → Prop where
  | nil (s : Bytes) : ReadsInto s [] [] s
  | cons {s segment middle rest : Bytes} {segments : List Bytes} {a : α} {as : List α} :
      s = segment ++ middle → readFrom.run s = (.ok a, middle) →
      ReadsInto middle as segments rest → ReadsInto s (a :: as) (segment :: segments) rest

/-- The input is exactly the segments that the elements are read from. -/
def NothingDropped (s : Bytes) (elems : List α) : Prop :=
  ∃ segments rest, ReadsInto s elems segments rest ∧ s = segments.flatten

/-- Behind some elements there are bytes left, but the input ends before the next element
does. -/
def EndsMidElement (α : Type) [FromBytes α] (s : Bytes) : Prop :=
  ∃ (elems : List α) (segments : List Bytes) (rest : Bytes),
    ReadsInto s elems segments rest ∧ rest ≠ [] ∧ EndsEarly (readFrom : Reader α) rest

namespace ReadsInto

variable {s rest : Bytes} {elems : List α} {segments : List Bytes}

/-- The segments and the rest make up the input. -/
theorem eq_append (h : ReadsInto s elems segments rest) : s = segments.flatten ++ rest := by
  induction h with
  | nil s => rfl
  | cons hs _ _ ih => rw [List.flatten_cons, List.append_assoc, ← ih, hs]

/-- What is left behind some elements is fixed by them. -/
theorem rest_unique (h : ReadsInto s elems segments rest) {segments' : List Bytes}
    {rest' : Bytes} (h' : ReadsInto s elems segments' rest') : rest = rest' := by
  induction h generalizing segments' with
  | nil s =>
      cases h'
      rfl
  | cons _ hread _ ih =>
      cases h' with
      | cons _ hread' htail' =>
          obtain ⟨-, rfl⟩ := Prod.mk.inj (hread.symm.trans hread')
          exact ih htail'

/-- What is left is dropped. -/
theorem not_nothing_dropped (h : ReadsInto s elems segments rest) (hne : rest ≠ []) :
    ¬ NothingDropped s elems := by
  rintro ⟨segments', rest', hreads, hs⟩
  obtain rfl := h.rest_unique hreads
  have hrest : segments'.flatten ++ rest = segments'.flatten := hreads.eq_append.symm.trans hs
  exact hne (List.append_right_eq_self.mp hrest)

/-- An element that takes no bytes is read for ever. -/
theorem rest_of_stuck (h : ReadsInto s elems segments rest) {a : α}
    (hstuck : readFrom.run s = (.ok a, s)) : rest = s := by
  induction h with
  | nil s => rfl
  | cons _ hread _ ih =>
      obtain ⟨-, rfl⟩ := Prod.mk.inj (hstuck.symm.trans hread)
      exact ih hstuck

/-- The loop of the list reader returns the elements when the next one ends early. -/
theorem loop_returns (h : ReadsInto s elems segments rest)
    (hend : EndsEarly (readFrom : Reader α) rest) {fuel : Nat} (hfuel : s.length < fuel)
    (res : List α) :
    ∃ t, (Proc.loop readElementOrEof fuel res).run s = (.ok (res ++ elems), t) := by
  induction h generalizing fuel res with
  | nil s =>
      obtain ⟨fuel, rfl⟩ : ∃ k, fuel = k + 1 := ⟨fuel - 1, by omega⟩
      obtain ⟨message, t, hend⟩ := hend
      refine ⟨t, ?_⟩
      rw [read_loop_of_eof fuel res hend, List.append_nil]
  | @cons s segment middle rest segments a as hs hread htail ih =>
      -- an element that took no bytes would not be followed by one that ends early
      have hsome : segment ≠ [] := by
        rintro rfl
        obtain rfl : s = middle := hs
        obtain rfl := htail.rest_of_stuck hread
        obtain ⟨message, t, hend⟩ := hend
        rw [hread] at hend
        cases hend
      have hlen : s.length = segment.length + middle.length := by rw [hs, List.length_append]
      have hpos := List.length_pos_iff.mpr hsome
      obtain ⟨fuel, rfl⟩ : ∃ k, fuel = k + 1 := ⟨fuel - 1, by omega⟩
      have hfuel' : middle.length < fuel := by omega
      obtain ⟨t, hloop⟩ := ih hend hfuel' (res ++ [a])
      refine ⟨t, ?_⟩
      rw [read_loop_of_ok fuel res hread, hloop, List.append_assoc]
      rfl

end ReadsInto

/-- What the loop of the list reader returns has been read from the front of the input, and the
next element has ended early. -/
theorem reads_into_of_loop (hfront : TakesFront α) {fuel : Nat} {res elems : List α}
    {s t : Bytes} (h : (Proc.loop readElementOrEof fuel res).run s = (.ok elems, t)) :
    ∃ (read : List α) (segments : List Bytes) (rest : Bytes), elems = res ++ read ∧
      ReadsInto s read segments rest ∧ EndsEarly (readFrom : Reader α) rest := by
  induction fuel generalizing s res with
  | zero => cases h
  | succ fuel ih =>
      rcases read_loop_cases fuel res s with ⟨a, middle, hread, hloop⟩ |
        ⟨message, middle, hread, hloop⟩ | ⟨_, _, _, _, hloop⟩ | ⟨_, _, _, hloop⟩ | ⟨_, _, hloop⟩ <;>
        rw [hloop] at h
      · obtain ⟨segment, hs⟩ := hfront s a middle hread
        obtain ⟨read, segments, rest, rfl, hreads, hend⟩ := ih h
        exact ⟨a :: read, segment :: segments, rest, by simp, .cons hs hread hreads, hend⟩
      · obtain ⟨rfl, -⟩ : res = elems ∧ middle = t := by simpa using h
        exact ⟨[], [], s, (List.append_nil res).symm, .nil s, message, middle, hread⟩
      · cases h
      · cases h
      · cases h

/-- `Box<[T]>::read_from` drops nothing of the inputs it succeeds on exactly when the input does
not end in the middle of an element. -/
theorem nothing_dropped_iff (hfront : TakesFront α) (s : Bytes) :
    (∀ (elems : List α) t, (readFrom : Reader (BoxSlice α)).run s = (.ok ⟨elems⟩, t) →
      NothingDropped s elems) ↔ ¬ EndsMidElement α s := by
  constructor
  · rintro h ⟨elems, segments, rest, hreads, hne, hend⟩
    obtain ⟨t, hloop⟩ := hreads.loop_returns hend (Nat.lt_succ_self s.length) []
    exact hreads.not_nothing_dropped hne (h elems t (Proc.map_of_ok hloop _))
  · intro hmid elems t h
    obtain ⟨read, hloop, hbox⟩ := Proc.map_ok_iff.mp h
    obtain rfl : read = elems := congrArg BoxSlice.elems hbox
    change (Proc.loop readElementOrEof (s.length + 1) []).run s = (.ok read, t) at hloop
    obtain ⟨read', segments, rest, rfl, hreads, hend⟩ := reads_into_of_loop hfront hloop
    by_cases hrest : rest = []
    · refine ⟨segments, rest, hreads, ?_⟩
      rw [hreads.eq_append, hrest, List.append_nil]
    · exact absurd ⟨_, segments, rest, hreads, hrest, hend⟩ hmid

/-- A self-delimiting reader takes its bytes off the front. -/
theorem takes_front_of_self_delimiting (h : SelfDelimiting (readFrom : Reader α)) :
    TakesFront α := by
  intro s a rest hread
  obtain ⟨used, hs, -⟩ := h s a rest hread
  exact ⟨used, hs⟩

/-- No input ends in the middle of a byte. -/
theorem not_ends_mid_byte (s : Bytes) : ¬ EndsMidElement UInt8 s := by
  rintro ⟨elems, segments, rest, -, hne, message, t, hread⟩
  obtain ⟨b, more, rfl⟩ := List.exists_cons_of_ne_nil hne
  rw [read_u8_cons] at hread
  cases hread

/-- Nothing of a list of bytes is dropped. -/
theorem nothing_dropped_bytes :
    ∃ t, (readFrom : Reader (BoxSlice UInt8)).run [5, 6, 7] = (.ok ⟨[5, 6, 7]⟩, t) ∧
      NothingDropped [5, 6, 7] ([5, 6, 7] : List UInt8) := by
  have hfront : TakesFront UInt8 := takes_front_of_self_delimiting primitive_self_delimiting
  have hrun : (readFrom : Reader (BoxSlice UInt8)).run [5, 6, 7] = (.ok ⟨[5, 6, 7]⟩, []) := by
    decide
  exact ⟨[], hrun, (nothing_dropped_iff hfront [5, 6, 7]).mpr (not_ends_mid_byte _) _ _ hrun⟩

/-- Three bytes are read as a list of one 16-bit number, and the third byte is dropped. -/
theorem third_byte_dropped :
    (readFrom : Reader (BoxSlice UInt16)).run [0, 1, 2] = (.ok ⟨[1]⟩, []) ∧
      ¬ NothingDropped [0, 1, 2] ([1] : List UInt16) := by
  have hreads : ReadsInto [0, 1, 2] ([1] : List UInt16) [[0, 1]] [2] :=
    .cons rfl (by decide) (.nil [2])
  exact ⟨by decide, hreads.not_nothing_dropped (List.cons_ne_nil 2 [])⟩

/-! ## Round trips -/

/-- A list of elements whose encodings are not empty, are read back in front of everything and
end early on an empty input is read back from exactly its own bytes. -/
theorem list_round_trip [ToBytes α] (hsome : WritesSome α) (hundoes : RoundTripsAlways α)
    (heof : EofOnEmpty α) (elems : List α) {buf out : Bytes} {n : Nat}
    (hwrite : (writeTo (⟨elems⟩ : BoxSlice α)).run buf = (.ok n, out)) :
    ∃ bytes, out = buf ++ bytes ∧
      (readFrom : Reader (BoxSlice α)).run bytes = (.ok ⟨elems⟩, []) := by
  obtain ⟨bytes, hout, hread⟩ := box_slice_round_trips hundoes hsome heof ⟨elems⟩ buf n out hwrite
  refine ⟨bytes, hout, ?_⟩
  have hempty := hread [] rfl
  rwa [List.append_nil] at hempty

/-- A list of two 16-bit numbers is read back. -/
theorem list_round_trip_u16 :
    ∃ bytes, [0, 1, 2, 3] = [] ++ bytes ∧
      (readFrom : Reader (BoxSlice UInt16)).run bytes = (.ok ⟨[1, 515]⟩, []) := by
  have hwrite : (writeTo (⟨[1, 515]⟩ : BoxSlice UInt16)).run ([] : Bytes) =
      (.ok 4, [0, 1, 2, 3]) := by decide
  exact list_round_trip (primitive_writes_some (by decide)) primitive_round_trips ⟨_, rfl⟩
    [1, 515] hwrite

end Bws.Protocol
