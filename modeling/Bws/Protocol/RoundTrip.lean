import Bws.Protocol.Impls

/-!
# Reading undoes writing

The round trips of the codecs of the language's own types. A codec that closes over another
one round-trips in front of the tails the other one does, so that a list without a length or
an end marker may stand in last position.
-/

namespace Bws.Protocol

open Bws.Base

variable {α : Type}

/-- The bytes of a fixed-width number. -/
theorem write_primitive_run [Primitive α] (a : α) (buf : Bytes) :
    (writeTo a).run buf = (.ok (Primitive.size α),
      buf ++ BigEndian.bytes (Primitive.size α) (Primitive.toNat a)) := by
  change (do Write.writeAll _; pure _ : Proc Bytes Nat).run buf = _
  rw [Proc.bind_of_ok (write_all_bytes _ buf)]
  simp

/-- Fixed-width numbers round-trip. -/
theorem primitive_round_trips [Primitive α] : RoundTripsAlways α := by
  intro a buf n out h
  rw [write_primitive_run] at h
  obtain ⟨-, rfl⟩ := Prod.mk.inj h
  refine ⟨_, rfl, fun rest _ => ?_⟩
  have hread := Reader.read_exact_append
    (BigEndian.bytes (Primitive.size α) (Primitive.toNat a)) rest
  rw [BigEndian.length_bytes] at hread
  change (do let buf ← _; pure _ : Reader α).run _ = _
  rw [Proc.bind_of_ok hread, BigEndian.value_bytes (Primitive.toNat_lt a),
    Primitive.ofNat_toNat]
  rfl

/-- Booleans round-trip. -/
theorem bool_round_trips : RoundTripsAlways Bool := by
  intro b buf n out h
  have hwrite : (writeTo b).run buf = (.ok 1, buf ++ [if b then 0x01 else 0x00]) :=
    Proc.bind_of_ok (write_all_bytes _ buf) _
  rw [hwrite] at h
  obtain ⟨-, rfl⟩ := Prod.mk.inj h
  refine ⟨_, rfl, fun rest _ => ?_⟩
  cases b <;> rfl

/-- Uuids round-trip. -/
theorem uuid_round_trips : RoundTripsAlways Uuid := by
  intro uuid buf n out h
  obtain ⟨bytes, hout, hread⟩ := primitive_round_trips uuid.val buf n out h
  exact ⟨bytes, hout, fun rest hrest => Proc.bind_of_ok (hread rest hrest) _⟩

/-- Options round-trip in front of the tails their content does. -/
theorem option_round_trips [ToBytes α] [FromBytes α] {tail : Bytes → Prop}
    (h : RoundTrips tail α) : RoundTrips tail (Option α) := by
  rintro (_ | inner) buf n out hwrite
  · obtain ⟨bytes, hout, hread⟩ := bool_round_trips false buf n out hwrite
    exact ⟨bytes, hout, fun rest _ => Proc.bind_of_ok (hread rest trivial) _⟩
  · obtain ⟨tag, middle, htag, hrest⟩ := Proc.bind_ok_iff.mp hwrite
    obtain ⟨written, _, hinner, hend⟩ := Proc.bind_ok_iff.mp hrest
    obtain ⟨-, rfl⟩ := Prod.mk.inj hend
    obtain ⟨first, rfl, hreadTag⟩ := bool_round_trips true buf tag middle htag
    obtain ⟨second, rfl, hreadInner⟩ := h inner _ written _ hinner
    refine ⟨first ++ second, List.append_assoc .., fun rest hrest => ?_⟩
    rw [List.append_assoc]
    refine (Proc.bind_of_ok (hreadTag _ trivial) _).trans ?_
    exact Proc.bind_of_ok (hreadInner rest hrest) _

/-- The length a string or a list is written with. -/
def lengthPrefix (n : Nat) : VarInt := ⟨Int32.ofNat n⟩

/-- What a string that fits is written as. -/
theorem write_string_run {s : String} (h : s.utf8ByteSize ≤ i32Max) (buf : Bytes) :
    (writeTo s).run buf =
      (.ok ((lengthPrefix s.utf8ByteSize).bytes.length + s.utf8ByteSize),
        buf ++ ((lengthPrefix s.utf8ByteSize).bytes ++ asBytes s)) := by
  change (ite _ _ _ : Proc Bytes Nat).run buf = _
  rw [if_neg (Nat.not_lt_of_le h), Proc.bind_of_ok (write_varint_run _ buf),
    Proc.bind_of_ok (write_all_bytes _ _), List.append_assoc]
  rfl

/-- A longer string is refused and nothing is written. -/
theorem write_string_too_long {s : String} (h : i32Max < s.utf8ByteSize) (buf : Bytes) :
    (writeTo s).run buf = (.err ⟨.invalidData, "String is too long"⟩, buf) := by
  change (ite _ _ _ : Proc Bytes Nat).run buf = _
  rw [if_pos h, Proc.run_fail]

/-- A length with as many bytes of UTF-8 behind it reads as their string. -/
theorem read_string_of_prefix {n : Int32} {input bytes rest : Bytes} {s : String}
    (hpre : StartsWithVarInt input n (bytes ++ rest)) (hlen : asUsize n = bytes.length)
    (hfit : bytes.length ≤ isizeMax) (hutf : fromUtf8 bytes = some s) :
    (readFrom : Reader String).run input = (.ok s, rest) := by
  have hread := Reader.read_exact_append bytes rest
  change (do let length ← _; _ : Reader String).run input = _
  rw [Proc.bind_of_ok (read_varint_of_starts hpre), hlen,
    allocate_of_le (by omega), pure_bind, Proc.bind_of_ok hread, hutf]
  rfl

/-- Strings round-trip. -/
theorem string_round_trips : RoundTripsAlways String := by
  intro s buf n out hwrite
  by_cases hlong : i32Max < s.utf8ByteSize
  · rw [write_string_too_long hlong] at hwrite
    cases hwrite
  · have hle : s.utf8ByteSize ≤ i32Max := Nat.le_of_not_lt hlong
    rw [write_string_run hle] at hwrite
    obtain ⟨-, rfl⟩ := Prod.mk.inj hwrite
    refine ⟨_, rfl, fun rest _ => ?_⟩
    rw [List.append_assoc]
    have hfit : (asBytes s).length ≤ isizeMax := by
      rw [length_as_bytes]
      exact hle.trans (by decide)
    exact read_string_of_prefix (starts_with_bytes _ _) (length_casts hle).2 hfit
      (from_utf8_eq_some_iff.mpr rfl)

/-! ## Lists -/

variable [ToBytes α] [FromBytes α]

/-- As many reads as there were elements take the elements back. -/
theorem elements_round_trip (h : RoundTripsAlways α) (es : List α) {written n : Nat}
    {buf out : Bytes} (hwrite : (writeElements es written).run buf = (.ok n, out)) :
    ∃ bytes, out = buf ++ bytes ∧
      ∀ rest, (readElements es.length).run (bytes ++ rest) = (.ok es, rest) := by
  induction es generalizing written buf with
  | nil =>
      obtain ⟨-, rfl⟩ := Prod.mk.inj hwrite
      exact ⟨[], (List.append_nil buf).symm, fun rest => rfl⟩
  | cons e es ih =>
      obtain ⟨k, middle, hhead, htail⟩ := Proc.bind_ok_iff.mp hwrite
      obtain ⟨first, rfl, hreadHead⟩ := h e buf k middle hhead
      obtain ⟨second, rfl, hreadTail⟩ := ih htail
      refine ⟨first ++ second, List.append_assoc .., fun rest => ?_⟩
      rw [List.append_assoc, List.length_cons, readElements,
        Proc.bind_of_ok (hreadHead _ trivial), Proc.bind_of_ok (hreadTail rest)]
      rfl

/-- Vectors of elements that are at most 4 GiB in memory round-trip. -/
theorem vec_round_trips [Layout α] (h : RoundTripsAlways α) (hsize : Layout.sizeOf α ≤ 2 ^ 32) :
    RoundTripsAlways (Vec α) := by
  rintro ⟨elems⟩ buf n out hwrite
  change (ite _ _ _ : Proc Bytes Nat).run buf = _ at hwrite
  by_cases hlong : elems.length > i32Max
  · rw [if_pos hlong] at hwrite
    cases hwrite
  · have hle : elems.length ≤ i32Max := Nat.le_of_not_lt hlong
    obtain ⟨hint, husize⟩ := length_casts hle
    rw [if_neg hlong, Proc.bind_of_ok (write_varint_run _ buf)] at hwrite
    obtain ⟨bytes, rfl, hread⟩ := elements_round_trip h elems hwrite
    refine ⟨(lengthPrefix elems.length).bytes ++ bytes, List.append_assoc .., fun rest _ => ?_⟩
    have hfit : Layout.sizeOf α * elems.length ≤ isizeMax :=
      (Nat.mul_le_mul hsize hle).trans (by decide)
    rw [List.append_assoc]
    change (do let length ← _; _ : Reader (Vec α)).run _ = _
    rw [Proc.bind_of_ok (read_varint_of_starts (starts_with_bytes _ _)), lengthPrefix, husize,
      allocate_of_le hfit, pure_bind, hint, Int.toNat_natCast, Proc.bind_of_ok (hread rest)]
    rfl

/-! ## The loop of the list reader -/

section Loop

variable {s rest : Bytes} (fuel : Nat) (res : List α)

omit [ToBytes α]

/-- An iteration that reads an element goes on behind it. -/
theorem read_loop_of_ok {e : α} (h : readFrom.run s = (.ok e, rest)) :
    (Proc.loop readElementOrEof (fuel + 1) res).run s =
      (Proc.loop readElementOrEof fuel (res ++ [e])).run rest := by
  have hbody : (readElementOrEof res).run s = (.ok (.inl (res ++ [e])), rest) := by
    rw [readElementOrEof, Proc.bind_of_ok (Proc.attempt_of_ok h)]
    rfl
  rw [Proc.loop_succ, Proc.bind_of_ok hbody]

/-- The iteration that finds the end of the input returns the list. -/
theorem read_loop_of_eof {message : String}
    (h : (readFrom : Reader α).run s = (.err ⟨.unexpectedEof, message⟩, rest)) :
    (Proc.loop readElementOrEof (fuel + 1) res).run s = (.ok res, rest) := by
  have hbody : (readElementOrEof res).run s = (.ok (.inr res), rest) := by
    rw [readElementOrEof, Proc.bind_of_ok (Proc.attempt_of_err h)]
    rfl
  rw [Proc.loop_succ, Proc.bind_of_ok hbody]
  rfl

/-- The iteration that finds any other error returns it. -/
theorem read_loop_of_err {e : Error} (h : (readFrom : Reader α).run s = (.err e, rest))
    (hkind : e.kind ≠ .unexpectedEof) :
    (Proc.loop readElementOrEof (fuel + 1) res).run s = (.err e, rest) := by
  have hbody : (readElementOrEof res).run s = (.err e, rest) := by
    rw [readElementOrEof, Proc.bind_of_ok (Proc.attempt_of_err h)]
    change (ite _ _ _ : Reader (List α ⊕ List α)).run rest = _
    rw [if_neg hkind, Proc.run_fail]
  rw [Proc.loop_succ, Proc.bind_of_err hbody]

/-- A panic of an element is one of the loop. -/
theorem read_loop_of_panic {r : Panic} (h : (readFrom : Reader α).run s = (.panic r, rest)) :
    (Proc.loop readElementOrEof (fuel + 1) res).run s = (.panic r, rest) := by
  have hattempt : (Proc.attempt (readFrom : Reader α)).run s = (.panic r, rest) := by
    simp only [Proc.attempt, h]
  rw [Proc.loop_succ, readElementOrEof, Proc.bind_of_panic (Proc.bind_of_panic hattempt _)]

/-- The iteration whose element has no end has none. -/
theorem read_loop_of_diverge (h : (readFrom : Reader α).run s = (.diverge, rest)) :
    (Proc.loop readElementOrEof (fuel + 1) res).run s = (.diverge, rest) := by
  have hattempt : (Proc.attempt (readFrom : Reader α)).run s = (.diverge, rest) := by
    simp only [Proc.attempt, h]
  rw [Proc.loop_succ, readElementOrEof, Proc.bind_of_diverge (Proc.bind_of_diverge hattempt _)]

/-- What an iteration does, by what the element does. -/
theorem read_loop_cases (s : Bytes) :
    (∃ (a : α) (rest : Bytes), readFrom.run s = (.ok a, rest) ∧
        (Proc.loop readElementOrEof (fuel + 1) res).run s =
          (Proc.loop readElementOrEof fuel (res ++ [a])).run rest) ∨
      (∃ message rest, (readFrom : Reader α).run s = (.err ⟨.unexpectedEof, message⟩, rest) ∧
        (Proc.loop readElementOrEof (fuel + 1) res).run s = (.ok res, rest)) ∨
      (∃ e rest, (readFrom : Reader α).run s = (.err e, rest) ∧ e.kind ≠ .unexpectedEof ∧
        (Proc.loop readElementOrEof (fuel + 1) res).run s = (.err e, rest)) ∨
      (∃ r rest, (readFrom : Reader α).run s = (.panic r, rest) ∧
        (Proc.loop readElementOrEof (fuel + 1) res).run s = (.panic r, rest)) ∨
      ∃ rest, (readFrom : Reader α).run s = (.diverge, rest) ∧
        (Proc.loop readElementOrEof (fuel + 1) res).run s = (.diverge, rest) := by
  rcases hread : (readFrom : Reader α).run s with ⟨a | ⟨kind, message⟩ | r | _, rest⟩
  · exact .inl ⟨a, rest, rfl, read_loop_of_ok fuel res hread⟩
  · by_cases hkind : kind = .unexpectedEof
    · subst hkind
      exact .inr (.inl ⟨message, rest, rfl, read_loop_of_eof fuel res hread⟩)
    · exact .inr (.inr (.inl ⟨_, rest, rfl, hkind, read_loop_of_err fuel res hread hkind⟩))
  · exact .inr (.inr (.inr (.inl ⟨r, rest, rfl, read_loop_of_panic fuel res hread⟩)))
  · exact .inr (.inr (.inr (.inr ⟨rest, rfl, read_loop_of_diverge fuel res hread⟩)))

end Loop

/-! ## Lists without a length -/

/-- An element's reader reports the end of an empty input. -/
def EofOnEmpty (α : Type) [FromBytes α] : Prop :=
  ∃ message, (readFrom : Reader α).run [] = (.err ⟨.unexpectedEof, message⟩, [])

/-- A successful write of an element appends at least one byte. -/
def WritesSome (α : Type) [ToBytes α] : Prop :=
  ∀ (a : α) (buf : Bytes) n out, (writeTo a).run buf = (.ok n, out) → buf.length < out.length

/-- The loop of the list reader takes the written elements back, one iteration for each and one
for the end, and there are at least as many bytes as elements. -/
theorem read_loop_round_trip (h : RoundTripsAlways α) (hsome : WritesSome α)
    (heof : EofOnEmpty α) (es : List α) {written n : Nat} {buf out : Bytes}
    (hwrite : (writeElements es written).run buf = (.ok n, out)) :
    ∃ bytes, out = buf ++ bytes ∧ es.length ≤ bytes.length ∧
      ∀ fuel res, es.length < fuel →
        (Proc.loop readElementOrEof fuel res).run bytes = (.ok (res ++ es), []) := by
  -- each element takes one iteration, and the end of the input takes the last one
  induction es generalizing written buf with
  | nil =>
      obtain ⟨-, rfl⟩ := Prod.mk.inj hwrite
      refine ⟨[], (List.append_nil buf).symm, Nat.le_refl 0, fun fuel res hfuel => ?_⟩
      obtain ⟨fuel, rfl⟩ : ∃ k, fuel = k + 1 := ⟨fuel - 1, by omega⟩
      obtain ⟨message, hend⟩ := heof
      rw [read_loop_of_eof fuel res hend, List.append_nil]
  | cons e es ih =>
      obtain ⟨k, middle, hhead, htail⟩ := Proc.bind_ok_iff.mp hwrite
      have hgrows := hsome e buf k middle hhead
      obtain ⟨first, rfl, hreadHead⟩ := h e buf k middle hhead
      obtain ⟨second, rfl, hlen, hreadTail⟩ := ih htail
      refine ⟨first ++ second, List.append_assoc .., ?_, fun fuel res hfuel => ?_⟩
      · simp only [List.length_append, List.length_cons] at hgrows ⊢
        omega
      · rw [List.length_cons] at hfuel
        obtain ⟨fuel, rfl⟩ : ∃ k, fuel = k + 1 := ⟨fuel - 1, by omega⟩
        rw [read_loop_of_ok fuel res (hreadHead second trivial), hreadTail fuel _ (by omega),
          List.append_assoc]
        rfl

/-- Boxed slices round-trip at the end of the input. -/
theorem box_slice_round_trips (h : RoundTripsAlways α) (hsome : WritesSome α)
    (heof : EofOnEmpty α) : RoundTripsLast (BoxSlice α) := by
  rintro ⟨elems⟩ buf n out hwrite
  obtain ⟨bytes, rfl, hlen, hread⟩ := read_loop_round_trip h hsome heof elems hwrite
  refine ⟨bytes, rfl, ?_⟩
  rintro rest rfl
  rw [List.append_nil]
  exact Proc.map_of_ok (hread (bytes.length + 1) [] (by omega)) _

/-- Fixed-width numbers of at least one byte write at least one byte. -/
theorem primitive_writes_some {β : Type} [Primitive β] (h : 0 < Primitive.size β) :
    WritesSome β := by
  intro a buf n out hwrite
  rw [write_primitive_run] at hwrite
  obtain ⟨-, rfl⟩ := Prod.mk.inj hwrite
  simpa using h

/-- Boxed slices of bytes round-trip at the end of the input. -/
theorem byte_slice_round_trips : RoundTripsLast (BoxSlice UInt8) :=
  box_slice_round_trips primitive_round_trips (primitive_writes_some (by decide))
    ⟨_, rfl⟩

end Bws.Protocol
