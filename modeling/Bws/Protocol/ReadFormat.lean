import Bws.Protocol.DeriveLaws
import Bws.Protocol.Packets
import Bws.Protocol.Stopping
import Bws.Protocol.Varints

/-!
# The types that can be read

`ReadFormat` generates the types with a reader, from the language's own types to the derived
definitions. All their readers go forward, and so `list_reader_stops_iff` says of each of them on
which inputs a list of it is read to an end. There are elements that take no bytes, such as a unit
struct, or a list, of which all but the first are empty: no list of these is ever read.
-/

namespace Bws.Protocol

open Bws.Base Bws.Base.Proc

/-- What is documented of how the JSON library reads. `from_reader` takes one byte after the
other, and reports the end of the input where it needs one more; it comes to an end on every
input, and succeeds on one text, which is not empty and is all of the input. -/
structure SerdeJson.Streams (J : Type) [SerdeJson J] : Prop where
  ends : ∀ s, Ends (SerdeJson.fromReader : Reader J) s
  suffix : ∀ s, ((SerdeJson.fromReader : Reader J).run s).2 <:+ s
  eof_at_end : ∀ s message rest,
    (SerdeJson.fromReader : Reader J).run s = (.err ⟨.unexpectedEof, message⟩, rest) → rest = []
  takes_text : ∀ s (v : J) rest, SerdeJson.fromReader.run s = (.ok v, rest) → s ≠ [] ∧ rest = []

/-- The types that can be read, each with its reader, where the elements of an unprefixed list
are `allowed`. -/
inductive ReadFormat (allowed : (α : Type) → FromBytes α → Prop) :
    (α : Type) → FromBytes α → Prop where
  | primitive {α : Type} (i : Primitive α) : ReadFormat allowed α inferInstance
  | bool : ReadFormat allowed Bool inferInstance
  | uuid : ReadFormat allowed Uuid inferInstance
  | varint : ReadFormat allowed VarInt inferInstance
  | varlong : ReadFormat allowed VarLong inferInstance
  | string : ReadFormat allowed String inferInstance
  | json {J : Type} (i : SerdeJson J) :
      SerdeJson.Streams J → ReadFormat allowed (JsonValue J) inferInstance
  | option {α : Type} {i : FromBytes α} :
      ReadFormat allowed α i → ReadFormat allowed (Option α) (@instFromBytesOption α i)
  | box {α : Type} {i : FromBytes α} :
      ReadFormat allowed α i → ReadFormat allowed (Box α) (@instFromBytesBox α i)
  | vec {α : Type} {i : FromBytes α} {l : Layout α} :
      ReadFormat allowed α i → ReadFormat allowed (Vec α) (@instFromBytesVecOfLayout α i l)
  | boxSlice {α : Type} {i : FromBytes α} :
      ReadFormat allowed α i → allowed α i →
        ReadFormat allowed (BoxSlice α) (@instFromBytesBoxSlice α i)
  | derived {α D : Type} {d : Derive α} {i : FromBytes D} {c : IntoI32 D}
      (h : (Derive.data α).expandFromBytes = some Derive.arms) :
      ReadFormat allowed D i →
        (∀ f ∈ (Derive.data α).fields, ReadFormat allowed f.ty f.fromBytes) →
          ReadFormat allowed α (derivedFromBytes D h)

namespace ReadFormat

variable {allowed : (α : Type) → FromBytes α → Prop} {α : Type} {i : FromBytes α}

/-- A law of composed readers holds of every type that can be read when it holds of the numbers of
variable length and of JSON values, and passes from elements to lists. -/
theorem law {P : ∀ {γ : Type}, Reader γ → Prop} (hP : Reader.Compositional P)
    (hvarint : P (readFrom : Reader VarInt)) (hvarlong : P (readFrom : Reader VarLong))
    (hjson : ∀ {J : Type} [SerdeJson J], SerdeJson.Streams J →
      P (SerdeJson.fromReader : Reader J))
    (hlist : ∀ {γ : Type} [j : FromBytes γ], ReadFormat allowed γ j → allowed γ j →
      P (readFrom : Reader γ) → P (readFrom : Reader (BoxSlice γ)))
    (h : ReadFormat allowed α i) : P i.readFrom := by
  induction h with
  | primitive i => exact primitive_composed hP
  | bool => exact bool_composed hP
  | uuid => exact uuid_composed hP
  | varint => exact hvarint
  | varlong => exact hvarlong
  | string => exact string_composed hP hvarint
  | json i hi => exact hP.bind (hjson hi) fun _ => hP.pure _
  | option _ ih => exact option_composed hP ih
  | box _ ih => exact hP.bind ih fun _ => hP.pure _
  | vec _ ih => exact vec_composed hP hvarint ih
  | boxSlice h hallowed ih => exact hlist h hallowed ih
  | derived h _ _ ihD ih => exact derived_composed hP h ihD ih

/-- All readers go forward. -/
theorem forward (h : ReadFormat allowed α i) : Reader.Forward i.readFrom := by
  have hP := Reader.Forward.compositional
  refine h.law hP (varint_composed hP .diverge) (varlong_composed hP .diverge) (fun hi => ?_)
    fun _ _ => forward_box_slice
  refine ⟨hi.suffix, hi.eof_at_end, fun s v hs hread => ?_⟩
  exact absurd (hi.takes_text s v s hread).2 hs

/-- A reader takes its bytes off the front. -/
theorem takes_front (h : ReadFormat allowed α i) : TakesFront α :=
  fun _ _ _ => h.forward.takes_front

/-- When no element of a list is read of an empty input, all readers come to an end. -/
theorem ends (hallowed : ∀ γ j, allowed γ j → @RejectsEmpty γ j) (h : ReadFormat allowed α i)
    (s : Bytes) : Ends i.readFrom s := by
  refine h.law Reader.ends_compositional (fun s => (returns_read_varint s).ends)
    ends_read_varlong (fun hi => hi.ends) (fun {γ} j hγ hj hends s => ?_) s
  have hnowhere := (stands_still_nowhere_iff hγ.forward).mpr ⟨hends, hallowed γ j hj⟩
  exact ends_read_box_slice_iff.mpr ((ends_within_iff hγ.takes_front s).mpr (hnowhere s))

end ReadFormat

/-! ## Lists -/

/-- The types that can be read, with lists of all of them. -/
abbrev Readable (α : Type) (i : FromBytes α) : Prop := ReadFormat (fun _ _ => True) α i

/-- Whatever can be read, a list of it is read to an end, with at most an iteration for each byte
of the input and one more, exactly when the loop does not come to a place where an element takes
no bytes or has no end. There is no input with such a place exactly when the elements come to an
end on every input and none is read of the empty one. -/
theorem list_reader_stops_iff {α : Type} {i : FromBytes α} (h : Readable α i) :
    (∀ s, EndsWithin α (s.length + 1) s ↔ ¬ StandsStill α s) ∧
      ((∀ s, ¬ StandsStill α s) ↔ (∀ s, Ends i.readFrom s) ∧ RejectsEmpty α) :=
  ⟨ends_within_iff h.takes_front, stands_still_nowhere_iff h.forward⟩

/-- A list of options is read to an end. -/
theorem list_reader_stops_options :
    EndsWithin (Option UInt8) (List.length ([1, 7, 0] : Bytes) + 1) [1, 7, 0] := by
  have hformat : Readable (Option UInt8) inferInstance := .option (.primitive inferInstance)
  have hempty : RejectsEmpty (Option UInt8) := by
    intro a rest h
    have hrun : (readFrom : Reader (Option UInt8)).run [] = (.err Reader.eof, []) := by decide
    rw [hrun] at h
    cases h
  obtain ⟨hstops, hnowhere⟩ := list_reader_stops_iff hformat
  exact (hstops _).mpr (hnowhere.mpr
    ⟨fun s => (returns_read_option returns_read_primitive s).ends, hempty⟩ _)

/-- A list of unit structs, and one of lists, is not read to an end in any number of
iterations. -/
theorem empty_elements_never_stop :
    (Readable NoTag inferInstance ∧ ∀ n, ¬ EndsWithin NoTag n []) ∧
      Readable (BoxSlice UInt8) inferInstance ∧ ∀ n, ¬ EndsWithin (BoxSlice UInt8) n [7] := by
  have hunit : (readFrom : Reader NoTag).run [] = (.ok {}, []) := rfl
  have hbyte : (readFrom : Reader (BoxSlice UInt8)).run [7] = (.ok ⟨[7]⟩, []) := by decide
  have hempty : (readFrom : Reader (BoxSlice UInt8)).run [] = (.ok ⟨[]⟩, []) := by decide
  refine ⟨⟨.derived rfl .varint fun f hf => ?_, fun n => ?_⟩,
    .boxSlice (.primitive inferInstance) trivial, fun n => ?_⟩
  · cases hf
  · exact loop_stuck hunit n []
  · have hreads : ReadsInto [7] [(⟨[7]⟩ : BoxSlice UInt8)] [[7]] [] :=
      .cons rfl hbyte (.nil [])
    exact hreads.never_ends (loop_stuck hempty) n []

/-- When no list in a type is of elements that are read of an empty input, lists of the type are
always read to an end exactly when it is not read of an empty input either. -/
theorem list_reader_always_stops_iff {α : Type} {i : FromBytes α}
    (h : ReadFormat (fun γ _ => RejectsEmpty γ) α i) :
    (∀ s, EndsWithin α (s.length + 1) s) ↔ RejectsEmpty α := by
  have hends := h.ends fun _ _ hγ => hγ
  have hnowhere := stands_still_nowhere_iff h.forward
  rw [and_iff_right hends] at hnowhere
  rw [← hnowhere]
  exact forall_congr' (ends_within_iff h.takes_front)

end Bws.Protocol
