import Bws.Protocol.Delimited
import Bws.Protocol.Numbering
import Bws.Protocol.Totality
import Mathlib.Tactic.FinCases

/-!
# Laws of the derived codecs

When the numbers of the variants are distinct, as they are when they agree with the compiler's
discriminants, a derived reader undoes its writer (`derive_undoes_at`) and rejects every other
number. `derived_codecs_inverse` puts the two
macros together. Every law of composed readers passes from the fields to the derived reader:
`derived_composed`.
-/

namespace Bws.Protocol

open Bws.Base

/-! ## Round trips -/

/-- The fields round-trip: in front of everything, and the last one in front of the tails that
meet `tail`. -/
def FieldsRoundTrip (tail : Bytes → Prop) : List Field → Prop
  | [] => True
  | [f] => @RoundTrips tail f.ty f.toBytes f.fromBytes
  | f :: g :: fs => @RoundTripsAlways f.ty f.toBytes f.fromBytes ∧ FieldsRoundTrip tail (g :: fs)

/-- Fields in sequence round-trip. -/
theorem fields_round_trip {tail : Bytes → Prop} {fs : List Field}
    (h : FieldsRoundTrip tail fs) (x : FieldVals fs) (written : Nat) :
    Reader.UndoesAt tail (writeFields fs x written) (readFields fs) x := by
  induction fs generalizing written with
  | nil =>
      intro buf n out hwrite
      obtain ⟨-, rfl⟩ := Prod.mk.inj hwrite
      exact ⟨[], (List.append_nil buf).symm, fun rest _ => rfl⟩
  | cons f fs ih =>
      obtain ⟨y, ys⟩ := x
      intro buf n out hwrite
      obtain ⟨k, middle, hhead, htail⟩ := Proc.bind_ok_iff.mp hwrite
      cases fs with
      | nil =>
          obtain ⟨bytes, rfl, hread⟩ := h y buf k middle hhead
          obtain ⟨-, rfl⟩ := Prod.mk.inj htail
          exact ⟨bytes, rfl, fun rest hrest => Proc.bind_of_ok (hread rest hrest) _⟩
      | cons g gs =>
          obtain ⟨first, rfl, hreadHead⟩ := h.1 y buf k middle hhead
          obtain ⟨second, rfl, hreadTail⟩ := ih h.2 ys _ _ _ _ htail
          refine ⟨first ++ second, List.append_assoc .., fun rest hrest => ?_⟩
          rw [List.append_assoc, readFields, Proc.bind_of_ok (hreadHead _ trivial),
            Proc.bind_of_ok (hreadTail rest hrest)]
          rfl

/-- What an enum's writer does: it writes one of the numbers and then bytes that the arm of
this number takes back, when no other arm has it. -/
theorem variant_round_trip {D : Type} [ToBytes D] [FromI32 D] {tail : Bytes → Prop}
    {vs : List Variant} {arms : Arms vs} (hnodup : (Arms.tags vs arms).Nodup) {x : EnumVal vs}
    (h : FieldsRoundTrip tail (EnumVal.fields vs x)) {n : Nat} {buf out : Bytes}
    (hwrite : (writeVariant D vs arms x).run buf = (.ok n, out)) :
    ∃ tag ∈ Arms.tags vs arms, ∃ k middle bytes,
      (writeTo (FromI32.fromI32 tag : D)).run buf = (.ok k, middle) ∧ out = middle ++ bytes ∧
      ∀ rest, tail rest → (readVariant vs arms tag).run (bytes ++ rest) = (.ok x, rest) := by
  induction vs with
  | nil => exact x.elim
  | cons v vs ih =>
      obtain ⟨tag, arms⟩ := arms
      obtain ⟨hfresh, hrest⟩ := List.nodup_cons.mp hnodup
      rcases x with x | x
      · obtain ⟨k, middle, hhead, hfields⟩ := Proc.bind_ok_iff.mp hwrite
        obtain ⟨bytes, rfl, hread⟩ := fields_round_trip h x k middle n out hfields
        refine ⟨tag, by simp [Arms.tags], k, middle, bytes, hhead, rfl, fun rest hrest => ?_⟩
        rw [readVariant, if_pos rfl]
        exact Proc.map_of_ok (hread rest hrest) _
      · -- the number of a later arm is not the one of this arm, which the reader tries first
        obtain ⟨tag', hmem, k, middle, bytes, hhead, rfl, hread⟩ := ih hrest h hwrite
        have hne : tag' ≠ tag := by
          rintro rfl
          exact hfresh hmem
        refine ⟨tag', by simp [Arms.tags, hmem], k, middle, bytes, hhead, rfl,
          fun rest hrest => ?_⟩
        rw [readVariant, if_neg hne]
        exact Proc.map_of_ok (hread rest hrest) _

/-- A derived reader undoes its writer at a value whose fields round-trip, when the numbers
are distinct and the discriminant's codec keeps every number. -/
theorem derive_undoes_at (D : Type) [ToBytes D] [FromBytes D] [FromI32 D] [IntoI32 D]
    (hD : RoundTripsAlways D) (hinto : ∀ n, IntoI32.intoI32 (FromI32.fromI32 n : D) = n)
    {tail : Bytes → Prop} {d : Data} {arms : d.Arms} (hnodup : (d.tags arms).Nodup) {x : d.Val}
    (hfields : FieldsRoundTrip tail (Data.Val.fields d x)) :
    Reader.UndoesAt tail (deriveToBytes D d arms x) (deriveFromBytes D d arms) x := by
  cases d with
  | struct fields => exact fields_round_trip hfields x 0
  | union => exact x.elim
  | enum vs =>
      intro buf n out hwrite
      obtain ⟨tag, -, k, middle, bytes, hhead, rfl, hread⟩ :=
        variant_round_trip hnodup hfields hwrite
      obtain ⟨first, rfl, hreadTag⟩ := hD _ buf k middle hhead
      refine ⟨first ++ bytes, List.append_assoc .., fun rest hrest => ?_⟩
      rw [List.append_assoc, deriveFromBytes, Proc.bind_of_ok (hreadTag _ trivial), hinto]
      exact hread rest hrest

/-- A number that no arm has is rejected, with nothing more read. -/
theorem read_variant_unknown {vs : List Variant} {arms : Arms vs} {tag : Int32}
    (h : tag ∉ Arms.tags vs arms) (s : Bytes) :
    (readVariant vs arms tag).run s = (.err ⟨.invalidData, "Invalid enum discriminant"⟩, s) := by
  induction vs with
  | nil => rfl
  | cons v vs ih =>
      obtain ⟨tag', arms⟩ := arms
      simp only [Arms.tags, List.mem_cons, not_or] at h
      rw [readVariant, if_neg h.1]
      exact Proc.map_of_err (ih h.2) _

/-! ## The two macros together -/

/-- Every tuple variant has at most one field. -/
def Data.Readable : Data → Prop
  | .enum variants => ∀ v ∈ variants, v.readable
  | .struct _ | .union => True

/-- An enum has variants, none of them with a field that hides what its writer uses. -/
def Data.Writable : Data → Prop
  | .enum variants => variants ≠ [] ∧ ∀ v ∈ variants, v.writable
  | .struct _ | .union => True

/-- When `derive(ToBytes)` gets through an enum, and with which numbers. -/
theorem expand_to_bytes_enum {variants : List Variant} {arms : Arms variants} :
    (Data.enum variants).expandToBytes = some arms ↔
      (Data.enum variants).Writable ∧ matchArms variants 0 = some arms := by
  change (if !variants.isEmpty && variants.all Variant.writable then matchArms variants 0
    else none) = _ ↔ _
  rw [Option.ite_none_right_eq_some, Bool.and_eq_true, Bool.not_eq_true', List.isEmpty_eq_false_iff,
    List.all_eq_true]
  rfl

/-- When `derive(FromBytes)` gets through an enum, and with which numbers. -/
theorem expand_from_bytes_enum {variants : List Variant} {arms : Arms variants} :
    (Data.enum variants).expandFromBytes = some arms ↔
      (Data.enum variants).Readable ∧ matchArms variants 0 = some arms := by
  change (if variants.all Variant.readable then matchArms variants 0 else none) = _ ↔ _
  rw [Option.ite_none_right_eq_some, List.all_eq_true]
  rfl

/-- The macros work out the same numbers. -/
theorem expansions_agree {d : Data} {writeArms readArms : d.Arms}
    (hwrite : d.expandToBytes = some writeArms) (hread : d.expandFromBytes = some readArms) :
    writeArms = readArms := by
  cases d with
  | struct fields => rfl
  | union => exact writeArms.elim
  | enum variants =>
      exact Option.some.inj
        ((expand_to_bytes_enum.mp hwrite).2.symm.trans (expand_from_bytes_enum.mp hread).2)

/-- Both macros get through a definition with discriminants below `i32::MAX`. -/
theorem expansions_exist {d : Data} (hunion : d ≠ .union) (hwritable : d.Writable)
    (hreadable : d.Readable) (hliteral : d.LiteralDiscriminants)
    (hbelow : ∀ δ ∈ d.rustDiscriminants, δ < i32Max) :
    ∃ arms, d.expandToBytes = some arms ∧ d.expandFromBytes = some arms := by
  cases d with
  | struct fields => exact ⟨(), rfl, rfl⟩
  | union => exact absurd rfl hunion
  | enum variants =>
      obtain ⟨arms, harms⟩ := match_arms_of_lt hliteral 0 hbelow
      exact ⟨arms, expand_to_bytes_enum.mpr ⟨hwritable, harms⟩,
        expand_from_bytes_enum.mpr ⟨hreadable, harms⟩⟩

/-- The numbers of the macros are distinct when the discriminants are. -/
theorem expansion_nodup {d : Data} (hliteral : d.LiteralDiscriminants)
    (hdistinct : d.rustDiscriminants.Nodup) {arms : d.Arms}
    (h : d.expandToBytes = some arms) : (d.tags arms).Nodup := by
  cases d with
  | struct fields => exact List.nodup_nil
  | union => exact List.nodup_nil
  | enum variants => exact tags_nodup hliteral (expand_to_bytes_enum.mp h).2 hdistinct

/-- A definition with distinct discriminants, each implicit or a literal, gets two codecs that
are inverse to each other: a value whose fields round-trip is read back in front of the same
tails, and a number that is no discriminant is rejected when nothing but it has been read. -/
theorem derived_codecs_inverse (d : Data) (hliteral : d.LiteralDiscriminants)
    (hdistinct : d.rustDiscriminants.Nodup) :
    (d ≠ .union → d.Writable → d.Readable → (∀ δ ∈ d.rustDiscriminants, δ < i32Max) →
      ∃ arms, d.expandToBytes = some arms ∧ d.expandFromBytes = some arms) ∧
    ∀ writeArms readArms, d.expandToBytes = some writeArms →
      d.expandFromBytes = some readArms →
      (∀ tail x, FieldsRoundTrip tail (Data.Val.fields d x) →
        Reader.UndoesAt tail (deriveToBytes VarInt d writeArms x)
          (deriveFromBytes VarInt d readArms) x) ∧
      ∀ variants, d = .enum variants → ∀ s tag rest, StartsWithVarInt s tag rest →
        tag.toInt ∉ d.rustDiscriminants →
        (deriveFromBytes VarInt d readArms).run s =
          (.err ⟨.invalidData, "Invalid enum discriminant"⟩, rest) := by
  refine ⟨fun hunion hwritable hreadable =>
      expansions_exist hunion hwritable hreadable hliteral,
    fun writeArms readArms hwrite hread => ?_⟩
  obtain rfl := expansions_agree hwrite hread
  constructor
  · intro tail x hfields
    exact derive_undoes_at VarInt varint_round_trips (fun _ => rfl)
      (expansion_nodup hliteral hdistinct hwrite) hfields
  · rintro variants rfl s tag rest hstart hunknown
    rw [deriveFromBytes, Proc.bind_of_ok (read_varint_of_starts hstart)]
    have htags := mem_tags_iff hliteral (expand_to_bytes_enum.mp hwrite).2 tag
    exact read_variant_unknown (fun hmem => hunknown (htags.mp hmem)) rest

/-- An enum with variants of all three shapes, numbered 7, 8 and 2. -/
def mixed : Data := .enum [
  ⟨"Empty", .unit, some (.litInt 7)⟩,
  ⟨"Pair", .named [⟨some "id", UInt8⟩, ⟨some "data", BoxSlice UInt8⟩], none⟩,
  ⟨"Single", .unnamed [⟨none, VarInt⟩], some (.litInt 2)⟩]

/-- `Pair { id: 3, data: [1, 2] }`. -/
def mixedPair : mixed.Val := .inr (.inl ((3 : UInt8), (⟨[1, 2]⟩ : BoxSlice UInt8), ()))

/-- The pair of `mixed` is read back at the end of the input, and the tag 9 is rejected. -/
theorem derived_codecs_inverse_mixed :
    ∃ arms, mixed.expandToBytes = some arms ∧ mixed.expandFromBytes = some arms ∧
      Reader.UndoesAt (fun rest => rest = []) (deriveToBytes VarInt mixed arms mixedPair)
        (deriveFromBytes VarInt mixed arms) mixedPair ∧
      (deriveFromBytes VarInt mixed arms).run [9, 1] =
        (.err ⟨.invalidData, "Invalid enum discriminant"⟩, [1]) := by
  have hliteral : mixed.LiteralDiscriminants := by
    intro v hv
    fin_cases hv
    · exact (by decide : 7 < i32Max)
    · trivial
    · exact (by decide : 2 < i32Max)
  obtain ⟨hexist, hinverse⟩ := derived_codecs_inverse mixed hliteral (by decide)
  have hwritable : mixed.Writable := by
    refine ⟨List.cons_ne_nil _ _, fun v hv => ?_⟩
    fin_cases hv <;> rfl
  have hreadable : mixed.Readable := by
    intro v hv
    fin_cases hv <;> rfl
  obtain ⟨arms, hwrite, hread⟩ := hexist (by simp [mixed]) hwritable hreadable (by decide)
  obtain ⟨hundoes, hreject⟩ := hinverse arms arms hwrite hread
  refine ⟨arms, hwrite, hread, hundoes _ mixedPair ?_, ?_⟩
  · exact ⟨primitive_round_trips, byte_slice_round_trips⟩
  · exact hreject _ rfl [9, 1] 9 [1] ⟨[9], rfl, .last 9 (by decide), by decide, rfl⟩ (by decide)

/-! ## What a derived reader accepts -/

/-- Fields in sequence are read one after the other. -/
theorem read_fields_cons_ok_iff {f : Field} {fs : List Field} {s rest : Bytes} {x : f.ty}
    {xs : FieldVals fs} :
    (readFields (f :: fs)).run s = (.ok (x, xs), rest) ↔
      ∃ middle, f.fromBytes.readFrom.run s = (.ok x, middle) ∧
        (readFields fs).run middle = (.ok xs, rest) := by
  constructor
  · intro h
    obtain ⟨y, middle, hhead, htail⟩ := Proc.bind_ok_iff.mp h
    obtain ⟨ys, _, hfields, hend⟩ := Proc.bind_ok_iff.mp htail
    obtain ⟨heq, rfl⟩ := Prod.mk.inj hend
    cases heq
    exact ⟨middle, hhead, hfields⟩
  · rintro ⟨middle, hhead, htail⟩
    exact Proc.bind_ok_iff.mpr ⟨x, middle, hhead, Proc.bind_of_ok htail _⟩

/-- A single field is read as its type is. -/
theorem read_field_ok_iff {f : Field} {s rest : Bytes} {x : f.ty} :
    (readFields [f]).run s = (.ok (x, ()), rest) ↔
      f.fromBytes.readFrom.run s = (.ok x, rest) := by
  refine read_fields_cons_ok_iff.trans ⟨?_, fun h => ⟨rest, h, rfl⟩⟩
  rintro ⟨middle, hread, hend⟩
  obtain ⟨-, rfl⟩ := Prod.mk.inj hend
  exact hread

/-- The arm of the first variant is taken when the number is its own. -/
theorem read_variant_inl_iff {v : Variant} {vs : List Variant} {tag : Int32} {arms : Arms vs}
    {discriminant : Int32} {s rest : Bytes} {x : FieldVals v.fields.toList} :
    (readVariant (v :: vs) (tag, arms) discriminant).run s = (.ok (.inl x), rest) ↔
      discriminant = tag ∧ (readFields v.fields.toList).run s = (.ok x, rest) := by
  rw [readVariant]
  split
  · next heq =>
      constructor
      · intro h
        obtain ⟨y, hread, hinl⟩ := Proc.map_ok_iff.mp h
        cases hinl
        exact ⟨heq, hread⟩
      · exact fun h => Proc.map_ok_iff.mpr ⟨x, h.2, rfl⟩
  · next hne =>
      refine iff_of_false (fun h => ?_) fun h => hne h.1
      obtain ⟨y, -, hinr⟩ := Proc.map_ok_iff.mp h
      cases hinr

/-- A later arm is taken when the number is not that of the first. -/
theorem read_variant_inr_iff {v : Variant} {vs : List Variant} {tag : Int32} {arms : Arms vs}
    {discriminant : Int32} {s rest : Bytes} {x : EnumVal vs} :
    (readVariant (v :: vs) (tag, arms) discriminant).run s = (.ok (.inr x), rest) ↔
      discriminant ≠ tag ∧ (readVariant vs arms discriminant).run s = (.ok x, rest) := by
  rw [readVariant]
  split
  · next heq =>
      refine iff_of_false (fun h => ?_) fun h => h.1 heq
      obtain ⟨y, -, hinl⟩ := Proc.map_ok_iff.mp h
      cases hinl
  · next hne =>
      constructor
      · intro h
        obtain ⟨y, hread, hinr⟩ := Proc.map_ok_iff.mp h
        cases hinr
        exact ⟨hne, hread⟩
      · exact fun h => Proc.map_ok_iff.mpr ⟨x, h.2, rfl⟩

/-- An enum is read as a number and the arm of that number. -/
theorem read_enum_ok_iff {variants : List Variant} {arms : Arms variants} {s rest : Bytes}
    {x : EnumVal variants} :
    (deriveFromBytes VarInt (.enum variants) arms).run s = (.ok x, rest) ↔
      ∃ tag middle, StartsWithVarInt s tag middle ∧
        (readVariant variants arms tag).run middle = (.ok x, rest) := by
  refine (Proc.bind_ok_iff (p := (readFrom : Reader VarInt))
    (f := fun v => readVariant variants arms v.val)).trans ?_
  constructor
  · rintro ⟨v, middle, hread, hrest⟩
    exact ⟨v.val, middle, read_varint_ok_iff.mp hread, hrest⟩
  · rintro ⟨tag, middle, hstart, hrest⟩
    exact ⟨⟨tag⟩, middle, read_varint_of_starts hstart, hrest⟩

/-- The first variant of an enum, a tuple of one field, is read as its number and the field. -/
theorem read_first_variant_ok_iff {ident : String} {f : Field} {discriminant : Option Expr}
    {vs : List Variant} {tag : Int32} {arms : Arms vs} {s rest : Bytes} {x : f.ty} :
    (deriveFromBytes VarInt (.enum (⟨ident, .unnamed [f], discriminant⟩ :: vs))
        (tag, arms)).run s = (.ok (.inl (x, ())), rest) ↔
      ∃ middle, StartsWithVarInt s tag middle ∧
        f.fromBytes.readFrom.run middle = (.ok x, rest) := by
  refine read_enum_ok_iff.trans ⟨?_, ?_⟩
  · rintro ⟨tag', middle, hstart, hvariant⟩
    obtain ⟨rfl, hfields⟩ := read_variant_inl_iff.mp hvariant
    exact ⟨middle, hstart, read_field_ok_iff.mp hfields⟩
  · rintro ⟨middle, hstart, hread⟩
    exact ⟨tag, middle, hstart, read_variant_inl_iff.mpr ⟨rfl, read_field_ok_iff.mpr hread⟩⟩

/-! ## What a derived reader is composed of -/

/-- All the fields of a definition, whatever their variants. -/
def Data.fields : Data → List Field
  | .struct fields => fields.toList
  | .enum variants => variants.flatMap fun v => v.fields.toList
  | .union => []

section Composed

variable {P : ∀ {γ : Type}, Reader γ → Prop} (hP : Reader.Compositional P)

include hP

/-- Fields in sequence. -/
theorem fields_composed {fs : List Field} (h : ∀ f ∈ fs, P f.fromBytes.readFrom) :
    P (readFields fs) := by
  induction fs with
  | nil => exact hP.pure _
  | cons f fs ih =>
      obtain ⟨hf, hfs⟩ := List.forall_mem_cons.mp h
      exact hP.bind hf fun x => hP.bind (ih hfs) fun xs => hP.pure _

/-- A match on a number that is already read, by the fields of its arms. -/
theorem variant_composed {vs : List Variant}
    (h : ∀ v ∈ vs, ∀ f ∈ v.fields.toList, P f.fromBytes.readFrom) (arms : Arms vs)
    (tag : Int32) : P (readVariant vs arms tag) := by
  induction vs with
  | nil => exact hP.fail _ (by decide)
  | cons v vs ih =>
      obtain ⟨tag', arms⟩ := arms
      obtain ⟨hv, hvs⟩ := List.forall_mem_cons.mp h
      exact hP.ite (hP.map (fields_composed hP hv) _) (hP.map (ih hvs arms) _)

/-- A derived reader, by its fields and its discriminant. -/
theorem derive_composed {D : Type} [FromBytes D] [IntoI32 D] (hD : P (readFrom : Reader D))
    {d : Data} (h : ∀ f ∈ d.fields, P f.fromBytes.readFrom) (arms : d.Arms) :
    P (deriveFromBytes D d arms) := by
  cases d with
  | struct fields => exact fields_composed hP h
  | union => exact arms.elim
  | enum variants =>
      refine hP.bind hD fun discriminant => variant_composed hP (fun v hv f hf => ?_) arms _
      exact h f (List.mem_flatMap.mpr ⟨v, hv, hf⟩)

end Composed

/-! ## Self-delimitation -/

/-- Every field's reader is self-delimiting. -/
def FieldsDelimited (fs : List Field) : Prop :=
  ∀ f ∈ fs, Reader.SelfDelimiting f.fromBytes.readFrom

theorem FieldsDelimited.nil : FieldsDelimited [] := fun _ h => absurd h List.not_mem_nil

theorem FieldsDelimited.cons {f : Field} {fs : List Field}
    (hf : Reader.SelfDelimiting f.fromBytes.readFrom) (hfs : FieldsDelimited fs) :
    FieldsDelimited (f :: fs) :=
  List.forall_mem_cons.mpr ⟨hf, hfs⟩

/-- Every struct's or variant's fields are self-delimiting. -/
def Data.Delimited : Data → Prop
  | .struct fields => FieldsDelimited fields.toList
  | .enum variants => ∀ v ∈ variants, FieldsDelimited v.fields.toList
  | .union => True

/-- The fields of a definition together. -/
theorem Data.Delimited.fields {d : Data} (h : d.Delimited) : FieldsDelimited d.fields := by
  cases d with
  | struct fields => exact h
  | union => exact .nil
  | enum variants =>
      intro f hf
      obtain ⟨v, hv, hmem⟩ := List.mem_flatMap.mp hf
      exact h v hv f hmem

/-! ## Types with a definition -/

variable {α : Type} [Derive α]

/-- A type with derived codecs round-trips at the values whose fields do. -/
theorem derived_undoes_at {tail : Bytes → Prop}
    (hwrite : (Derive.data α).expandToBytes = some Derive.arms)
    (hread : (Derive.data α).expandFromBytes = some Derive.arms)
    (hnodup : ((Derive.data α).tags Derive.arms).Nodup) {a : α}
    (hfields : FieldsRoundTrip tail (Data.Val.fields (Derive.data α) (Derive.toVal a))) :
    Reader.UndoesAt tail ((derivedToBytes VarInt hwrite).writeTo a)
      (derivedFromBytes VarInt hread).readFrom a := by
  intro buf n out h
  obtain ⟨bytes, hout, hbytes⟩ :=
    derive_undoes_at VarInt varint_round_trips (fun _ => rfl) hnodup hfields buf n out h
  refine ⟨bytes, hout, fun rest hrest => ?_⟩
  have hmap := Proc.map_of_ok (hbytes rest hrest) Derive.ofVal
  rwa [Derive.ofVal_toVal] at hmap

/-- A type with a derived reader is read where its definition is. -/
theorem derived_ok_iff (hread : (Derive.data α).expandFromBytes = some Derive.arms)
    {s rest : Bytes} {a : α} :
    (derivedFromBytes VarInt hread).readFrom.run s = (.ok a, rest) ↔
      (deriveFromBytes VarInt (Derive.data α) Derive.arms).run s =
        (.ok (Derive.toVal a), rest) := by
  refine Proc.map_ok_iff.trans ?_
  constructor
  · rintro ⟨x, hx, rfl⟩
    rwa [Derive.toVal_ofVal]
  · exact fun h => ⟨_, h, Derive.ofVal_toVal a⟩

/-- A type with a derived reader meets a law when its fields and its discriminant do. -/
theorem derived_composed {P : ∀ {γ : Type}, Reader γ → Prop} (hP : Reader.Compositional P)
    {D : Type} [FromBytes D] [IntoI32 D]
    (hread : (Derive.data α).expandFromBytes = some Derive.arms) (hD : P (readFrom : Reader D))
    (h : ∀ f ∈ (Derive.data α).fields, P f.fromBytes.readFrom) :
    P (derivedFromBytes (α := α) D hread).readFrom :=
  hP.map (derive_composed hP hD h _) _

/-- A type with a derived reader is self-delimiting when its fields are. -/
theorem derived_self_delimiting (hread : (Derive.data α).expandFromBytes = some Derive.arms)
    (h : (Derive.data α).Delimited) :
    Reader.SelfDelimiting (derivedFromBytes (α := α) VarInt hread).readFrom :=
  derived_composed Reader.SelfDelimiting.compositional hread varint_self_delimiting h.fields

end Bws.Protocol
