import Bws.Protocol.DeriveLaws

/-!
# The numbers of the macros and Rust's discriminants

The counter of the macros takes over integer literals and passes over every other expression.
`derived_tags_iff` says when it still arrives at the compiler's discriminants, for enums with
explicit discriminants of any form and in any order, and `skipped_discriminant_clash` is an
enum where it does not: two variants share a tag, and one is read back as the other.
-/

namespace Bws.Protocol

open Bws.Base

/-! ## Both macros -/

/-- The discriminant of a value's variant, in an enum whose first variant would have `next`. -/
def EnumVal.discriminant : (vs : List Variant) → Int → EnumVal vs → Int
  | v :: _, next, .inl _ => v.rustDiscriminant next
  | v :: vs, next, .inr x => EnumVal.discriminant vs (v.rustDiscriminant next + 1) x

/-- The values of the fields that a value has. -/
def EnumVal.vals : (vs : List Variant) → (x : EnumVal vs) → FieldVals (EnumVal.fields vs x)
  | _ :: _, .inl x => x
  | _ :: vs, .inr x => EnumVal.vals vs x

/-- The writer writes the discriminant of a value and then the value's fields. -/
def WritesDiscriminant (variants : List Variant) (arms : Arms variants)
    (x : EnumVal variants) : Prop :=
  ∃ tag : Int32, tag.toInt = EnumVal.discriminant variants 0 x ∧
    (deriveToBytes VarInt (.enum variants) arms x : Proc Bytes Nat) = (do
      let written ← writeTo (VarInt.mk tag)
      writeFields (EnumVal.fields variants x) (EnumVal.vals variants x) written)

/-- Numbers that are the discriminants are what the writer writes first. -/
theorem write_variant_eq {vs : List Variant} {next : Int} {arms : Arms vs}
    (h : (Arms.tags vs arms).map Int32.toInt = rustDiscriminants vs next) (x : EnumVal vs) :
    ∃ tag : Int32, tag.toInt = EnumVal.discriminant vs next x ∧
      (writeVariant VarInt vs arms x : Proc Bytes Nat) = (do
        let written ← writeTo (VarInt.mk tag)
        writeFields (EnumVal.fields vs x) (EnumVal.vals vs x) written) := by
  induction vs generalizing next with
  | nil => exact x.elim
  | cons v vs ih =>
      obtain ⟨tag, arms⟩ := arms
      obtain ⟨hhead, htail⟩ := List.cons.inj h
      rcases x with x | x
      · exact ⟨tag, hhead, rfl⟩
      · exact ih htail x

/-- The two macros number the variants of an enum with their discriminants, no two alike, so
these are written, and every value that is written is read back as itself when its fields are. -/
structure TagsRight (variants : List Variant) (writeArms readArms : Arms variants) : Prop where
  writes : ∀ x, WritesDiscriminant variants writeArms x
  written : (Arms.tags variants writeArms).map Int32.toInt = rustDiscriminants variants 0
  matched : (Arms.tags variants readArms).map Int32.toInt = rustDiscriminants variants 0
  distinct : (Arms.tags variants writeArms).Nodup
  undoes : ∀ tail (x : EnumVal variants), FieldsRoundTrip tail (EnumVal.fields variants x) →
    Reader.UndoesAt tail (deriveToBytes VarInt (.enum variants) writeArms x)
      (deriveFromBytes VarInt (.enum variants) readArms) x

/-- Tags that are the discriminants are right in every way. -/
theorem tags_right_of_written {variants : List Variant}
    (hdistinct : (rustDiscriminants variants 0).Nodup) {arms : Arms variants}
    (h : (Arms.tags variants arms).map Int32.toInt = rustDiscriminants variants 0) :
    TagsRight variants arms arms := by
  have hnodup : (Arms.tags variants arms).Nodup := List.Nodup.of_map _ (h ▸ hdistinct)
  exact ⟨write_variant_eq h, h, h, hnodup, fun tail x hfields =>
    derive_undoes_at VarInt varint_round_trips (fun _ => rfl) (d := .enum variants) hnodup
      hfields⟩

/-- The tags on the wire are the discriminants, for an enum whose discriminants are distinct and
whose derived codecs compile, exactly when every explicit discriminant that is no literal is one
more than the one before it, or zero in the first place. -/
theorem derived_tags_iff {variants : List Variant}
    (hdistinct : (Data.enum variants).rustDiscriminants.Nodup) {writeArms readArms : Arms variants}
    (hwrite : (Data.enum variants).expandToBytes = some writeArms)
    (hread : (Data.enum variants).expandFromBytes = some readArms) :
    TagsRight variants writeArms readArms ↔ InStep variants 0 := by
  obtain rfl : writeArms = readArms := expansions_agree hwrite hread
  have hiff : (Arms.tags variants writeArms).map Int32.toInt = rustDiscriminants variants 0 ↔
      InStep variants 0 := tags_right_iff (expand_to_bytes_enum.mp hwrite).2
  exact ⟨fun h => hiff.mp h.written, fun h => tags_right_of_written hdistinct (hiff.mpr h)⟩

/-- Explicit discriminants of both forms, in step: 5, then the expression 6, then 7. -/
def expression : List Variant := [
  ⟨"First", .unit, some (.litInt 5)⟩,
  ⟨"Second", .unnamed [⟨none, VarInt⟩], some (.other 6)⟩,
  ⟨"Third", .unit, none⟩]

/-- The tags of `expression` are right. -/
theorem derived_tags_expression :
    ∃ writeArms readArms, (Data.enum expression).expandToBytes = some writeArms ∧
      (Data.enum expression).expandFromBytes = some readArms ∧
      TagsRight expression writeArms readArms :=
  ⟨(5, 6, 7, ()), (5, 6, 7, ()), rfl, rfl,
    (derived_tags_iff (by decide) rfl rfl).mpr ⟨trivial, rfl, trivial, trivial⟩⟩

/-! ## A clash -/

/-- `enum { A = 1, B = -1, C = 2 }`. -/
def clashing : List Variant := [
  ⟨"A", .unit, some (.litInt 1)⟩,
  ⟨"B", .unit, some (.other (-1))⟩,
  ⟨"C", .unit, some (.litInt 2)⟩]

/-- The discriminants of `clashing` are distinct and both macros get through, but `B` and `C`
are written with the tag 2, and `C` is read back as `B`. -/
theorem skipped_discriminant_clash :
    (Data.enum clashing).rustDiscriminants = [1, -1, 2] ∧
      ∃ arms, (Data.enum clashing).expandToBytes = some arms ∧
        (Data.enum clashing).expandFromBytes = some arms ∧
        Arms.tags clashing arms = [1, 2, 2] ∧
        (deriveToBytes VarInt (.enum clashing) arms (.inr (.inr (.inl ())))).run
          ([] : Bytes) = (.ok 1, [2]) ∧
        (deriveFromBytes VarInt (.enum clashing) arms).run [2] =
          (.ok (.inr (.inl ())), []) ∧
        ¬ TagsRight clashing arms arms := by
  refine ⟨rfl, (1, 2, 2, ()), rfl, rfl, rfl, rfl, rfl, fun h => ?_⟩
  exact absurd h.distinct (by decide)

end Bws.Protocol
