import Bws.Protocol.Impls

/-!
# The derive macros

`derive(ToBytes)` and `derive(FromBytes)` as functions of a type definition. A definition is
`Data`: fields with their types' codecs, and for an enum the variants with their explicit
discriminants. Its values are tuples of field values, tagged by the variant for an enum.

Each macro first numbers the variants with a running counter, which can fail while the macro
runs, and the code it emits for a variant may be none that compiles (`expandToBytes`,
`expandFromBytes`). The codec then matches on the numbers found (`deriveToBytes`,
`deriveFromBytes`).
-/

namespace Bws.Protocol

open Bws.Base

/-- A field: its name, if it has one, and its type with the type's codecs. -/
structure Field where
  ident : Option String
  ty : Type
  [toBytes : ToBytes ty]
  [fromBytes : FromBytes ty]

/-- The fields of a struct or of a variant. -/
inductive Fields where
  | named (fields : List Field)
  | unnamed (fields : List Field)
  | unit

/-- The fields in the order of their definition. -/
def Fields.toList : Fields → List Field
  | .named fields | .unnamed fields => fields
  | .unit => []

/-- An explicit discriminant. The macros look at integer literals only; any other constant
expression is here with the value the compiler gives it. -/
inductive Expr where
  | litInt (digits : Nat)
  | other (value : Int)

/-- A variant of an enum. -/
structure Variant where
  ident : String
  fields : Fields
  discriminant : Option Expr

/-- A type definition. -/
inductive Data where
  | struct (fields : Fields)
  | enum (variants : List Variant)
  | union

/-- One value for each field. -/
def FieldVals : List Field → Type
  | [] => Unit
  | f :: fs => f.ty × FieldVals fs

/-- A variant and the values of its fields. -/
def EnumVal : List Variant → Type
  | [] => Empty
  | v :: vs => FieldVals v.fields.toList ⊕ EnumVal vs

/-- The values of a definition. -/
def Data.Val : Data → Type
  | .struct fields => FieldVals fields.toList
  | .enum variants => EnumVal variants
  | .union => Empty

/-- The fields of the variant of a value. -/
def EnumVal.fields : (vs : List Variant) → EnumVal vs → List Field
  | v :: _, .inl _ => v.fields.toList
  | _ :: vs, .inr x => EnumVal.fields vs x

/-- The fields that a value has. -/
def Data.Val.fields : (d : Data) → d.Val → List Field
  | .struct fields, _ => fields.toList
  | .enum variants, x => EnumVal.fields variants x

/-! ## Numbering the variants -/

/-- The number of a variant, given the counter. A literal has to parse as an `i32`. -/
def Variant.tag (v : Variant) (next : Int32) : Option Int32 :=
  match v.discriminant with
  | some (.litInt digits) => if digits ≤ i32Max then some (Int32.ofNat digits) else none
  | _ => some next

/-- `next_discriminant += 1`, where overflow stops the macro. -/
def increment (next : Int32) : Option Int32 :=
  if next.toInt < i32Max then some (next + 1) else none

/-- A number for each variant. -/
def Arms : List Variant → Type
  | [] => Unit
  | _ :: vs => Int32 × Arms vs

/-- The numbers in the order of the variants. -/
def Arms.tags : (vs : List Variant) → Arms vs → List Int32
  | [], _ => []
  | _ :: vs, (tag, arms) => tag :: Arms.tags vs arms

/-- Number the variants with a running counter. -/
def matchArms : (vs : List Variant) → Int32 → Option (Arms vs)
  | [], _ => some ()
  | v :: vs, next => do
      let tag ← v.tag next
      let next ← increment tag
      let arms ← matchArms vs next
      pure (tag, arms)

/-- The numbers a macro has found for a definition. -/
def Data.Arms : Data → Type
  | .struct _ => Unit
  | .enum variants => Protocol.Arms variants
  | .union => Empty

/-- The numbers of a definition in the order of its variants. -/
def Data.tags : (d : Data) → d.Arms → List Int32
  | .enum variants, arms => Arms.tags variants arms
  | .struct _, _ | .union, _ => []

/-- The arm of a variant in the emitted writer binds the fields to their names, so no field may
hide `write`, which it writes to, or `written`, which it counts in. -/
def Variant.writable (v : Variant) : Bool :=
  match v.fields with
  | .named fields => fields.all fun f => f.ident ≠ some "write" && f.ident ≠ some "written"
  | _ => true

/-- What `derive(ToBytes)` works out while it runs. The emitted `match` is on a reference, and has
to have an arm. -/
def Data.expandToBytes : (d : Data) → Option d.Arms
  | .struct _ => some ()
  | .enum variants =>
      if !variants.isEmpty && variants.all Variant.writable then matchArms variants 0 else none
  | .union => none

/-- The reader of a tuple variant is emitted without commas between its fields, which is an
expression only for at most one field. -/
def Variant.readable (v : Variant) : Bool :=
  match v.fields with
  | .unnamed fields => fields.length ≤ 1
  | _ => true

/-- What `derive(FromBytes)` works out while it runs. -/
def Data.expandFromBytes : (d : Data) → Option d.Arms
  | .struct _ => some ()
  | .enum variants => if variants.all Variant.readable then matchArms variants 0 else none
  | .union => none

/-! ## The emitted codecs -/

/-- `Into::<D>::into` of a discriminant. -/
class FromI32 (D : Type) where
  fromI32 : Int32 → D

/-- `Into::<i32>::into` of a discriminant read back. -/
class IntoI32 (D : Type) where
  intoI32 : D → Int32

instance : FromI32 VarInt := ⟨VarInt.mk⟩

instance : IntoI32 VarInt := ⟨VarInt.val⟩

/-- Write the fields in order, adding up the counts. -/
def writeFields {W : Type} [Write W] : (fs : List Field) → FieldVals fs → Nat → Proc W Nat
  | [], _, written => pure written
  | f :: fs, (x, xs), written => do
      let n ← f.toBytes.writeTo x
      writeFields fs xs (written + n)

/-- Read the fields in order. -/
def readFields : (fs : List Field) → Reader (FieldVals fs)
  | [] => pure ()
  | f :: fs => do
      let x ← f.fromBytes.readFrom
      let xs ← readFields fs
      pure (x, xs)

/-- `match self`: the arm of the value's variant writes its number and its fields. -/
def writeVariant (D : Type) [ToBytes D] [FromI32 D] {W : Type} [Write W] :
    (vs : List Variant) → Arms vs → EnumVal vs → Proc W Nat
  | v :: _, (tag, _), .inl x => do
      let written ← writeTo (FromI32.fromI32 tag : D)
      writeFields v.fields.toList x written
  | _ :: vs, (_, arms), .inr x => writeVariant D vs arms x

/-- `match discriminant`: the first arm with this number reads its fields. -/
def readVariant : (vs : List Variant) → Arms vs → Int32 → Reader (EnumVal vs)
  | [], _, _ => Proc.fail ⟨.invalidData, "Invalid enum discriminant"⟩
  | v :: vs, (tag, arms), discriminant =>
      if discriminant = tag then .inl <$> readFields v.fields.toList
      else .inr <$> readVariant vs arms discriminant

/-- The `write_to` that `derive(ToBytes)` emits, with discriminants written as `D`. -/
def deriveToBytes (D : Type) [ToBytes D] [FromI32 D] {W : Type} [Write W] :
    (d : Data) → d.Arms → d.Val → Proc W Nat
  | .struct fields, _, x => writeFields fields.toList x 0
  | .enum variants, arms, x => writeVariant D variants arms x

/-- The `read_from` that `derive(FromBytes)` emits, with discriminants read as `D`. -/
def deriveFromBytes (D : Type) [FromBytes D] [IntoI32 D] : (d : Data) → d.Arms → Reader d.Val
  | .struct fields, _ => readFields fields.toList
  | .enum variants, arms => do
      let discriminant ← readFrom (α := D)
      readVariant variants arms (IntoI32.intoI32 discriminant)

/-! ## Types with a definition -/

/-- A type together with its definition: the values of one are those of the other. -/
class Derive (α : Type) where
  data : Data
  arms : data.Arms
  toVal : α → data.Val
  ofVal : data.Val → α
  ofVal_toVal : ∀ a, ofVal (toVal a) = a
  toVal_ofVal : ∀ x, toVal (ofVal x) = x

variable {α : Type}

/-- `#[derive(ToBytes)]` on a type, with discriminants written as `D`. -/
@[reducible] def derivedToBytes (D : Type) [ToBytes D] [FromI32 D] [Derive α]
    (_ : (Derive.data α).expandToBytes = some (Derive.arms (α := α))) : ToBytes α where
  writeTo a := deriveToBytes D (Derive.data α) Derive.arms (Derive.toVal a)

/-- `#[derive(FromBytes)]` on a type, with discriminants read as `D`. -/
@[reducible] def derivedFromBytes (D : Type) [FromBytes D] [IntoI32 D] [Derive α]
    (_ : (Derive.data α).expandFromBytes = some (Derive.arms (α := α))) : FromBytes α where
  readFrom := Derive.ofVal <$> deriveFromBytes D (Derive.data α) Derive.arms

end Bws.Protocol
