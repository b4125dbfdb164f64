import Bws.Protocol.RoundTrip
import Bws.Protocol.Packets

/-!
# The wire format

`Format` generates the types that can be written, from the language's own types to the derived
definitions, and gives each the size its values take on the wire. `Format.counts` is the
induction over it: a writer ends in the same way whatever it writes to, and the count it
returns is this size and the number of bytes it has appended.
-/

namespace Bws.Protocol

open Bws.Base

/-- A sink that discards its input. -/
structure NoopWriter where
  deriving DecidableEq, Repr

/-- Nothing is left of what is written. -/
instance : Write NoopWriter where
  writeAll _ := pure ()

/-- `p` appends to a buffer what `q` discards. Both end in the same way, and when they return a
count then `size` bytes have been appended and counted on top of `written`. -/
def Counts (p : Proc Bytes Nat) (q : Proc NoopWriter Nat) (written size : Nat) : Prop :=
  ∃ outcome bytes, (∀ buf, p.run buf = (outcome, buf ++ bytes)) ∧ q.run {} = (outcome, {}) ∧
    ∀ n, outcome = .ok n → n = written + size ∧ bytes.length = size

/-- `p` appends `bytes` to a buffer, and `q` discards them. -/
def Emits (p : Proc Bytes Unit) (q : Proc NoopWriter Unit) (bytes : Bytes) : Prop :=
  (∀ buf, p.run buf = (.ok (), buf ++ bytes)) ∧ q.run {} = (.ok (), {})

/-- One write. -/
theorem emits_write_all (bytes : Bytes) :
    Emits (Write.writeAll bytes) (Write.writeAll bytes) bytes :=
  ⟨fun _ => rfl, rfl⟩

/-- Bytes written one at a time are discarded one at a time. -/
theorem emits_write_each (bytes : Bytes) : Emits (writeEach bytes) (writeEach bytes) bytes := by
  refine ⟨write_each_bytes bytes, ?_⟩
  induction bytes with
  | nil => rfl
  | cons b bs ih => exact ih

namespace Counts

variable {p : Proc Bytes Nat} {q : Proc NoopWriter Nat} {written size : Nat}

/-- A count is returned as it is. -/
theorem pure (n : Nat) : Counts (pure n) (pure n) n 0 := by
  refine ⟨.ok n, [], fun buf => by simp, rfl, fun k hk => ?_⟩
  obtain rfl := Outcome.ok.inj hk
  exact ⟨rfl, rfl⟩

/-- A refusal counts nothing. -/
theorem fail (e : Error) : Counts (Proc.fail e) (Proc.fail e) written size :=
  ⟨.err e, [], fun buf => by simp, rfl, nofun⟩

/-- The count of one part is handed to the next, which counts on. -/
theorem bind {f : Nat → Proc Bytes Nat} {g : Nat → Proc NoopWriter Nat} {before rest : Nat}
    (hp : Counts p q 0 size) (hf : Counts (f size) (g size) (before + size) rest) :
    Counts (p >>= f) (q >>= g) before (size + rest) := by
  obtain ⟨outcome, bytes, hrun, hnoop, hcount⟩ := hp
  cases outcome with
  | ok n =>
      obtain ⟨hn, hlen⟩ := hcount n rfl
      obtain rfl : n = size := hn.trans (Nat.zero_add size)
      obtain ⟨outcome, more, hrun', hnoop', hcount'⟩ := hf
      refine ⟨outcome, bytes ++ more, fun buf => ?_, ?_, fun n hn => ?_⟩
      · rw [Proc.bind_of_ok (hrun buf), hrun', List.append_assoc]
      · rw [Proc.bind_of_ok hnoop, hnoop']
      · obtain ⟨rfl, hlen'⟩ := hcount' n hn
        rw [List.length_append, hlen, hlen']
        exact ⟨Nat.add_assoc .., rfl⟩
  | err e =>
      exact ⟨_, bytes, fun buf => Proc.bind_of_err (hrun buf) f, Proc.bind_of_err hnoop g, nofun⟩
  | panic r =>
      exact ⟨_, bytes, fun buf => Proc.bind_of_panic (hrun buf) f, Proc.bind_of_panic hnoop g,
        nofun⟩
  | diverge =>
      exact ⟨_, bytes, fun buf => Proc.bind_of_diverge (hrun buf) f,
        Proc.bind_of_diverge hnoop g, nofun⟩

/-- A first part begins the count. -/
theorem first {f : Nat → Proc Bytes Nat} {g : Nat → Proc NoopWriter Nat} {rest : Nat}
    (hp : Counts p q 0 size) (hf : Counts (f size) (g size) size rest) :
    Counts (p >>= f) (q >>= g) 0 (size + rest) :=
  hp.bind (by rwa [Nat.zero_add])

/-- A write is counted by hand, as the length of its bytes. -/
theorem emit {e : Proc Bytes Unit} {d : Proc NoopWriter Unit} {bytes : Bytes}
    (he : Emits e d bytes) :
    Counts (do e; Pure.pure (written + bytes.length)) (do d; Pure.pure (written + bytes.length))
      written bytes.length := by
  refine ⟨_, bytes, fun buf => Proc.bind_of_ok (he.1 buf) _, Proc.bind_of_ok he.2 _,
    fun n hn => ?_⟩
  obtain rfl := Outcome.ok.inj hn
  exact ⟨rfl, rfl⟩

/-- A write that begins the count. -/
theorem emit_first {e : Proc Bytes Unit} {d : Proc NoopWriter Unit} {bytes : Bytes}
    (he : Emits e d bytes) :
    Counts (do e; Pure.pure bytes.length) (do d; Pure.pure bytes.length) 0 bytes.length := by
  have hemit : Counts (do e; Pure.pure (0 + bytes.length)) (do d; Pure.pure (0 + bytes.length)) 0
      bytes.length := emit he
  rwa [Nat.zero_add] at hemit

/-- The size may be put differently. -/
theorem of_eq {size' : Nat} (h : Counts p q written size) (hsize : size = size') :
    Counts p q written size' :=
  hsize ▸ h

end Counts

/-- The writers of `a` take `size` bytes. -/
abbrev Counted {α : Type} [ToBytes α] (a : α) (size : Nat) : Prop :=
  Counts (writeTo a) (writeTo a) 0 size

/-! ## Sizes -/

/-- The size of a number in its variable-length encoding. -/
def VarInt.size (v : VarInt) : Nat := v.bytes.length

@[inherit_doc VarInt.size]
def VarLong.size (v : VarLong) : Nat := v.bytes.length

/-- The size of a length. -/
def lengthSize (n : Nat) : Nat := (lengthPrefix n).size

/-- The size of a string with its length. -/
def stringSize (s : String) : Nat := lengthSize s.utf8ByteSize + s.utf8ByteSize

variable {α : Type}

/-- The size of an option: a tag, and the content. -/
def optionSize (size : α → Nat) : Option α → Nat
  | none => 1
  | some a => 1 + size a

/-- The size of a list without its length. -/
def elementsSize (size : α → Nat) : List α → Nat
  | [] => 0
  | e :: es => size e + elementsSize size es

/-- The size of a list with its length. -/
def vecSize (size : α → Nat) (v : Vec α) : Nat :=
  lengthSize v.elems.length + elementsSize size v.elems

/-- The size of the fields. -/
def fieldsSize {f : Field} {fs : List Field} (size : f.ty → Nat) (sizes : FieldVals fs → Nat)
    (x : FieldVals (f :: fs)) : Nat :=
  size x.1 + sizes x.2

/-- The size of a variant and its tag, or of a later variant. -/
def variantsSize {v : Variant} {vs : List Variant} (tag : Nat)
    (size : FieldVals v.fields.toList → Nat) (sizes : EnumVal vs → Nat) :
    EnumVal (v :: vs) → Nat
  | .inl x => tag + size x
  | .inr x => sizes x

/-! ## The language's own types -/

/-- Fixed-width numbers. -/
theorem primitive_counted [i : Primitive α] (a : α) : Counted a i.size :=
  (Counts.emit_first (emits_write_all (BigEndian.bytes (Primitive.size α)
    (Primitive.toNat a)))).of_eq (BigEndian.length_bytes _ _)

/-- Booleans take a byte. -/
theorem bool_counted (b : Bool) : Counted b 1 :=
  Counts.emit_first (emits_write_all [if b then 0x01 else 0x00])

/-- Numbers in their variable-length encoding. -/
theorem varint_counted (v : VarInt) : Counted v v.size := by
  rw [Counted, write_varint_eq, write_varint_eq]
  exact Counts.emit_first (emits_write_each v.bytes)

@[inherit_doc varint_counted]
theorem varlong_counted (v : VarLong) : Counted v v.size := by
  rw [Counted, write_varlong_eq, write_varlong_eq]
  exact Counts.emit_first (emits_write_each v.bytes)

/-- Strings: the count of the bytes is added by hand. -/
theorem string_counted (s : String) : Counted s (stringSize s) := by
  have hlong {W : Type} [Write W] (h : i32Max < s.utf8ByteSize) :
      (writeTo s : Proc W Nat) = Proc.fail ⟨.invalidData, "String is too long"⟩ := if_pos h
  have hshort {W : Type} [Write W] (h : ¬ i32Max < s.utf8ByteSize) :
      (writeTo s : Proc W Nat) = (do
        let written ← writeTo (lengthPrefix s.utf8ByteSize)
        Write.writeAll (asBytes s)
        pure (written + (asBytes s).length)) := if_neg h
  by_cases h : i32Max < s.utf8ByteSize
  · rw [Counted, hlong h, hlong h]
    exact Counts.fail _
  · rw [Counted, hshort h, hshort h]
    exact (varint_counted _).first (Counts.emit (emits_write_all (asBytes s)))

/-- Options: the tag counts. -/
theorem option_counted [ToBytes α] {size : α → Nat} (h : ∀ a, Counted a (size a))
    (o : Option α) : Counted o (optionSize size o) := by
  cases o with
  | none => exact bool_counted false
  | some a =>
      exact (bool_counted true).first (((h a).bind (Counts.pure _)).of_eq (Nat.add_zero _))

/-- Elements: the loop adds up their counts. -/
theorem elements_counted [ToBytes α] {size : α → Nat} (h : ∀ a, Counted a (size a))
    (es : List α) (written : Nat) :
    Counts (writeElements es written) (writeElements es written) written
      (elementsSize size es) := by
  induction es generalizing written with
  | nil => exact Counts.pure written
  | cons e es ih =>
      exact (h e).bind (ih _)

/-- Vectors: the count of the length is where the loop begins. -/
theorem vec_counted [ToBytes α] {size : α → Nat} (h : ∀ a, Counted a (size a)) (v : Vec α) :
    Counted v (vecSize size v) := by
  have hlong {W : Type} [Write W] (hlen : i32Max < v.elems.length) :
      (writeTo v : Proc W Nat) = Proc.fail ⟨.invalidData, "Vec is too big"⟩ := if_pos hlen
  have hshort {W : Type} [Write W] (hlen : ¬ i32Max < v.elems.length) :
      (writeTo v : Proc W Nat) =
        writeTo (lengthPrefix v.elems.length) >>= writeElements v.elems := if_neg hlen
  by_cases hlen : i32Max < v.elems.length
  · rw [Counted, hlong hlen, hlong hlen]
    exact Counts.fail _
  · rw [Counted, hshort hlen, hshort hlen]
    exact (varint_counted _).first (elements_counted h v.elems _)

/-! ## The format -/

mutual

/-- The types that can be written, each with its writer and the sizes of its values. -/
inductive Format : (α : Type) → ToBytes α → (α → Nat) → Prop where
  | primitive {α : Type} (i : Primitive α) : Format α inferInstance fun _ => i.size
  | bool : Format Bool inferInstance fun _ => 1
  | uuid : Format Uuid inferInstance fun _ => 16
  | varint : Format VarInt inferInstance VarInt.size
  | varlong : Format VarLong inferInstance VarLong.size
  | string : Format String inferInstance stringSize
  | json {J : Type} (i : SerdeJson J) :
      Format (JsonValue J) inferInstance fun value => stringSize (i.toString value.val)
  | option {α : Type} {i : ToBytes α} {size : α → Nat} :
      Format α i size → Format (Option α) (@instToBytesOption α i) (optionSize size)
  | box {α : Type} {i : ToBytes α} {size : α → Nat} :
      Format α i size → Format (Box α) (@instToBytesBox α i) fun b => size b.inner
  | vec {α : Type} {i : ToBytes α} {size : α → Nat} :
      Format α i size → Format (Vec α) (@instToBytesVec α i) (vecSize size)
  | boxSlice {α : Type} {i : ToBytes α} {size : α → Nat} :
      Format α i size →
        Format (BoxSlice α) (@instToBytesBoxSlice α i) fun b => elementsSize size b.elems
  | derived {α D : Type} {d : Derive α} {i : ToBytes D} {c : FromI32 D} {tagSize : D → Nat}
      {size : (Derive.data α).Val → Nat}
      (h : (Derive.data α).expandToBytes = some Derive.arms) :
      Format D i tagSize →
        DataFormat (fun n => tagSize (FromI32.fromI32 n)) (Derive.data α) Derive.arms size →
          Format α (derivedToBytes D h) fun a => size (Derive.toVal a)

/-- The definitions that codecs can be derived for, with the size of each tag. -/
inductive DataFormat : (Int32 → Nat) → (d : Data) → d.Arms → (d.Val → Nat) → Prop where
  | struct {tagSize : Int32 → Nat} {fields : Fields} {size : FieldVals fields.toList → Nat} :
      FieldsFormat fields.toList size → DataFormat tagSize (.struct fields) () size
  | enum {tagSize : Int32 → Nat} {variants : List Variant} {arms : Arms variants}
      {size : EnumVal variants → Nat} :
      VariantsFormat tagSize variants arms size → DataFormat tagSize (.enum variants) arms size

/-- The fields of a struct or of a variant. -/
inductive FieldsFormat : (fs : List Field) → (FieldVals fs → Nat) → Prop where
  | nil : FieldsFormat [] fun _ => 0
  | cons {f : Field} {fs : List Field} {size : f.ty → Nat} {sizes : FieldVals fs → Nat} :
      Format f.ty f.toBytes size → FieldsFormat fs sizes →
        FieldsFormat (f :: fs) (fieldsSize size sizes)

/-- The variants of an enum. -/
inductive VariantsFormat : (Int32 → Nat) → (vs : List Variant) → Arms vs →
    (EnumVal vs → Nat) → Prop where
  | nil {tagSize : Int32 → Nat} : VariantsFormat tagSize [] () Empty.elim
  | cons {tagSize : Int32 → Nat} {v : Variant} {vs : List Variant} {tag : Int32}
      {arms : Arms vs} {size : FieldVals v.fields.toList → Nat} {sizes : EnumVal vs → Nat} :
      FieldsFormat v.fields.toList size → VariantsFormat tagSize vs arms sizes →
        VariantsFormat tagSize (v :: vs) (tag, arms) (variantsSize (tagSize tag) size sizes)

end

mutual

/-- Every type of the format is counted. -/
theorem Format.counts : ∀ {α : Type} {i : ToBytes α} {size : α → Nat},
    Format α i size → ∀ a, Counted a (size a)
  | _, _, _, .primitive _ => primitive_counted
  | _, _, _, .bool => bool_counted
  | _, _, _, .uuid => fun uuid => primitive_counted uuid.val
  | _, _, _, .varint => varint_counted
  | _, _, _, .varlong => varlong_counted
  | _, _, _, .string => string_counted
  | _, _, _, .json i => fun value => string_counted (i.toString value.val)
  | _, _, _, .option h => option_counted h.counts
  | _, _, _, .box h => fun b => h.counts b.inner
  | _, _, _, .vec h => vec_counted h.counts
  | _, _, _, .boxSlice h => fun b => elements_counted h.counts b.elems 0
  | _, _, _, .derived _ hD h => fun a => h.counts _ (fun _ => hD.counts _) (Derive.toVal a)

/-- A definition is counted when its tags are. -/
theorem DataFormat.counts : ∀ {tagSize : Int32 → Nat} {d : Data} {arms : d.Arms}
    {size : d.Val → Nat}, DataFormat tagSize d arms size →
    ∀ (D : Type) [ToBytes D] [FromI32 D], (∀ n, Counted (FromI32.fromI32 n : D) (tagSize n)) →
      ∀ x, Counts (deriveToBytes D d arms x) (deriveToBytes D d arms x) 0 (size x)
  | _, _, _, _, .struct h => fun _ _ _ _ x => h.counts x 0
  | _, _, _, _, .enum h => fun D _ _ hD x => h.counts D hD x

/-- Fields in sequence are counted. -/
theorem FieldsFormat.counts : ∀ {fs : List Field} {sizes : FieldVals fs → Nat},
    FieldsFormat fs sizes →
    ∀ x written, Counts (writeFields fs x written) (writeFields fs x written) written (sizes x)
  | _, _, .nil => fun _ written => Counts.pure written
  | _, _, .cons h hs => fun x _ =>
      (h.counts x.1).bind (hs.counts x.2 _)

/-- The arm of a variant is counted, tag and fields. -/
theorem VariantsFormat.counts : ∀ {tagSize : Int32 → Nat} {vs : List Variant} {arms : Arms vs}
    {sizes : EnumVal vs → Nat}, VariantsFormat tagSize vs arms sizes →
    ∀ (D : Type) [ToBytes D] [FromI32 D], (∀ n, Counted (FromI32.fromI32 n : D) (tagSize n)) →
      ∀ x, Counts (writeVariant D vs arms x) (writeVariant D vs arms x) 0 (sizes x)
  | _, _, _, _, .nil => fun _ _ _ _ x => x.elim
  | _, _, _, _, .cons h hs => fun D _ _ hD x => by
      cases x with
      | inl x => exact (hD _).first (h.counts x _)
      | inr x => exact hs.counts D hD x

end

end Bws.Protocol
