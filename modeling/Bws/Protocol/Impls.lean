import Bws.Base.BigEndian
import Bws.Protocol.VarInt

/-!
# The codecs of the language's own types

Fixed-width integers, `bool`, `Uuid`, strings, options, boxes, length-prefixed vectors and
unprefixed boxed slices. A length is a signed number on the wire that is cast to `usize` and
allocated before any element is read: `as_usize_cases` is what the cast does to it.
-/

namespace Bws.Protocol

open Bws.Base

variable {σ α : Type}

/-- `i32::MAX`. -/
def i32Max : Nat := 2 ^ 31 - 1

/-- `isize::MAX` on the 64-bit targets, the largest size of an allocation in bytes. -/
def isizeMax : Nat := 2 ^ 63 - 1

/-- `n as usize`: the sign is extended to 64 bits. -/
def asUsize (n : Int32) : Nat := (n.toInt % 2 ^ 64).toNat

/-- `std::mem::size_of::<T>()`, in bytes. -/
class Layout (α : Type) where
  sizeOf : Nat

/-- Allocate room for `count` elements of `size` bytes each. -/
def allocate (size count : Nat) : Proc σ Unit :=
  if size * count ≤ isizeMax then pure () else Proc.unwind .capacityOverflow

/-! ## Fixed-width numbers -/

/-- A number type whose values are exactly the words of `size` bytes. -/
class Primitive (α : Type) where
  size : Nat
  toNat : α → Nat
  ofNat : Nat → α
  toNat_lt : ∀ a, toNat a < 256 ^ size
  ofNat_toNat : ∀ a, ofNat (toNat a) = a

/-- `to_be_bytes`, written at once. -/
instance [Primitive α] : ToBytes α where
  writeTo a := do
    let buf := BigEndian.bytes (Primitive.size α) (Primitive.toNat a)
    Write.writeAll buf
    pure buf.length

/-- `from_be_bytes` of a buffer of the type's size. -/
instance [Primitive α] : FromBytes α where
  readFrom := do
    let buf ← Reader.readExact (Primitive.size α)
    pure (Primitive.ofNat (BigEndian.value buf))

instance : Primitive UInt8 := ⟨1, UInt8.toNat, UInt8.ofNat, UInt8.toNat_lt, by simp⟩
instance : Primitive UInt16 := ⟨2, UInt16.toNat, UInt16.ofNat, UInt16.toNat_lt, by simp⟩
instance : Primitive UInt32 := ⟨4, UInt32.toNat, UInt32.ofNat, UInt32.toNat_lt, by simp⟩
instance : Primitive UInt64 := ⟨8, UInt64.toNat, UInt64.ofNat, UInt64.toNat_lt, by simp⟩

/-- `u128`. -/
abbrev U128 := BitVec 128

instance : Primitive U128 :=
  ⟨16, BitVec.toNat, BitVec.ofNat 128, fun a => a.isLt, by simp⟩

instance : Primitive Int8 :=
  ⟨1, fun a => a.toUInt8.toNat, fun n => (UInt8.ofNat n).toInt8,
    fun a => a.toUInt8.toNat_lt, by simp⟩
instance : Primitive Int16 :=
  ⟨2, fun a => a.toUInt16.toNat, fun n => (UInt16.ofNat n).toInt16,
    fun a => a.toUInt16.toNat_lt, by simp⟩
instance : Primitive Int32 :=
  ⟨4, fun a => a.toUInt32.toNat, fun n => (UInt32.ofNat n).toInt32,
    fun a => a.toUInt32.toNat_lt, by simp⟩
instance : Primitive Int64 :=
  ⟨8, fun a => a.toUInt64.toNat, fun n => (UInt64.ofNat n).toInt64,
    fun a => a.toUInt64.toNat_lt, by simp⟩

/-- `i128`, as its two's-complement word. -/
structure I128 where
  bits : BitVec 128
  deriving DecidableEq, Repr

instance : Primitive I128 :=
  ⟨16, fun a => a.bits.toNat, fun n => ⟨BitVec.ofNat 128 n⟩, fun a => a.bits.isLt, by simp⟩

/-- `f32`, as the word that `to_bits` returns. -/
structure F32 where
  bits : UInt32
  deriving DecidableEq, Repr

instance : Primitive F32 :=
  ⟨4, fun a => a.bits.toNat, fun n => ⟨UInt32.ofNat n⟩, fun a => a.bits.toNat_lt, by simp⟩

/-- `f64`, as the word that `to_bits` returns. -/
structure F64 where
  bits : UInt64
  deriving DecidableEq, Repr

instance : Primitive F64 :=
  ⟨8, fun a => a.bits.toNat, fun n => ⟨UInt64.ofNat n⟩, fun a => a.bits.toNat_lt, by simp⟩

/-! ## Booleans, boxes and uuids -/

instance : ToBytes Bool where
  writeTo b := do
    Write.writeAll [if b then 0x01 else 0x00]
    pure 1

instance : FromBytes Bool where
  readFrom := do
    let buf ← Reader.readExact 1
    pure (buf.headD 0 != 0)

/-- `Uuid`, as its 128-bit value. -/
structure Uuid where
  val : U128
  deriving DecidableEq, Repr

instance : ToBytes Uuid where
  writeTo uuid := writeTo uuid.val

instance : FromBytes Uuid where
  readFrom := do
    let val ← readFrom
    pure ⟨val⟩

/-- `Box<T>`. -/
structure Box (α : Type) where
  inner : α
  deriving DecidableEq, Repr

instance [ToBytes α] : ToBytes (Box α) where
  writeTo b := writeTo b.inner

instance [FromBytes α] : FromBytes (Box α) where
  readFrom := do
    let inner ← readFrom
    pure ⟨inner⟩

/-! ## Options -/

instance [ToBytes α] : ToBytes (Option α) where
  writeTo
    | some inner => do
        let tag ← writeTo true
        let written ← writeTo inner
        pure (tag + written)
    | none => writeTo false

instance [FromBytes α] : FromBytes (Option α) where
  readFrom := do
    -- every tag but zero is a `Some`
    let tag ← readFrom (α := Bool)
    if tag then
      let value ← readFrom
      pure (some value)
    else
      pure none

/-! ## Strings -/

/-- `as_bytes`. -/
def asBytes (s : String) : Bytes := s.toByteArray.data.toList

/-- `String::from_utf8`. -/
def fromUtf8 (bytes : Bytes) : Option String := String.fromUTF8? ⟨bytes.toArray⟩

instance : ToBytes String where
  writeTo s :=
    if s.utf8ByteSize > i32Max then
      Proc.fail ⟨.invalidData, "String is too long"⟩
    else do
      let written ← writeTo (⟨Int32.ofNat s.utf8ByteSize⟩ : VarInt)
      Write.writeAll (asBytes s)
      pure (written + s.utf8ByteSize)

instance : FromBytes String where
  readFrom := do
    let length ← readFrom (α := VarInt)
    -- a negative length is cast to more than can be allocated
    allocate 1 (asUsize length.val)
    let buffer ← Reader.readExact (asUsize length.val)
    match fromUtf8 buffer with
    | some string => pure string
    | none => Proc.fail ⟨.invalidData, "String not valid UTF-8"⟩

/-! ## Lists -/

/-- Write the elements in order, adding up the counts. -/
def writeElements [ToBytes α] {W : Type} [Write W] : List α → Nat → Proc W Nat
  | [], written => pure written
  | e :: es, written => do
      let n ← writeTo e
      writeElements es (written + n)

/-- Read `n` elements. -/
def readElements [FromBytes α] : Nat → Reader (List α)
  | 0 => pure []
  | n + 1 => do
      let e ← readFrom
      let es ← readElements n
      pure (e :: es)

/-- `Vec<T>`: written with its length in front. -/
structure Vec (α : Type) where
  elems : List α
  deriving DecidableEq, Repr

instance [ToBytes α] : ToBytes (Vec α) where
  writeTo v :=
    if v.elems.length > i32Max then
      Proc.fail ⟨.invalidData, "Vec is too big"⟩
    else do
      let written ← writeTo (⟨Int32.ofNat v.elems.length⟩ : VarInt)
      writeElements v.elems written

/-- The range `0..length` of a negative length is empty. -/
instance [FromBytes α] [Layout α] : FromBytes (Vec α) where
  readFrom := do
    let length ← readFrom (α := VarInt)
    allocate (Layout.sizeOf α) (asUsize length.val)
    let elems ← readElements length.val.toInt.toNat
    pure ⟨elems⟩

/-- `Box<[T]>`: written without a length. -/
structure BoxSlice (α : Type) where
  elems : List α
  deriving DecidableEq, Repr

instance [ToBytes α] : ToBytes (BoxSlice α) where
  writeTo b := writeElements b.elems 0

/-- One iteration of the loop that reads a `Box<[T]>`: the list ends where an element ends in
`UnexpectedEof`. -/
def readElementOrEof [FromBytes α] (res : List α) : Reader (List α ⊕ List α) := do
  match ← Proc.attempt (readFrom (α := α)) with
  | .ok element => pure (.inl (res ++ [element]))
  | .error e => if e.kind = ErrorKind.unexpectedEof then pure (.inr res) else Proc.fail e

/-- The loop that reads a `Box<[T]>`. While each element takes a byte, the iterations are at
most one more than the bytes; an element that takes none is read for ever. -/
instance [FromBytes α] : FromBytes (BoxSlice α) where
  readFrom := (fun elems => ⟨elems⟩) <$>
    (⟨fun s => (Proc.loop readElementOrEof (s.length + 1) []).run s⟩ : Reader (List α))

/-- `size_of::<u8>()`. -/
instance : Layout UInt8 := ⟨1⟩

example : (readFrom : Reader (Vec UInt8)).run [2, 7, 8, 9] = (.ok ⟨[7, 8]⟩, [9]) := by decide

example : (readFrom : Reader (Option (BoxSlice UInt8))).run [5, 7, 8] =
    (.ok (some ⟨[7, 8]⟩), []) := by decide

/-! ## Strings, lengths and allocations -/

@[simp] theorem length_as_bytes (s : String) : (asBytes s).length = s.utf8ByteSize := rfl

/-- The bytes of a string are the valid UTF-8 that decodes to it. -/
theorem from_utf8_eq_some_iff {bytes : Bytes} {s : String} :
    fromUtf8 bytes = some s ↔ asBytes s = bytes := by
  unfold fromUtf8 String.fromUTF8? asBytes
  constructor
  · intro h
    split at h
    · cases h
      rfl
    · cases h
  · rintro rfl
    have hvalid : (⟨s.toByteArray.data.toList.toArray⟩ : ByteArray).IsValidUTF8 := s.isValidUTF8
    rw [dif_pos hvalid]
    rfl

/-- A length that fits a signed 32-bit number keeps its value through the casts. -/
theorem length_casts {n : Nat} (h : n ≤ i32Max) :
    (Int32.ofNat n).toInt = n ∧ asUsize (Int32.ofNat n) = n := by
  have hint : (Int32.ofNat n).toInt = n := by
    rw [Int32.toInt_ofNat_of_lt]
    unfold i32Max at h
    omega
  refine ⟨hint, ?_⟩
  rw [asUsize, hint]
  unfold i32Max at h
  omega

/-- An allocation of a small size succeeds. -/
theorem allocate_of_le {size count : Nat} (h : size * count ≤ isizeMax) :
    (allocate size count : Proc σ Unit) = pure () := if_pos h

/-- The casts of a signed length: its value, or more than any allocation. -/
theorem as_usize_cases (n : Int32) :
    (0 ≤ n.toInt ∧ (asUsize n : Int) = n.toInt ∧ asUsize n ≤ i32Max) ∨
      (n.toInt < 0 ∧ isizeMax < asUsize n) := by
  have hlow := n.le_toInt
  have hhigh := n.toInt_lt
  unfold asUsize i32Max isizeMax
  by_cases h : 0 ≤ n.toInt
  · left
    omega
  · right
    omega

/-- A length that is not negative is the number of its elements. -/
theorem as_usize_of_nonneg {n : Int32} (h : 0 ≤ n.toInt) : asUsize n = n.toInt.toNat := by
  obtain ⟨-, heq, -⟩ | ⟨hneg, -⟩ := as_usize_cases n <;> omega

/-- Room for a length of elements that take between one byte and 4 GiB each is allocated
exactly when the length is not negative. -/
theorem allocate_length {size : Nat} (hpos : 0 < size) (hsize : size ≤ 2 ^ 32) (n : Int32) :
    (allocate size (asUsize n) : Proc σ Unit) =
      if 0 ≤ n.toInt then pure () else Proc.unwind .capacityOverflow := by
  obtain ⟨hnonneg, -, hsmall⟩ | ⟨hneg, hbig⟩ := as_usize_cases n
  · have hfit : size * asUsize n ≤ isizeMax :=
      (Nat.mul_le_mul hsize hsmall).trans (by decide)
    rw [allocate_of_le hfit, if_pos hnonneg]
  · have hover : ¬ size * asUsize n ≤ isizeMax :=
      Nat.not_le_of_lt (Nat.lt_of_lt_of_le hbig (Nat.le_mul_of_pos_left _ hpos))
    rw [allocate, if_neg hover, if_neg (by omega)]

end Bws.Protocol
