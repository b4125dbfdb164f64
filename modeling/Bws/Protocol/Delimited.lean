import Bws.Base.Forward
import Bws.Protocol.Impls

/-!
# Self-delimiting codecs

All the codecs of the language's own types but the unprefixed list read a value off the front
of their input and nothing behind it, and report `UnexpectedEof` on every input that stops
short. The readers are composed, so each lemma follows the reader, and holds of every law that
the parts meet.
-/

namespace Bws.Protocol

open Bws.Base

variable {α : Type}

/-! ## What the readers are composed of -/

section Composed

variable {P : ∀ {γ : Type}, Reader γ → Prop} (hP : Reader.Compositional P)

include hP

/-- An iteration of the loop that reads a number. -/
theorem read_group_composed {w : Nat} (tooBig : Nat → Bool) (message : String)
    (state : Nat × BitVec w) : P (readGroup tooBig message Reader.readByte state) :=
  hP.ite (hP.fail _ (by simp)) (hP.bind hP.readByte fun byte =>
    hP.bind (hP.ite (hP.pure _) (hP.unwind _)) fun shifted => hP.ite (hP.pure _) (hP.pure _))

/-- `VarInt`. -/
theorem varint_composed (hend : ∀ {γ : Type}, P (Proc.diverge : Reader γ)) :
    P (readFrom : Reader VarInt) :=
  hP.map (hP.loop (read_group_composed hP _ _) hend 6 _) _

/-- `VarLong`. -/
theorem varlong_composed (hend : ∀ {γ : Type}, P (Proc.diverge : Reader γ)) :
    P (readFrom : Reader VarLong) :=
  hP.map (hP.loop (read_group_composed hP _ _) hend 12 _) _

/-- An allocation reads nothing. -/
theorem allocate_composed (size count : Nat) : P (allocate size count : Reader Unit) :=
  hP.ite (hP.pure _) (hP.unwind _)

/-- Fixed-width numbers. -/
theorem primitive_composed [Primitive α] : P (readFrom : Reader α) :=
  hP.bind (hP.readExact _) fun _ => hP.pure _

/-- Booleans. -/
theorem bool_composed : P (readFrom : Reader Bool) :=
  hP.bind (hP.readExact _) fun _ => hP.pure _

/-- Uuids. -/
theorem uuid_composed : P (readFrom : Reader Uuid) :=
  hP.bind (primitive_composed hP) fun _ => hP.pure _

/-- Options, by their content. -/
theorem option_composed [FromBytes α] (h : P (readFrom : Reader α)) :
    P (readFrom : Reader (Option α)) :=
  hP.bind (bool_composed hP) fun _ => hP.ite (hP.bind h fun _ => hP.pure _) (hP.pure _)

/-- Strings, by their length: whether the bytes are UTF-8 is checked when all are read. -/
theorem string_composed (h : P (readFrom : Reader VarInt)) : P (readFrom : Reader String) := by
  refine hP.bind h fun length => hP.bind (allocate_composed hP _ _) fun _ =>
    hP.bind (hP.readExact _) fun buffer => ?_
  cases fromUtf8 buffer with
  | none => exact hP.fail _ (by decide)
  | some string => exact hP.pure string

variable [FromBytes α]

/-- A number of elements. -/
theorem elements_composed (h : P (readFrom : Reader α)) :
    ∀ n, P (readElements n : Reader (List α))
  | 0 => hP.pure _
  | n + 1 => hP.bind h fun _ => hP.bind (elements_composed h n) fun _ => hP.pure _

/-- Vectors, by their length and their elements. -/
theorem vec_composed [Layout α] (hlength : P (readFrom : Reader VarInt))
    (h : P (readFrom : Reader α)) : P (readFrom : Reader (Vec α)) :=
  hP.bind hlength fun _ => hP.bind (allocate_composed hP _ _) fun _ =>
    hP.bind (elements_composed hP h _) fun _ => hP.pure _

end Composed

/-! ## Self-delimitation -/

/-- A `VarInt` is self-delimiting. -/
theorem varint_self_delimiting : Reader.SelfDelimiting (readFrom : Reader VarInt) :=
  varint_composed Reader.SelfDelimiting.compositional .diverge

/-- Fixed-width numbers are self-delimiting. -/
theorem primitive_self_delimiting [Primitive α] :
    Reader.SelfDelimiting (readFrom : Reader α) :=
  primitive_composed Reader.SelfDelimiting.compositional

/-- Uuids are self-delimiting. -/
theorem uuid_self_delimiting : Reader.SelfDelimiting (readFrom : Reader Uuid) :=
  uuid_composed Reader.SelfDelimiting.compositional

/-- Options of self-delimiting content are self-delimiting. -/
theorem option_self_delimiting [FromBytes α]
    (h : Reader.SelfDelimiting (readFrom : Reader α)) :
    Reader.SelfDelimiting (readFrom : Reader (Option α)) :=
  option_composed Reader.SelfDelimiting.compositional h

/-- Strings are self-delimiting. -/
theorem string_self_delimiting : Reader.SelfDelimiting (readFrom : Reader String) :=
  string_composed Reader.SelfDelimiting.compositional varint_self_delimiting

/-- Vectors of self-delimiting elements are self-delimiting. -/
theorem vec_self_delimiting [FromBytes α] [Layout α]
    (h : Reader.SelfDelimiting (readFrom : Reader α)) :
    Reader.SelfDelimiting (readFrom : Reader (Vec α)) :=
  vec_composed Reader.SelfDelimiting.compositional varint_self_delimiting h

end Bws.Protocol
