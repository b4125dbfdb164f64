import Bws.Base.Reader

/-!
# The codec traits

`Write`, `ToBytes` and `FromBytes`. A `ToBytes` implementation is generic in the sink it
writes to, so the same writer fills a growing buffer or a sink that only counts. A
`FromBytes` implementation reads from a byte slice.
-/

namespace Bws.Protocol

open Bws.Base

/-- A sink of bytes: `Write::write_all`. -/
class Write (W : Type) where
  writeAll : Bytes → Proc W Unit

/-- A growing buffer takes every write at its end. -/
instance : Write Bytes where
  writeAll bytes := ⟨fun buf => (.ok (), buf ++ bytes)⟩

@[simp] theorem write_all_bytes (bytes buf : Bytes) :
    (Write.writeAll bytes).run buf = (.ok (), buf ++ bytes) := rfl

/-- Values that can be written, with the count of bytes written as result. -/
class ToBytes (α : Type) where
  writeTo {W : Type} [Write W] : α → Proc W Nat

/-- Values that can be read. -/
class FromBytes (α : Type) where
  readFrom : Reader α

export ToBytes (writeTo)
export FromBytes (readFrom)

/-- Reading undoes writing, in front of every tail that meets `tail`. -/
def RoundTrips (tail : Bytes → Prop) (α : Type) [ToBytes α] [FromBytes α] : Prop :=
  Reader.Undoes tail (writeTo (α := α)) readFrom

/-- Reading undoes writing whatever follows. -/
abbrev RoundTripsAlways (α : Type) [ToBytes α] [FromBytes α] : Prop :=
  RoundTrips (fun _ => True) α

/-- Reading undoes writing at the end of the input. -/
abbrev RoundTripsLast (α : Type) [ToBytes α] [FromBytes α] : Prop :=
  RoundTrips (fun rest => rest = []) α

variable {α : Type} [ToBytes α] [FromBytes α]

/-- A codec that works in front of everything works in front of some tails. -/
theorem RoundTripsAlways.on (h : RoundTripsAlways α) (tail : Bytes → Prop) :
    RoundTrips tail α :=
  Reader.Undoes.mono h fun _ _ => trivial

end Bws.Protocol
