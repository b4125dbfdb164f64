import Bws.Protocol.Derive

/-!
# Newtypes

`BString`, a string that is meant to be at most `max` bytes long, with its four operations,
and `NextState`. Both have derived codecs.
-/

namespace Bws.Protocol

open Bws.Base

variable {max : Nat}

/-- A length-bound string. -/
structure BString (max : Nat) where
  inner : String
  deriving DecidableEq, Repr

instance : Derive (BString max) where
  data := .struct (.unnamed [⟨none, String⟩])
  arms := ()
  toVal s := (s.inner, ())
  ofVal x := ⟨x.1⟩
  ofVal_toVal _ := rfl
  toVal_ofVal _ := rfl

instance : ToBytes (BString max) := derivedToBytes VarInt rfl
instance : FromBytes (BString max) := derivedFromBytes VarInt rfl

namespace BString

/-- Fails if the string is too long. -/
def new (max : Nat) (s : String) : Option (BString max) :=
  if s.utf8ByteSize > max then none else some ⟨s⟩

/-- The string inside. -/
def toInner (s : BString max) : String := s.inner

/-- Run `f` on the string inside, and panic if the result is too long. Whatever `f` or the
check ends in, the string that `f` has left stays inside. -/
def mutate (f : Proc String Unit) : Proc (BString max) Unit :=
  ⟨fun s =>
    match f.run s.inner with
    | (.ok (), inner) =>
        if inner.utf8ByteSize > max then (.panic (.explicit "BString too long"), ⟨inner⟩)
        else (.ok (), ⟨inner⟩)
    | (outcome, inner) => (outcome, ⟨inner⟩)⟩

/-- What the type is for. -/
def Bounded (s : BString max) : Prop := s.inner.utf8ByteSize ≤ max

instance (s : BString max) : Decidable s.Bounded := Nat.decLe _ _

end BString

/-- The state that follows the handshake. -/
inductive NextState where
  | status
  | login
  deriving DecidableEq, Repr

instance : Derive NextState where
  data := .enum [⟨"Status", .unit, some (.litInt 1)⟩, ⟨"Login", .unit, some (.litInt 2)⟩]
  arms := (1, 2, ())
  toVal
    | .status => .inl ()
    | .login => .inr (.inl ())
  ofVal
    | .inl _ => .status
    | .inr (.inl _) => .login
  ofVal_toVal state := by cases state <;> rfl
  toVal_ofVal := by rintro (_ | _ | _ | _) <;> rfl

instance : ToBytes NextState := derivedToBytes VarInt rfl
instance : FromBytes NextState := derivedFromBytes VarInt rfl

end Bws.Protocol
