import Bws.Base.Reader
import Mathlib.Algebra.Group.Nat.Defs
import Mathlib.Data.List.Induction

/-!
# Big-endian words

`bytes n x` is the `n`-byte big-endian form of `x` modulo `256 ^ n`, and `value` reads such a
form. They are inverse on the byte strings of length `n` and the numbers below `256 ^ n`.
-/

namespace Bws.Base.BigEndian

/-- The `n` low bytes of `x`, most significant first. -/
def bytes : Nat → Nat → Bytes
  | 0, _ => []
  | n + 1, x => bytes n (x / 256) ++ [UInt8.ofNat x]

/-- The number whose base-256 digits, most significant first, are the bytes. -/
def value (bs : Bytes) : Nat := bs.foldl (fun acc b => acc * 256 + b.toNat) 0

@[simp] theorem value_nil : value [] = 0 := rfl

theorem value_append_singleton (bs : Bytes) (b : UInt8) :
    value (bs ++ [b]) = value bs * 256 + b.toNat := by
  simp [value]

/-- The first byte is the most significant one. -/
theorem value_cons (b : UInt8) (bs : Bytes) :
    value (b :: bs) = b.toNat * 256 ^ bs.length + value bs := by
  induction bs using List.reverseRecOn with
  | nil => simp [value]
  | append_singleton bs c ih =>
      rw [← List.cons_append, value_append_singleton, value_append_singleton, ih,
        List.length_append, List.length_singleton, Nat.pow_succ, ← Nat.mul_assoc, Nat.add_mul,
        Nat.add_assoc]

@[simp] theorem length_bytes (n x : Nat) : (bytes n x).length = n := by
  induction n generalizing x with
  | zero => rfl
  | succ n ih => simp [bytes, ih]

/-- `n` bytes stay below `256 ^ n`. -/
theorem value_lt (bs : Bytes) : value bs < 256 ^ bs.length := by
  induction bs using List.reverseRecOn with
  | nil => simp
  | append_singleton bs b ih =>
      rw [value_append_singleton, List.length_append, List.length_singleton, Nat.pow_succ]
      have hb : b.toNat < 256 := b.toNat_lt
      omega

/-- The `n`-byte form of `x` reads as `x` modulo `256 ^ n`. -/
theorem value_bytes_mod (n x : Nat) : value (bytes n x) = x % 256 ^ n := by
  induction n generalizing x with
  | zero => rw [bytes, value_nil, Nat.pow_zero, Nat.mod_one]
  | succ n ih =>
      have hmod : x % 256 ^ (n + 1) = x % 256 + 256 * (x / 256 % 256 ^ n) := by
        rw [Nat.pow_succ' (n := n), Nat.mod_mul]
      rw [bytes, value_append_singleton, ih, UInt8.toNat_ofNat', hmod]
      omega

/-- A number that fits is read back. -/
theorem value_bytes {n x : Nat} (h : x < 256 ^ n) : value (bytes n x) = x := by
  rw [value_bytes_mod, Nat.mod_eq_of_lt h]

/-- A byte is a number of one byte. -/
theorem read_byte_eq :
    Reader.readByte = UInt8.ofNat <$> value <$> Reader.readExact 1 := by
  ext1
  funext s
  cases s with
  | nil => rfl
  | cons b s =>
      have hvalue : UInt8.ofNat (value [b]) = b := by simp [value]
      have hexact : (Reader.readExact 1).run (b :: s) = (.ok [b], s) :=
        Reader.read_exact_append [b] s
      rw [Proc.map_of_ok (Proc.map_of_ok hexact _), hvalue]
      rfl

end Bws.Base.BigEndian
