import Bws.Base.BigEndian

/-!
# Hexadecimal numerals

The two digits of each byte of a byte string, and the numeral of an integer without leading
zeros. `hex_digits_eq_iff`: the digits of a byte string are the numeral of its big-endian value
exactly when the first digit is not a zero.
-/

namespace Bws.Base

/-- The two digits of a byte. -/
def hexPair (b : UInt8) : List Char := [Nat.digitChar (b.toNat / 16), Nat.digitChar (b.toNat % 16)]

/-- Two lower-case digits for each byte. -/
def hexDigits (bs : Bytes) : List Char := bs.flatMap hexPair

/-- The numeral of an integer in base 16: a sign if it is negative, and no leading zeros. -/
def signedHex (n : Int) : String :=
  (if n < 0 then "-" else "") ++ String.ofList (Nat.toDigits 16 n.natAbs)

/-- The value of bytes in two's complement, the most significant byte first. -/
def BigEndian.signed (bs : Bytes) : Int := (BitVec.ofNat (8 * bs.length) (value bs)).toInt

@[simp] theorem length_hex_digits (bs : Bytes) : (hexDigits bs).length = 2 * bs.length := by
  induction bs with
  | nil => rfl
  | cons b bs ih =>
      have hpair : (hexPair b).length = 2 := rfl
      rw [hexDigits, List.flatMap_cons, List.length_append, List.length_cons, hpair, Nat.mul_succ,
        Nat.add_comm]
      exact congrArg (· + 2) ih

/-- The digits of a byte at the end are those of the number in front of it, and its own two. -/
theorem to_digits_byte {n : Nat} (hn : 0 < n) (b : UInt8) :
    Nat.toDigits 16 (n * 256 + b.toNat) = Nat.toDigits 16 n ++ hexPair b := by
  have hb := b.toNat_lt
  have hlow : (n * 256 + b.toNat) % 16 = b.toNat % 16 := by omega
  have hdiv : (n * 256 + b.toNat) / 16 = n * 16 + b.toNat / 16 := by omega
  have hhigh : (n * 16 + b.toNat / 16) % 16 = b.toNat / 16 := by omega
  have hrest : (n * 16 + b.toNat / 16) / 16 = n := by omega
  rw [Nat.toDigits_of_base_le (by decide) (by omega), hlow, hdiv,
    Nat.toDigits_of_base_le (by decide) (by omega), hhigh, hrest, List.append_assoc]
  rfl

/-- The digits of a byte that does not begin with a zero. -/
theorem to_digits_of_le {b : UInt8} (h : 16 ≤ b.toNat) : Nat.toDigits 16 b.toNat = hexPair b := by
  have hb := b.toNat_lt
  rw [Nat.toDigits_of_base_le (by decide) h, Nat.toDigits_of_lt_base (by omega)]
  rfl

/-- The digits of bytes that do not begin with a zero digit are the numeral of their value. -/
theorem hex_digits_of_le {bs : Bytes} (hne : bs ≠ [])
    (h : 16 ^ (2 * bs.length - 1) ≤ BigEndian.value bs) :
    hexDigits bs = Nat.toDigits 16 (BigEndian.value bs) := by
  induction bs using List.reverseRecOn with
  | nil => exact absurd rfl hne
  | append_singleton bs b ih =>
      rw [hexDigits, List.flatMap_append, List.flatMap_singleton, BigEndian.value_append_singleton]
      rw [BigEndian.value_append_singleton, List.length_append, List.length_singleton] at h
      by_cases hbs : bs = []
      · subst hbs
        have hle : 16 ≤ b.toNat := by simpa using h
        simp [to_digits_of_le hle]
      · -- two digits are a factor of 256
        have hpos := List.length_pos_iff.mpr hbs
        have hpow : 16 ^ (2 * (bs.length + 1) - 1) = 16 ^ (2 * bs.length - 1) * 256 := by
          rw [show 2 * (bs.length + 1) - 1 = 2 * bs.length - 1 + 2 by omega, Nat.pow_add]
        have hb := b.toNat_lt
        have hle : 16 ^ (2 * bs.length - 1) ≤ BigEndian.value bs := by omega
        have hvalue : 0 < BigEndian.value bs := Nat.lt_of_lt_of_le (Nat.pow_pos (by decide)) hle
        rw [to_digits_byte hvalue, ← ih hbs hle]
        rfl

/-- The digits of bytes are the numeral of their value exactly when the first digit is not a
zero. -/
theorem hex_digits_eq_iff {bs : Bytes} (hne : bs ≠ []) :
    hexDigits bs = Nat.toDigits 16 (BigEndian.value bs) ↔
      16 ^ (2 * bs.length - 1) ≤ BigEndian.value bs := by
  constructor
  · intro h
    by_contra hlt
    have hpos := List.length_pos_iff.mpr hne
    have hshort := (Nat.length_toDigits_le_iff (by decide) (by omega)).mpr (Nat.lt_of_not_le hlt)
    rw [← h, length_hex_digits] at hshort
    omega
  · exact hex_digits_of_le hne

/-! ## Negative values -/

/-- The value of bytes in two's complement, by their unsigned value. -/
theorem BigEndian.signed_eq (bs : Bytes) :
    signed bs = if 2 * value bs < 256 ^ bs.length then (value bs : Int)
      else value bs - (256 ^ bs.length : Nat) := by
  have hpow : 2 ^ (8 * bs.length) = 256 ^ bs.length := Nat.pow_mul 2 8 bs.length
  have hlt : value bs < 2 ^ (8 * bs.length) := hpow ▸ value_lt bs
  rw [signed, BitVec.toInt_eq_toNat_cond, BitVec.toNat_ofNat, Nat.mod_eq_of_lt hlt, hpow]

/-- A value that is not negative is the unsigned one. -/
theorem BigEndian.natAbs_of_nonneg {bs : Bytes} (h : ¬ signed bs < 0) :
    (signed bs).natAbs = value bs := by
  have hlt := value_lt bs
  rw [signed_eq] at h ⊢
  split at h
  · next hsmall => rw [if_pos hsmall, Int.natAbs_natCast]
  · omega

/-- Zero is not negative. -/
theorem BigEndian.value_pos_of_neg {bs : Bytes} (h : signed bs < 0) : 0 < value bs := by
  by_contra hzero
  have hpow : 0 < 256 ^ bs.length := Nat.pow_pos (by decide)
  rw [signed_eq, if_pos (by omega)] at h
  omega

/-- The unsigned value and the absolute value of a negative one make up the power. -/
theorem BigEndian.value_add_natAbs {bs : Bytes} (h : signed bs < 0) :
    value bs + (signed bs).natAbs = 256 ^ bs.length := by
  rw [signed_eq] at h ⊢
  split at h
  · omega
  · next hbig =>
      rw [if_neg hbig]
      omega

/-- The first bit of bytes is their sign. -/
theorem BigEndian.signed_neg_iff (b : UInt8) (bs : Bytes) :
    signed (b :: bs) < 0 ↔ 128 ≤ b.toNat := by
  have hrest := value_lt bs
  have hvalue := value_cons b bs
  have hlt := value_lt (b :: bs)
  have hpow : 256 ^ (b :: bs).length = 256 * 256 ^ bs.length := by
    rw [List.length_cons, Nat.pow_succ, Nat.mul_comm]
  rw [signed_eq]
  constructor
  · intro h
    by_contra hb
    have hle : b.toNat * 256 ^ bs.length ≤ 127 * 256 ^ bs.length :=
      Nat.mul_le_mul_right _ (by omega)
    rw [if_pos (by omega)] at h
    omega
  · intro h
    have hle : 128 * 256 ^ bs.length ≤ b.toNat * 256 ^ bs.length := Nat.mul_le_mul_right _ h
    rw [if_neg (by omega)]
    omega

end Bws.Base
