import Bws.Base.Hexadecimal
import Bws.Protocol.VarInt

/-!
# The session hash

The last step of the login: the digest of the shared secret and the public key is put in the
request to the session server as a signed hexadecimal number. The loop that negates the digest
in place is a fold, and right: `negate_in_place_value`. The digits are printed
with the zeros they begin with: `server_id_canonical_iff`.
-/

namespace Bws.Server.SessionHash

open Bws.Base

/-- What a SHA-1 hasher finalizes to. -/
structure Digest where
  bytes : Bytes
  length_eq : bytes.length = 20
  deriving DecidableEq

/-- One round of the loop that negates: the byte at `i` is complemented, and incremented when the
carry is set, which it stays when the complement is `0xff`. -/
def negateAt : Bytes × Bool → Nat → Bytes × Bool
  | (hash, carry), i =>
      let hash := hash.modify i (~~~ ·)
      if carry then (hash.modify i (· + 1), hash[i]? == some 0xFF) else (hash, carry)

/-- The loop that negates in place, over the indices in reverse. -/
def negateInPlace (hash : Bytes) : Bytes :=
  ((List.range hash.length).reverse.foldl negateAt (hash, true)).1

/-- The `serverId` of the request: the digest is negated in place when its first bit is set, and
printed with `{:x}`. -/
def serverId (lowerHex : Bytes → String) (digest : Digest) : String :=
  let hash := digest.bytes
  let negative := hash.headD 0 &&& 0b10000000 != 0
  let hash := if negative then negateInPlace hash else hash
  (if negative then "-" else "") ++ lowerHex hash

/-- What is documented of `LowerHex` for arrays of bytes: two digits for each byte. -/
def LowerHexDocumented (lowerHex : Bytes → String) : Prop :=
  ∀ bs, lowerHex bs = String.ofList (hexDigits bs)

/-! ## The loop that negates -/

/-- One round of the loop as one of a fold, behind the bytes that are done and the carry out of
them. -/
def negateByte (b : UInt8) : Bytes × Bool → Bytes × Bool
  | (done, carry) =>
      let b := ~~~b
      if carry then ((b + 1) :: done, b == 0xFF) else (b :: done, carry)

/-- The loop as a fold, from the last byte to the first. -/
def twosComplement (hash : Bytes) : Bytes := (hash.foldr negateByte ([], true)).1

/-- A byte and its complement. -/
theorem complement_sum (b : UInt8) : (~~~b).toNat + b.toNat = 255 := by
  have hb := b.toNat_lt
  have hsize : UInt8.size = 256 := rfl
  rw [UInt8.toNat_not]
  omega

/-- A byte and its negation, with the carry out of it. -/
theorem negate_sum (b : UInt8) :
    (~~~b + 1).toNat + (if ~~~b == 0xFF then 256 else 0) + b.toNat = 256 := by
  have hb := b.toNat_lt
  have hsum := complement_sum b
  have hcarry : (~~~b == 0xFF) = true ↔ b.toNat = 0 := by
    rw [beq_iff_eq, ← UInt8.toNat_inj]
    change (~~~b).toNat = 255 ↔ _
    omega
  have hone : (~~~b + 1).toNat = ((~~~b).toNat + 1) % 256 := UInt8.toNat_add _ _
  by_cases hzero : b.toNat = 0
  · rw [if_pos (hcarry.mpr hzero)]
    omega
  · rw [if_neg (fun h => hzero (hcarry.mp h))]
    omega

/-- The bytes that are done and those they come from make up a power, with the carry out. -/
theorem negate_fold (hash : Bytes) :
    ∃ done carry, hash.foldr negateByte ([], true) = (done, carry) ∧
      done.length = hash.length ∧
      BigEndian.value done + (if carry then 256 ^ hash.length else 0) + BigEndian.value hash =
        256 ^ hash.length := by
  induction hash with
  | nil => exact ⟨[], true, rfl, rfl, rfl⟩
  | cons b hash ih =>
      obtain ⟨done, carry, hfold, hlen, hsum⟩ := ih
      have hpow : 256 ^ (b :: hash).length = 256 * 256 ^ hash.length := by
        rw [List.length_cons, Nat.pow_succ, Nat.mul_comm]
      rw [List.foldr_cons, hfold, hpow]
      cases carry with
      | false =>
          refine ⟨~~~b :: done, false, rfl, congrArg (· + 1) hlen, ?_⟩
          have hbyte := congrArg (· * 256 ^ hash.length) (complement_sum b)
          simp only [Nat.add_mul] at hbyte
          rw [if_neg Bool.false_ne_true] at hsum ⊢
          rw [BigEndian.value_cons, BigEndian.value_cons, hlen]
          omega
      | true =>
          refine ⟨(~~~b + 1) :: done, ~~~b == 0xFF, rfl, congrArg (· + 1) hlen, ?_⟩
          have hbyte := congrArg (· * 256 ^ hash.length) (negate_sum b)
          simp only [Nat.add_mul, ite_mul, Nat.zero_mul] at hbyte
          rw [if_pos rfl] at hsum
          rw [BigEndian.value_cons, BigEndian.value_cons, hlen]
          omega

/-- The loop leaves as many bytes as there were. -/
theorem length_twos_complement (hash : Bytes) : (twosComplement hash).length = hash.length := by
  obtain ⟨done, carry, hfold, hlen, -⟩ := negate_fold hash
  rw [twosComplement, hfold]
  exact hlen

/-- The loop leaves the negative of the value, modulo the power. -/
theorem value_twos_complement_mod (hash : Bytes) :
    BigEndian.value (twosComplement hash) =
      (256 ^ hash.length - BigEndian.value hash) % 256 ^ hash.length := by
  obtain ⟨done, carry, hfold, hlen, hsum⟩ := negate_fold hash
  have hlt := BigEndian.value_lt done
  rw [hlen] at hlt
  rw [twosComplement, hfold]
  change BigEndian.value done = _
  cases carry with
  | false =>
      rw [if_neg Bool.false_ne_true, Nat.add_zero] at hsum
      rw [← hsum, Nat.add_sub_cancel, hsum, Nat.mod_eq_of_lt hlt]
  | true =>
      -- the carry is out only of bytes that are all zero
      rw [if_pos rfl] at hsum
      have hdone : BigEndian.value done = 0 := by omega
      have hzero : BigEndian.value hash = 0 := by omega
      rw [hdone, hzero, Nat.sub_zero, Nat.mod_self]

/-- The negative of a value above zero. -/
theorem value_twos_complement {hash : Bytes} (h : 0 < BigEndian.value hash) :
    BigEndian.value (twosComplement hash) + BigEndian.value hash = 256 ^ hash.length := by
  have hlt := BigEndian.value_lt hash
  rw [value_twos_complement_mod, Nat.mod_eq_of_lt (Nat.sub_lt (by omega) h)]
  exact Nat.sub_add_cancel (Nat.le_of_lt hlt)

/-! ## The loop in place -/

/-- The byte behind `front` is the one at its length. -/
theorem modify_length (front done : Bytes) (b : UInt8) (f : UInt8 → UInt8) :
    (front ++ b :: done).modify front.length f = front ++ f b :: done :=
  List.modifyTailIdx_add _ 0 front (b :: done)

/-- A round in place is one of the fold, behind the bytes that are untouched. -/
theorem negate_at_length (front done : Bytes) (b : UInt8) (carry : Bool) :
    negateAt (front ++ b :: done, carry) front.length =
      (front ++ (negateByte b (done, carry)).1, (negateByte b (done, carry)).2) := by
  cases carry with
  | false => simp [negateAt, negateByte, modify_length]
  | true => simp [negateAt, negateByte, modify_length]

/-- The rounds in place over the indices of `front` are those of the fold, which has done the
bytes behind it. -/
theorem negate_rounds (front done : Bytes) (carry : Bool) :
    (List.range front.length).reverse.foldl negateAt (front ++ done, carry) =
      front.foldr negateByte (done, carry) := by
  induction front using List.reverseRecOn generalizing done carry with
  | nil => rfl
  | append_singleton front b ih =>
      have hindices : (List.range (front ++ [b]).length).reverse =
          front.length :: (List.range front.length).reverse := by
        rw [List.length_append, List.length_singleton, List.range_succ, List.reverse_append]
        rfl
      rw [hindices, List.foldl_cons, List.append_assoc, List.singleton_append, negate_at_length,
        ih, List.foldr_append]
      rfl

/-- The loop in place is the fold. -/
theorem negate_in_place_eq (hash : Bytes) : negateInPlace hash = twosComplement hash := by
  have hrounds := negate_rounds hash [] true
  rw [List.append_nil] at hrounds
  rw [negateInPlace, hrounds, twosComplement]

/-- The loop leaves an array of the same length, whose value is the negative of the one before,
modulo the power. -/
theorem negate_in_place_value (hash : Bytes) :
    (negateInPlace hash).length = hash.length ∧
      BigEndian.value (negateInPlace hash) =
        (256 ^ hash.length - BigEndian.value hash) % 256 ^ hash.length := by
  rw [negate_in_place_eq]
  exact ⟨length_twos_complement hash, value_twos_complement_mod hash⟩

example : negateInPlace [0x83, 0x00, 0x01, 0x00] = [0x7C, 0xFF, 0xFF, 0x00] := by decide

/-! ## The text -/

/-- The first bit is tested for the sign. -/
theorem negative_iff (b : UInt8) (hash : Bytes) :
    ((b :: hash).headD 0 &&& 0b10000000 != 0) = true ↔ BigEndian.signed (b :: hash) < 0 := by
  rw [BigEndian.signed_neg_iff, bne_iff_ne, List.headD_cons, Ne, Protocol.high_bit_eq_zero_iff]
  exact Nat.not_lt

/-- The text is the sign of the digest and the digits of its absolute value, two for each
byte. -/
theorem server_id_eq {lowerHex : Bytes → String} (hhex : LowerHexDocumented lowerHex)
    (digest : Digest) :
    ∃ hash : Bytes, hash.length = 20 ∧
      BigEndian.value hash = (BigEndian.signed digest.bytes).natAbs ∧
      serverId lowerHex digest =
        (if BigEndian.signed digest.bytes < 0 then "-" else "") ++
          String.ofList (hexDigits hash) := by
  obtain ⟨bytes, hlen⟩ := digest
  obtain ⟨b, rest, rfl⟩ := List.exists_cons_of_length_eq_add_one hlen
  rw [serverId, hhex]
  by_cases hneg : BigEndian.signed (b :: rest) < 0
  · rw [if_pos hneg]
    simp only [(negative_iff b rest).mpr hneg, if_true, negate_in_place_eq]
    refine ⟨_, (length_twos_complement _).trans hlen, ?_, rfl⟩
    have hsum := value_twos_complement (BigEndian.value_pos_of_neg hneg)
    have habs := BigEndian.value_add_natAbs hneg
    omega
  · rw [if_neg hneg]
    have hpositive : ((b :: rest).headD 0 &&& 0b10000000 != 0) = false := by
      rw [Bool.eq_false_iff, Ne, negative_iff]
      exact hneg
    simp only [hpositive, Bool.false_eq_true, if_false]
    exact ⟨_, hlen, (BigEndian.natAbs_of_nonneg hneg).symm, rfl⟩

/-- The `serverId` of a digest is the canonical hexadecimal numeral of its value exactly when
the absolute value has a first digit that is not a zero. -/
theorem server_id_canonical_iff {lowerHex : Bytes → String} (hhex : LowerHexDocumented lowerHex)
    (digest : Digest) :
    serverId lowerHex digest = signedHex (BigEndian.signed digest.bytes) ↔
      16 ^ 39 ≤ (BigEndian.signed digest.bytes).natAbs := by
  obtain ⟨hash, hlen, hvalue, hid⟩ := server_id_eq hhex digest
  have hne : hash ≠ [] := List.ne_nil_of_length_pos (by omega)
  have hdigits := hex_digits_eq_iff hne
  rw [hlen, hvalue] at hdigits
  rw [hid, signedHex, String.append_right_inj, String.ofList_inj]
  exact hdigits

/-- A printer of bytes as it is documented. -/
def printHex (bs : Bytes) : String := String.ofList (hexDigits bs)

/-- A digest with the first bit set. -/
def negativeDigest : Digest where
  bytes := [0x83, 0x62, 0xA4, 0xFF, 0xBB, 0x3E, 0xCF, 0xEF, 0x65, 0x82, 0xA4, 0x84, 0xA0, 0xA4,
    0xCE, 0x3F, 0xD3, 0xD5, 0x00, 0x00]
  length_eq := rfl

/-- A negative digest is printed as it should be, and so is the carry over its last bytes. -/
theorem server_id_negative :
    serverId printHex negativeDigest = signedHex (BigEndian.signed negativeDigest.bytes) :=
  (server_id_canonical_iff (fun _ => rfl) negativeDigest).mpr (by decide +kernel)

/-- A digest whose first digit is a zero. -/
def paddedDigest : Digest where
  bytes := [0x08, 0x8E, 0x16, 0xA1, 0x01, 0x92, 0x77, 0xB1, 0x5D, 0x58, 0xFA, 0xF0, 0x54, 0x1E,
    0x11, 0x91, 0x0E, 0xB7, 0x56, 0xF6]
  length_eq := rfl

/-- Its text begins with a zero that the numeral does not have. -/
theorem server_id_padded :
    serverId printHex paddedDigest = "088e16a1019277b15d58faf0541e11910eb756f6" ∧
      signedHex (BigEndian.signed paddedDigest.bytes) =
        "88e16a1019277b15d58faf0541e11910eb756f6" ∧
      serverId printHex paddedDigest ≠ signedHex (BigEndian.signed paddedDigest.bytes) := by
  decide +kernel

end Bws.Server.SessionHash
