import Bws.Base.Leb128
import Bws.Protocol.Traits

/-!
# Variable-length integers

`VarInt::write_to` and `VarInt::read_from`, as loops over 32-bit words. `writeGroup` and
`readGroup` are one iteration of the two loops for any word width: the 64-bit loops and the
loop that reads a frame's length are the same text at other widths, limits and sources.

`VarInt.read_from_ok_iff` says on which inputs the reader succeeds and with which number, in
terms of base-128 numerals only.
-/

namespace Bws.Protocol

open Bws.Base

/-- A 32-bit integer in its variable-length encoding. -/
structure VarInt where
  val : Int32
  deriving DecidableEq, Repr

/-- A 64-bit integer in its variable-length encoding. -/
structure VarLong where
  val : Int64
  deriving DecidableEq

variable {w : Nat} {σ : Type}

/-- `value << amount`, which unwinds when the amount reaches the width. -/
def shl (value : BitVec w) (amount : Nat) : Proc σ (BitVec w) :=
  if amount < w then pure (value <<< amount) else Proc.unwind .shiftOverflow

/-- One iteration of `write_to`: emit the low seven bits of `value`. -/
def writeGroup {W : Type} [Write W] : BitVec w × Nat → Proc W ((BitVec w × Nat) ⊕ Nat)
  | (value, i) => do
      let temp := UInt8.ofBitVec ((value &&& BitVec.ofNat w 0b01111111).setWidth 8)
      let value := value >>> 7
      let temp := if value ≠ 0 then temp ||| 0b10000000 else temp
      Write.writeAll [temp]
      let i := i + 1
      if value = 0 then pure (.inr i) else pure (.inl (value, i))

/-- One iteration of `read_from`: `tooBig` is the check on the count of bytes read so far. -/
def readGroup (tooBig : Nat → Bool) (message : String) (readU8 : Proc σ UInt8) :
    Nat × BitVec w → Proc σ ((Nat × BitVec w) ⊕ BitVec w)
  | (numRead, result) =>
      if tooBig numRead then Proc.fail ⟨.invalidData, message⟩ else do
        let byte ← readU8
        let value := (byte &&& 0b01111111).toBitVec.setWidth w
        let shifted ← shl value (7 * numRead)
        let result := result ||| shifted
        let numRead := numRead + 1
        if byte &&& 0b10000000 = 0 then pure (.inr result) else pure (.inl (numRead, result))

/-- `VarInt::write_to`. Five iterations empty a 32-bit word. -/
instance : ToBytes VarInt where
  writeTo v := Proc.loop writeGroup 5 (v.val.toBitVec, 0)

/-- `VarInt::read_from`. The check on `num_read` ends the loop in its sixth iteration. -/
instance : FromBytes VarInt where
  readFrom := (fun result => ⟨Int32.ofBitVec result⟩) <$>
    Proc.loop (readGroup (w := 32) (· == 5) "VarInt is too big" Reader.readByte) 6 (0, 0)

/-- `VarLong::write_to`. Ten iterations empty a 64-bit word. -/
instance : ToBytes VarLong where
  writeTo v := Proc.loop writeGroup 10 (v.val.toBitVec, 0)

/-- `VarLong::read_from`. The check on `num_read` would end the loop in its twelfth iteration,
and lets an eleventh byte pass. -/
instance : FromBytes VarLong where
  readFrom := (fun result => ⟨Int64.ofBitVec result⟩) <$>
    Proc.loop (readGroup (w := 64) (10 < ·) "VarLong is too big" Reader.readByte) 12 (0, 0)

example : (writeTo (⟨25565⟩ : VarInt) : Proc Bytes Nat).run [] = (.ok 3, [0xDD, 0xC7, 0x01]) := by
  decide

example : (readFrom : Reader VarInt).run [0xFF, 0xFF, 0xFF, 0xFF, 0x0F, 7] = (.ok ⟨-1⟩, [7]) := by
  decide

/-! ## The groups of seven bits -/

/-- The low seven bits of a word, as a byte. -/
theorem low_bits_toNat (hw : 8 ≤ w) (value : BitVec w) :
    (UInt8.ofBitVec ((value &&& BitVec.ofNat w 0b01111111).setWidth 8)).toNat =
      value.toNat % 128 := by
  have hsmall : 127 < 2 ^ w :=
    Nat.lt_of_lt_of_le (by decide : 127 < 2 ^ 8) (Nat.pow_le_pow_right (by decide) hw)
  have hand : value.toNat &&& 127 = value.toNat % 128 :=
    Nat.and_two_pow_sub_one_eq_mod value.toNat 7
  simp only [UInt8.toNat_ofBitVec, BitVec.toNat_setWidth, BitVec.toNat_and, BitVec.toNat_ofNat,
    Nat.mod_eq_of_lt hsmall, hand]
  omega

/-- Setting the high bit of a seven-bit byte. -/
theorem or_high_bit_toNat (b : UInt8) (h : b.toNat < 128) :
    (b ||| 0b10000000).toNat = b.toNat + 128 := by
  have hor : 128 + b.toNat = 128 ||| b.toNat := Nat.two_pow_add_eq_or_of_lt (i := 7) h 1
  change (b ||| 128).toNat = b.toNat + 128
  rw [UInt8.toNat_or, Nat.add_comm, hor, Nat.or_comm]
  rfl

/-- The data bits of a byte. -/
theorem data_bits_toNat (b : UInt8) : (b &&& 0b01111111).toNat = b.toNat % 128 := by
  rw [UInt8.toNat_and]
  exact Nat.and_two_pow_sub_one_eq_mod b.toNat 7

/-- The high bit is clear exactly on the bytes below 128. -/
theorem high_bit_eq_zero_iff (b : UInt8) : b &&& 0b10000000 = 0 ↔ b.toNat < 128 := by
  have hbytes : ∀ n : Fin 256, n.val &&& 128 = 0 ↔ n.val < 128 := by decide +kernel
  rw [← UInt8.toNat_inj, UInt8.toNat_and]
  exact hbytes ⟨b.toNat, b.toNat_lt⟩

/-- Adding a group above an accumulator that fits below it. -/
theorem or_group (hw : 8 ≤ w) {acc s : Nat} (hacc : acc < 2 ^ s) (b : UInt8) :
    BitVec.ofNat w acc ||| ((b &&& 0b01111111).toBitVec.setWidth w <<< s) =
      BitVec.ofNat w (acc + 2 ^ s * (b.toNat % 128)) := by
  have hdigit : (b &&& 0b01111111).toNat % 2 ^ w = b.toNat % 128 := by
    have hlt : b.toNat % 128 < 2 ^ w :=
      calc b.toNat % 128 < 2 ^ 8 := by omega
        _ ≤ 2 ^ w := Nat.pow_le_pow_right (by decide) hw
    rw [data_bits_toNat, Nat.mod_eq_of_lt hlt]
  have hor : acc ||| 2 ^ s * (b.toNat % 128) = acc + 2 ^ s * (b.toNat % 128) := by
    rw [Nat.add_comm, Nat.two_pow_add_eq_or_of_lt hacc, Nat.or_comm]
  apply BitVec.eq_of_toNat_eq
  rw [BitVec.toNat_or, BitVec.toNat_shiftLeft, BitVec.toNat_setWidth, UInt8.toNat_toBitVec,
    hdigit, BitVec.toNat_ofNat, BitVec.toNat_ofNat, ← Nat.or_mod_two_pow, Nat.shiftLeft_eq,
    Nat.mul_comm _ (2 ^ s), hor]

/-! ## The writer -/

/-- Write the bytes one at a time. -/
def writeEach {W : Type} [Write W] : Bytes → Proc W Unit
  | [] => pure ()
  | b :: bs => do
      Write.writeAll [b]
      writeEach bs

/-- Bytes written one at a time into a buffer arrive in order at its end. -/
theorem write_each_bytes (bs buf : Bytes) : (writeEach bs).run buf = (.ok (), buf ++ bs) := by
  induction bs generalizing buf with
  | nil => simp [writeEach]
  | cons b bs ih =>
      rw [writeEach, Proc.bind_of_ok (write_all_bytes [b] buf), ih, List.append_assoc]
      rfl

variable {W : Type} [Write W]

/-- The iteration that breaks. -/
theorem write_group_of_lt (hw : 8 ≤ w) {value : BitVec w} (h : value.toNat < 128) (i : Nat) :
    writeGroup (W := W) (value, i) = (do
      Write.writeAll [UInt8.ofNat value.toNat]
      pure (.inr (i + 1))) := by
  have hshift : value >>> 7 = 0 := by
    apply BitVec.eq_of_toNat_eq
    rw [BitVec.toNat_ushiftRight, Nat.shiftRight_eq_div_pow]
    simp
    omega
  have hbyte : UInt8.ofBitVec ((value &&& BitVec.ofNat w 0b01111111).setWidth 8) =
      UInt8.ofNat value.toNat := by
    rw [← UInt8.toNat_inj, low_bits_toNat hw, UInt8.toNat_ofNat']
    omega
  simp only [writeGroup, hshift, hbyte, ne_eq, not_true_eq_false, if_false, if_true]

/-- The iteration that continues. -/
theorem write_group_of_le (hw : 8 ≤ w) {value : BitVec w} (h : 128 ≤ value.toNat) (i : Nat) :
    writeGroup (W := W) (value, i) = (do
      Write.writeAll [UInt8.ofNat (value.toNat % 128 + 128)]
      pure (.inl (value >>> 7, i + 1))) := by
  have hshift : value >>> 7 ≠ 0 := by
    intro hzero
    have hnat := congrArg BitVec.toNat hzero
    rw [BitVec.toNat_ushiftRight, Nat.shiftRight_eq_div_pow] at hnat
    simp at hnat
    omega
  have hbyte : UInt8.ofBitVec ((value &&& BitVec.ofNat w 0b01111111).setWidth 8) |||
      0b10000000 = UInt8.ofNat (value.toNat % 128 + 128) := by
    have hlow := low_bits_toNat hw value
    rw [← UInt8.toNat_inj, or_high_bit_toNat _ (by omega), hlow, UInt8.toNat_ofNat']
    omega
  simp only [writeGroup, hbyte, ne_eq, hshift, not_false_eq_true, if_true, if_false]

/-- Given enough iterations, the loop writes the shortest numeral and counts its bytes. -/
theorem write_loop_eq (hw : 8 ≤ w) {fuel : Nat} {value : BitVec w} {i : Nat}
    (h : value.toNat < 128 ^ (fuel + 1)) :
    Proc.loop (writeGroup (W := W)) (fuel + 1) (value, i) = (do
      writeEach (Leb128.encode value.toNat)
      pure (i + (Leb128.encode value.toNat).length)) := by
  induction fuel generalizing value i with
  | zero =>
      have hlt : value.toNat < 128 := by simpa using h
      simp [Proc.loop_succ, write_group_of_lt hw hlt, Leb128.encode_of_lt hlt, writeEach]
  | succ fuel ih =>
      by_cases hlt : value.toNat < 128
      · simp [Proc.loop_succ, write_group_of_lt hw hlt, Leb128.encode_of_lt hlt, writeEach]
      · have hle : 128 ≤ value.toNat := Nat.le_of_not_lt hlt
        have hdiv : (value >>> 7).toNat = value.toNat / 128 := by
          rw [BitVec.toNat_ushiftRight, Nat.shiftRight_eq_div_pow]
        have hnext : (value >>> 7).toNat < 128 ^ (fuel + 1) := by
          rw [hdiv, Nat.div_lt_iff_lt_mul (by decide), ← Nat.pow_succ]
          exact h
        rw [Proc.loop_succ, write_group_of_le hw hle, Leb128.encode_of_le hle]
        simp only [bind_assoc, pure_bind, ih hnext, hdiv, writeEach, List.length_cons,
          Nat.add_assoc, Nat.add_comm 1]

/-! ## The reader -/

variable (tooBig : Nat → Bool) (message : String)

/-- One iteration of the reader, on a byte. -/
theorem read_group_cons (hw : 8 ≤ w) {i acc : Nat} (hbig : tooBig i = false)
    (hshift : 7 * i < w) (hacc : acc < 2 ^ (7 * i)) (b : UInt8) (rest : Bytes) :
    (readGroup tooBig message Reader.readByte (i, BitVec.ofNat w acc)).run (b :: rest) =
      (.ok (if b.toNat < 128 then .inr (BitVec.ofNat w (acc + 2 ^ (7 * i) * (b.toNat % 128)))
        else .inl (i + 1, BitVec.ofNat w (acc + 2 ^ (7 * i) * (b.toNat % 128)))), rest) := by
  simp only [readGroup, hbig, shl, if_pos hshift, high_bit_eq_zero_iff, Bool.false_eq_true,
    if_false]
  rw [Proc.bind_of_ok (Reader.read_byte_cons b rest)]
  rw [pure_bind, or_group hw hacc]
  split <;> rfl

/-- At the end of the input an iteration that passes the length check reports it. -/
theorem read_group_nil {i : Nat} (result : BitVec w) (hbig : tooBig i = false) :
    (readGroup tooBig message Reader.readByte (i, result)).run [] = (.err Reader.eof, []) := by
  simp only [readGroup, hbig, Bool.false_eq_true, if_false]
  rw [Proc.bind_of_err Reader.read_byte_nil]

/-- The iterations `i` to `i + k - 1` pass the length check and shift by less than `w`. -/
def GroupsFit (tooBig : Nat → Bool) (w i k : Nat) : Prop :=
  ∀ j, i ≤ j → j < i + k → tooBig j = false ∧ 7 * j < w

theorem GroupsFit.head {tooBig : Nat → Bool} {i k : Nat} (h : GroupsFit tooBig w i (k + 1)) :
    tooBig i = false ∧ 7 * i < w :=
  h i (Nat.le_refl i) (by omega)

theorem GroupsFit.tail {tooBig : Nat → Bool} {i k : Nat} (h : GroupsFit tooBig w i (k + 1)) :
    GroupsFit tooBig w (i + 1) k :=
  fun j hi hk => h j (by omega) (by omega)

/-- A group added on top of an accumulator keeps it below the next group. -/
theorem acc_lt {i acc : Nat} (hacc : acc < 2 ^ (7 * i)) (b : UInt8) :
    acc + 2 ^ (7 * i) * (b.toNat % 128) < 2 ^ (7 * (i + 1)) := by
  have hdigit : b.toNat % 128 + 1 ≤ 128 := by omega
  calc acc + 2 ^ (7 * i) * (b.toNat % 128)
      < 2 ^ (7 * i) * (b.toNat % 128 + 1) := by rw [Nat.mul_add]; omega
    _ ≤ 2 ^ (7 * i) * 128 := Nat.mul_le_mul_left _ hdigit
    _ = 2 ^ (7 * (i + 1)) := by rw [show 7 * (i + 1) = 7 * i + 7 by omega, Nat.pow_add]

/-- The number a numeral adds above an accumulator, split at its first byte. -/
theorem acc_cons (i acc : Nat) (b : UInt8) (bs : Bytes) :
    acc + 2 ^ (7 * i) * (b.toNat % 128) + 2 ^ (7 * (i + 1)) * Leb128.value bs =
      acc + 2 ^ (7 * i) * Leb128.value (b :: bs) := by
  rw [show 7 * (i + 1) = 7 * i + 7 by omega, Nat.pow_add, Leb128.value]
  ring

/-- The loop returns the value of the numeral at the front of its input. -/
theorem read_loop_terminated (hw : 8 ≤ w) {p : Bytes} (hp : Leb128.Terminated p)
    (fuel i acc : Nat) (hfuel : p.length ≤ fuel) (hfit : GroupsFit tooBig w i p.length)
    (hacc : acc < 2 ^ (7 * i)) (rest : Bytes) :
    (Proc.loop (readGroup tooBig message Reader.readByte) fuel (i, BitVec.ofNat w acc)).run
        (p ++ rest) =
      (.ok (BitVec.ofNat w (acc + 2 ^ (7 * i) * Leb128.value p)), rest) := by
  -- `acc` is the value of the `i` groups that have been read, and stays below the next one
  induction hp generalizing fuel i acc with
  | last b hb =>
      obtain ⟨fuel, rfl⟩ := Nat.exists_eq_add_of_le' hfuel
      obtain ⟨hbig, hshift⟩ := hfit.head
      have hstep := read_group_cons tooBig message hw hbig hshift hacc b rest
      rw [if_pos hb] at hstep
      change (Proc.loop _ (fuel + 1) _).run (b :: rest) = _
      rw [Proc.loop_succ, Proc.bind_of_ok hstep]
      simp [Leb128.value]
  | more b bs hb hbs ih =>
      rw [List.length_cons] at hfuel
      obtain ⟨fuel, rfl⟩ : ∃ k, fuel = k + 1 := ⟨fuel - 1, by omega⟩
      obtain ⟨hbig, hshift⟩ := hfit.head
      have hstep := read_group_cons tooBig message hw hbig hshift hacc b (bs ++ rest)
      rw [if_neg (Nat.not_lt_of_le hb)] at hstep
      change (Proc.loop _ (fuel + 1) _).run (b :: (bs ++ rest)) = _
      rw [Proc.loop_succ, Proc.bind_of_ok hstep]
      have hrec := ih _ (i + 1) _ (Nat.le_of_succ_le_succ hfuel) hfit.tail (acc_lt hacc b)
      rw [acc_cons] at hrec
      exact hrec

/-- The loop walks over continued bytes. -/
theorem read_loop_continued (hw : 8 ≤ w) {q : Bytes} (hq : Leb128.Continued q)
    (fuel i acc : Nat) (hfit : GroupsFit tooBig w i q.length) (hacc : acc < 2 ^ (7 * i))
    (rest : Bytes) :
    ∃ acc', (Proc.loop (readGroup tooBig message Reader.readByte) (q.length + fuel)
        (i, BitVec.ofNat w acc)).run (q ++ rest) =
      (Proc.loop (readGroup tooBig message Reader.readByte) fuel
        (i + q.length, BitVec.ofNat w acc')).run rest := by
  induction q generalizing i acc with
  | nil => exact ⟨acc, by simp⟩
  | cons b bs ih =>
      have hb : 128 ≤ b.toNat := hq b (by simp)
      obtain ⟨hbig, hshift⟩ := hfit.head
      have hstep := read_group_cons tooBig message hw hbig hshift hacc b (bs ++ rest)
      rw [if_neg (Nat.not_lt_of_le hb)] at hstep
      obtain ⟨acc', hrec⟩ := ih (fun c hc => hq c (by simp [hc])) (i + 1) _ hfit.tail
        (acc_lt hacc b)
      refine ⟨acc', ?_⟩
      rw [List.length_cons, show bs.length + 1 + fuel = bs.length + fuel + 1 by omega]
      change (Proc.loop _ (bs.length + fuel + 1) _).run (b :: (bs ++ rest)) = _
      rw [Proc.loop_succ, Proc.bind_of_ok hstep]
      rw [show i + 1 + bs.length = i + (bs.length + 1) by omega] at hrec
      exact hrec

/-- Fewer groups fit when more do. -/
theorem GroupsFit.mono {tooBig : Nat → Bool} {i k k' : Nat} (h : GroupsFit tooBig w i k)
    (hle : k' ≤ k) : GroupsFit tooBig w i k' :=
  fun j hi hk => h j hi (by omega)

/-- The loop drains an input of fewer continued bytes than it has groups, and reports its end. -/
theorem read_loop_ends_early (hw : 8 ≤ w) {k : Nat} (hfit : GroupsFit tooBig w 0 k) {s : Bytes}
    (hs : Leb128.Continued s) (hlen : s.length < k) (fuel : Nat) (hfuel : s.length < fuel) :
    (Proc.loop (readGroup tooBig message Reader.readByte) fuel (0, BitVec.ofNat w 0)).run s =
      (.err Reader.eof, []) := by
  obtain ⟨fuel, rfl⟩ : ∃ more, fuel = s.length + (more + 1) :=
    ⟨fuel - (s.length + 1), by omega⟩
  obtain ⟨acc, hloop⟩ := read_loop_continued tooBig message hw hs (fuel + 1) 0 0
    (hfit.mono (Nat.le_of_lt hlen)) (by decide) []
  have hbig : tooBig (0 + s.length) = false := (hfit _ (Nat.zero_le _) (by omega)).1
  have hend := read_group_nil tooBig message (BitVec.ofNat w acc) hbig
  rw [Proc.loop_succ, Proc.bind_of_err hend, List.append_nil] at hloop
  exact hloop

/-! ## `VarInt` -/

/-- `s` starts with a numeral of at most five bytes that reads as `n` modulo `2 ^ 32`, and
`rest` follows it. -/
def StartsWithVarInt (s : Bytes) (n : Int32) (rest : Bytes) : Prop :=
  ∃ p, s = p ++ rest ∧ Leb128.Terminated p ∧ p.length ≤ 5 ∧
    n = Int32.ofBitVec (BitVec.ofNat 32 (Leb128.value p))

/-- The numeral at the front of an input is unique. -/
theorem StartsWithVarInt.unique {s rest rest' : Bytes} {n n' : Int32}
    (h : StartsWithVarInt s n rest) (h' : StartsWithVarInt s n' rest') :
    n = n' ∧ rest = rest' := by
  obtain ⟨p, hs, hp, -, rfl⟩ := h
  obtain ⟨p', hs', hp', -, rfl⟩ := h'
  obtain ⟨rfl, rfl⟩ := hp.append_inj hp' (hs.symm.trans hs')
  exact ⟨rfl, rfl⟩

/-- The groups of a five-byte numeral pass the length check and shift by less than 32. -/
theorem varint_groups_fit {k : Nat} (hk : k ≤ 5) : GroupsFit (· == 5) 32 0 k := by
  intro j _ hj
  refine ⟨?_, by omega⟩
  rw [beq_eq_false_iff_ne]
  omega

/-- The reader takes the numeral in front of it. -/
theorem read_varint_of_starts {s rest : Bytes} {n : Int32} (h : StartsWithVarInt s n rest) :
    (readFrom : Reader VarInt).run s = (.ok ⟨n⟩, rest) := by
  obtain ⟨p, rfl, hp, hlen, rfl⟩ := h
  have hloop := read_loop_terminated (w := 32) (· == 5) "VarInt is too big" (by decide) hp
    6 0 0 (by omega) (varint_groups_fit hlen) (by decide) rest
  refine Proc.map_ok_iff.mpr ⟨_, hloop, ?_⟩
  simp

/-- The inputs without such a numeral: five continued bytes, or fewer and the end. -/
theorem read_varint_fails {s : Bytes} (h : ∀ n rest, ¬ StartsWithVarInt s n rest) :
    ∃ e rest, (readFrom : Reader VarInt).run s = (.err e, rest) := by
  rcases Leb128.terminated_cases 5 s with ⟨p, rest, rfl, hp, hlen⟩ | ⟨q, rest, rfl, hq, hlen⟩ |
      ⟨hs, hlen⟩
  · exact absurd ⟨p, rfl, hp, hlen, rfl⟩ (h _ rest)
  · obtain ⟨acc, hloop⟩ := read_loop_continued (w := 32) (· == 5) "VarInt is too big"
      (by decide) hq 1 0 0 (varint_groups_fit (by omega)) (by decide) rest
    rw [hlen] at hloop
    exact ⟨_, _, Proc.map_of_err hloop _⟩
  · have hloop := read_loop_ends_early (w := 32) (· == 5) "VarInt is too big" (by decide)
      (varint_groups_fit (Nat.le_refl 5)) hs hlen 6 (by omega)
    exact ⟨_, _, Proc.map_of_err hloop _⟩

/-- The reader succeeds exactly on the inputs that start with a numeral of at most five
bytes, and takes that numeral. -/
theorem read_varint_ok_iff {s rest : Bytes} {v : VarInt} :
    (readFrom : Reader VarInt).run s = (.ok v, rest) ↔ StartsWithVarInt s v.val rest := by
  constructor
  · intro h
    by_cases hs : ∃ n rest', StartsWithVarInt s n rest'
    · obtain ⟨n, rest', hn⟩ := hs
      obtain ⟨rfl, rfl⟩ : (⟨n⟩ : VarInt) = v ∧ rest' = rest := by
        simpa using (read_varint_of_starts hn).symm.trans h
      exact hn
    · obtain ⟨e, rest', he⟩ := read_varint_fails (s := s) (by simpa using hs)
      rw [he] at h
      cases h
  · exact read_varint_of_starts

/-- The reader always returns. -/
theorem returns_read_varint (s : Bytes) : Proc.Returns (readFrom : Reader VarInt) s := by
  by_cases hs : ∃ n rest, StartsWithVarInt s n rest
  · obtain ⟨n, rest, hn⟩ := hs
    exact Proc.returns_of_ok (read_varint_of_starts hn)
  · obtain ⟨e, rest, he⟩ := read_varint_fails (s := s) (by simpa using hs)
    exact Proc.returns_of_err he

/-- The bytes of a `VarInt`: the shortest numeral of its 32 bits. -/
def VarInt.bytes (v : VarInt) : Bytes := Leb128.encode v.val.toBitVec.toNat

/-- A `VarInt` takes at most five bytes. -/
theorem VarInt.length_bytes_le (v : VarInt) : v.bytes.length ≤ 5 :=
  Leb128.length_encode_le (Nat.lt_of_lt_of_le v.val.toBitVec.isLt (by decide))

/-- In every sink the writer writes the shortest numeral and returns its length. -/
theorem write_varint_eq (v : VarInt) :
    (writeTo v : Proc W Nat) = (do writeEach v.bytes; pure v.bytes.length) := by
  have hlt : v.val.toBitVec.toNat < 128 ^ (4 + 1) :=
    Nat.lt_of_lt_of_le v.val.toBitVec.isLt (by decide)
  have hloop := write_loop_eq (W := W) (i := 0) (by decide) hlt
  rw [Nat.zero_add] at hloop
  exact hloop

/-- The writer appends the shortest numeral and returns its length. -/
theorem write_varint_run (v : VarInt) (buf : Bytes) :
    (writeTo v).run buf = (.ok v.bytes.length, buf ++ v.bytes) := by
  rw [write_varint_eq, Proc.bind_of_ok (write_each_bytes _ _), Proc.run_pure]

/-- The bytes of a `VarLong`: the shortest numeral of its 64 bits. -/
def VarLong.bytes (v : VarLong) : Bytes := Leb128.encode v.val.toBitVec.toNat

/-- A `VarLong` takes at most ten bytes. -/
theorem VarLong.length_bytes_le (v : VarLong) : v.bytes.length ≤ 10 :=
  Leb128.length_encode_le (Nat.lt_of_lt_of_le v.val.toBitVec.isLt (by decide))

/-- In every sink the writer writes the shortest numeral and returns its length. -/
theorem write_varlong_eq (v : VarLong) :
    (writeTo v : Proc W Nat) = (do writeEach v.bytes; pure v.bytes.length) := by
  have hlt : v.val.toBitVec.toNat < 128 ^ (9 + 1) :=
    Nat.lt_of_lt_of_le v.val.toBitVec.isLt (by decide)
  have hloop := write_loop_eq (W := W) (i := 0) (by decide) hlt
  rw [Nat.zero_add] at hloop
  exact hloop

/-- The bytes of a `VarInt` start with it. -/
theorem starts_with_bytes (v : VarInt) (rest : Bytes) :
    StartsWithVarInt (v.bytes ++ rest) v.val rest := by
  refine ⟨v.bytes, rfl, Leb128.encode_terminated _, v.length_bytes_le, ?_⟩
  simp [VarInt.bytes, Leb128.value_encode]

/-- Reading undoes writing. -/
theorem varint_round_trips : RoundTripsAlways VarInt := by
  intro v buf n out h
  rw [write_varint_run] at h
  obtain ⟨-, rfl⟩ : v.bytes.length = n ∧ buf ++ v.bytes = out := by simpa using h
  exact ⟨v.bytes, rfl, fun rest _ => read_varint_of_starts (starts_with_bytes v rest)⟩

end Bws.Protocol
