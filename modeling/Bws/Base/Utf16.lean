import Bws.Base.BigEndian

/-!
# UTF-16

Strings as 16-bit code units: `encodeUtf16` gives the units of a string, and `fromUtf16Lossy`
decodes any units, with a replacement character for each surrogate that is not part of a pair.
`from_utf16_encode` says that nothing is lost of a string, `length_encode_utf16` how many units
it has, `length_encode_lossy` that decoding keeps the number of units, and
`zero_mem_encode_utf16` that a zero unit is a zero character. `unitBytes` lays units out in bytes,
and `Utf16.ofBytes` reads them.
-/

namespace Bws.Base

/-- The code units of a character: one, or a pair of surrogates. -/
def Utf16.units (c : Char) : List UInt16 :=
  if c.toNat < 0x10000 then [UInt16.ofNat c.toNat]
  else
    let v := c.toNat - 0x10000
    [UInt16.ofNat (0xD800 + v / 0x400), UInt16.ofNat (0xDC00 + v % 0x400)]

/-- The code units of a string. -/
def encodeUtf16 (s : String) : List UInt16 := s.toList.flatMap Utf16.units

namespace Utf16

/-- The first unit of a pair. -/
def isHigh (u : UInt16) : Bool := 0xD800 ≤ u && u < 0xDC00

/-- The second unit of a pair. -/
def isLow (u : UInt16) : Bool := 0xDC00 ≤ u && u < 0xE000

/-- `REPLACEMENT_CHARACTER`. -/
def replacement : Char := Char.ofNat 0xFFFD

/-- The character of a pair. -/
def combine (high low : UInt16) : Char :=
  Char.ofNat (0x10000 + (high.toNat - 0xD800) * 0x400 + (low.toNat - 0xDC00))

/-- The characters of some units. -/
def decodeLossy : List UInt16 → List Char
  | [] => []
  | [u] => if isHigh u || isLow u then [replacement] else [Char.ofNat u.toNat]
  | u :: v :: rest =>
      if isHigh u then
        if isLow v then combine u v :: decodeLossy rest
        else replacement :: decodeLossy (v :: rest)
      else if isLow u then replacement :: decodeLossy (v :: rest)
      else Char.ofNat u.toNat :: decodeLossy (v :: rest)

end Utf16

/-- The string of some units. -/
def fromUtf16Lossy (units : List UInt16) : String := String.ofList (Utf16.decodeLossy units)

/-! ## The units of a string -/

namespace Utf16

theorem is_high_iff {u : UInt16} : isHigh u = true ↔ 0xD800 ≤ u.toNat ∧ u.toNat < 0xDC00 := by
  simp [isHigh, UInt16.le_iff_toNat_le, UInt16.lt_iff_toNat_lt]

theorem is_low_iff {u : UInt16} : isLow u = true ↔ 0xDC00 ≤ u.toNat ∧ u.toNat < 0xE000 := by
  simp [isLow, UInt16.le_iff_toNat_le, UInt16.lt_iff_toNat_lt]

/-- A unit that is no surrogate is a character. -/
theorem decode_single {u : UInt16} (h : u.toNat < 0xD800 ∨ 0xE000 ≤ u.toNat)
    (rest : List UInt16) : decodeLossy (u :: rest) = Char.ofNat u.toNat :: decodeLossy rest := by
  have hhigh : isHigh u = false := by
    rw [Bool.eq_false_iff, Ne, is_high_iff]
    omega
  have hlow : isLow u = false := by
    rw [Bool.eq_false_iff, Ne, is_low_iff]
    omega
  cases rest with
  | nil => simp [decodeLossy, hhigh, hlow]
  | cons v rest => simp [decodeLossy, hhigh, hlow]

/-- A pair of surrogates is a character. -/
theorem decode_pair {u v : UInt16} (hu : isHigh u = true) (hv : isLow v = true)
    (rest : List UInt16) : decodeLossy (u :: v :: rest) = combine u v :: decodeLossy rest := by
  rw [decodeLossy, if_pos hu, if_pos hv]

/-- A character is no surrogate. -/
theorem char_not_surrogate (c : Char) :
    c.toNat < 0xD800 ∨ (0xE000 ≤ c.toNat ∧ c.toNat < 0x110000) := c.valid

/-- The units of a character beyond the basic plane are a pair of surrogates. -/
theorem units_pair {c : Char} (h : 0x10000 ≤ c.toNat) :
    ∃ u v, units c = [u, v] ∧ u.toNat = 0xD800 + (c.toNat - 0x10000) / 0x400 ∧
      v.toNat = 0xDC00 + (c.toNat - 0x10000) % 0x400 := by
  have hvalid := char_not_surrogate c
  refine ⟨_, _, if_neg (Nat.not_lt_of_le h), ?_, ?_⟩
  · rw [UInt16.toNat_ofNat']
    omega
  · rw [UInt16.toNat_ofNat']
    omega

/-- The unit of a character of the basic plane is its number. -/
theorem units_single {c : Char} (h : c.toNat < 0x10000) :
    ∃ u, units c = [u] ∧ u.toNat = c.toNat := by
  refine ⟨_, if_pos h, ?_⟩
  rw [UInt16.toNat_ofNat', Nat.mod_eq_of_lt h]

/-- The units of a character are decoded to it. -/
theorem decode_units (c : Char) (rest : List UInt16) :
    decodeLossy (units c ++ rest) = c :: decodeLossy rest := by
  have hvalid := char_not_surrogate c
  by_cases h : c.toNat < 0x10000
  · obtain ⟨u, hunits, hu⟩ := units_single h
    rw [hunits, List.singleton_append, decode_single (by omega), hu, Char.ofNat_toNat]
  · obtain ⟨u, v, hunits, hu, hv⟩ := units_pair (Nat.le_of_not_lt h)
    have hhigh : isHigh u = true := by
      rw [is_high_iff]
      omega
    have hlow : isLow v = true := by
      rw [is_low_iff]
      omega
    have hcombine : combine u v = c := by
      have hsum : 0x10000 + (u.toNat - 0xD800) * 0x400 + (v.toNat - 0xDC00) = c.toNat := by omega
      rw [combine, hsum, Char.ofNat_toNat]
    rw [hunits, List.cons_append, List.singleton_append, decode_pair hhigh hlow, hcombine]

/-- How many units a character has. -/
theorem length_units (c : Char) :
    (units c).length = 1 + if 0x10000 ≤ c.toNat then 1 else 0 := by
  by_cases h : c.toNat < 0x10000
  · obtain ⟨u, hunits, -⟩ := units_single h
    rw [hunits, if_neg (Nat.not_le_of_lt h)]
    rfl
  · obtain ⟨u, v, hunits, -⟩ := units_pair (Nat.le_of_not_lt h)
    rw [hunits, if_pos (Nat.le_of_not_lt h)]
    rfl

/-- Only the zero character has a zero unit. -/
theorem zero_mem_units {c : Char} : 0 ∈ units c ↔ c = Char.ofNat 0 := by
  constructor
  · intro hmem
    by_cases h : c.toNat < 0x10000
    · obtain ⟨u, hunits, hu⟩ := units_single h
      rw [hunits] at hmem
      obtain rfl := List.mem_singleton.mp hmem
      rw [← Char.ofNat_toNat c, ← hu]
      rfl
    · obtain ⟨u, v, hunits, hu, hv⟩ := units_pair (Nat.le_of_not_lt h)
      rw [hunits] at hmem
      rcases List.mem_pair.mp hmem with rfl | rfl
      · have hpos : UInt16.toNat 0 = 0 := rfl
        omega
      · have hpos : UInt16.toNat 0 = 0 := rfl
        omega
  · rintro rfl
    decide

end Utf16

/-- The number of characters of a string beyond the basic plane. -/
def astral (s : String) : Nat := s.toList.countP (0x10000 ≤ ·.toNat)

/-- Nothing is lost of a string. -/
theorem from_utf16_encode (s : String) : fromUtf16Lossy (encodeUtf16 s) = s := by
  have hlist (cs : List Char) : Utf16.decodeLossy (cs.flatMap Utf16.units) = cs := by
    induction cs with
    | nil => rfl
    | cons c cs ih => rw [List.flatMap_cons, Utf16.decode_units, ih]
  rw [fromUtf16Lossy, encodeUtf16, hlist, String.ofList_toList]

/-- How many units a string has: one for each character, and one more beyond the basic plane. -/
theorem length_encode_utf16 (s : String) :
    (encodeUtf16 s).length = s.length + astral s := by
  have hlist (cs : List Char) :
      (cs.flatMap Utf16.units).length = cs.length + cs.countP (0x10000 ≤ ·.toNat) := by
    induction cs with
    | nil => rfl
    | cons c cs ih =>
        rw [List.flatMap_cons, List.length_append, Utf16.length_units, ih, List.length_cons,
          List.countP_cons]
        simp only [decide_eq_true_eq]
        omega
  rw [encodeUtf16, hlist, String.length_toList]
  rfl

/-- There are no more characters beyond the basic plane than characters. -/
theorem astral_le_length (s : String) : astral s ≤ s.length := by
  rw [← String.length_toList]
  exact List.countP_le_length

/-- Every character of a string is in the basic plane. -/
theorem astral_eq_zero_iff {s : String} :
    astral s = 0 ↔ ∀ c ∈ s.toList, c.toNat < 0x10000 := by
  simp [astral, List.countP_eq_zero]

/-- A zero unit is a zero character. -/
theorem zero_mem_encode_utf16 {s : String} :
    0 ∈ encodeUtf16 s ↔ Char.ofNat 0 ∈ s.toList := by
  simp only [encodeUtf16, List.mem_flatMap, Utf16.zero_mem_units, exists_eq_right]

/-- The units of strings one after the other. -/
theorem encode_utf16_append (s t : String) :
    encodeUtf16 (s ++ t) = encodeUtf16 s ++ encodeUtf16 t := by
  rw [encodeUtf16, String.toList_append, List.flatMap_append]
  rfl

/-- The number of the character with a number. -/
theorem Utf16.to_nat_of_nat {n : Nat} (h : n.isValidChar) : (Char.ofNat n).toNat = n :=
  congrArg Char.toNat (dif_pos h)

/-- A character of the basic plane is decoded from one unit. -/
theorem Utf16.length_units_of_nat {n : Nat} (h : n < 0x10000) :
    (Utf16.units (Char.ofNat n)).length = 1 := by
  have hlt : (Char.ofNat n).toNat < 0x10000 := by
    by_cases hvalid : n.isValidChar
    · rwa [Utf16.to_nat_of_nat hvalid]
    · have hzero : (Char.ofNat n).toNat = 0 := congrArg Char.toNat (dif_neg hvalid)
      omega
  rw [Utf16.length_units, if_neg (Nat.not_le_of_lt hlt)]

/-- A character of a pair of surrogates is beyond the basic plane. -/
theorem Utf16.length_units_combine {u v : UInt16} (hu : Utf16.isHigh u = true)
    (hv : Utf16.isLow v = true) : (Utf16.units (Utf16.combine u v)).length = 2 := by
  rw [Utf16.is_high_iff] at hu
  rw [Utf16.is_low_iff] at hv
  have hvalid : (0x10000 + (u.toNat - 0xD800) * 0x400 + (v.toNat - 0xDC00)).isValidChar :=
    .inr ⟨by omega, by omega⟩
  have hle : 0x10000 ≤ (Utf16.combine u v).toNat := by
    rw [Utf16.combine, Utf16.to_nat_of_nat hvalid]
    omega
  rw [Utf16.length_units, if_pos hle]

/-- Decoding keeps the number of units, also where a surrogate is replaced. -/
theorem length_encode_lossy (us : List UInt16) :
    (encodeUtf16 (fromUtf16Lossy us)).length = us.length := by
  have hreplacement : (Utf16.units Utf16.replacement).length = 1 := by decide
  have hnat (u : UInt16) := Utf16.length_units_of_nat u.toNat_lt
  have hlist (us : List UInt16) :
      ((Utf16.decodeLossy us).flatMap Utf16.units).length = us.length := by
    fun_induction Utf16.decodeLossy us with
    | case1 => rfl
    | case2 u hsurrogate => rw [List.flatMap_singleton, hreplacement, List.length_singleton]
    | case3 u hplain => rw [List.flatMap_singleton, hnat, List.length_singleton]
    | case4 u v rest hu hv ih =>
        rw [List.flatMap_cons, List.length_append, ih, Utf16.length_units_combine hu hv,
          List.length_cons, List.length_cons]
        omega
    | case5 u v rest hu hv ih | case6 u v rest hu hv ih =>
        rw [List.flatMap_cons, List.length_append, ih, hreplacement, Nat.add_comm]
        rfl
    | case7 u v rest hu hv ih =>
        rw [List.flatMap_cons, List.length_append, ih, hnat, Nat.add_comm]
        rfl
  rw [encodeUtf16, fromUtf16Lossy, String.toList_ofList, hlist]

/-! ## Units in bytes -/

/-- Units in big-endian order. -/
def unitBytes (us : List UInt16) : Bytes := us.flatMap fun u => BigEndian.bytes 2 u.toNat

theorem length_unit_bytes (us : List UInt16) : (unitBytes us).length = 2 * us.length := by
  induction us with
  | nil => rfl
  | cons u us ih =>
      rw [unitBytes, List.flatMap_cons, List.length_append, BigEndian.length_bytes,
        List.length_cons, Nat.mul_succ, Nat.add_comm]
      exact congrArg (· + 2) ih

theorem unit_bytes_append (us vs : List UInt16) :
    unitBytes (us ++ vs) = unitBytes us ++ unitBytes vs := List.flatMap_append

/-- The bytes of a unit, high and low. -/
theorem unit_bytes_cons (u : UInt16) (us : List UInt16) :
    unitBytes (u :: us) =
      UInt8.ofNat (u.toNat / 256) :: UInt8.ofNat u.toNat :: unitBytes us := rfl

/-- A unit is read back from its bytes. -/
theorem unit_of_bytes (u : UInt16) :
    UInt16.ofNat (BigEndian.value [UInt8.ofNat (u.toNat / 256), UInt8.ofNat u.toNat]) = u := by
  have hvalue : BigEndian.value [UInt8.ofNat (u.toNat / 256), UInt8.ofNat u.toNat] = u.toNat :=
    BigEndian.value_bytes (n := 2) u.toNat_lt
  rw [hvalue, UInt16.ofNat_toNat]

/-- The units that some bytes are. -/
def Utf16.ofBytes : Bytes → List UInt16
  | high :: low :: rest => UInt16.ofNat (BigEndian.value [high, low]) :: ofBytes rest
  | _ => []

/-- Units are read back from their bytes. -/
theorem of_unit_bytes (us : List UInt16) : Utf16.ofBytes (unitBytes us) = us := by
  induction us with
  | nil => rfl
  | cons u us ih => rw [unit_bytes_cons, Utf16.ofBytes, unit_of_bytes, ih]

end Bws.Base
