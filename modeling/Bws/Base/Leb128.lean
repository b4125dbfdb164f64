import Bws.Base.Reader
import Mathlib.Tactic.Ring

/-!
# Base-128 numerals

The little-endian numerals that carry seven bits in each byte and mark every byte but the
last with the high bit. `value` reads a numeral as a natural number, `Terminated` says that a
byte string is one whole numeral, and `encode` is its shortest form. `terminated_cases` is the
case analysis of a reader that gives up after a fixed number of bytes.
-/

namespace Bws.Base.Leb128

/-- The number whose base-128 digits, least significant first, are the low seven bits. -/
def value : Bytes → Nat
  | [] => 0
  | b :: bs => b.toNat % 128 + 128 * value bs

/-- The high bit is set on every byte but the last. -/
inductive Terminated : Bytes → Prop where
  | last (b : UInt8) : b.toNat < 128 → Terminated [b]
  | more (b : UInt8) (bs : Bytes) : 128 ≤ b.toNat → Terminated bs → Terminated (b :: bs)

/-- The high bit is set on every byte. -/
def Continued (bs : Bytes) : Prop := ∀ b ∈ bs, 128 ≤ b.toNat

/-- The shortest numeral of `n`. -/
def encode (n : Nat) : Bytes :=
  if n < 128 then [UInt8.ofNat n] else UInt8.ofNat (n % 128 + 128) :: encode (n / 128)
termination_by n

/-- A numeral has at least one byte. -/
theorem Terminated.ne_nil {bs : Bytes} (h : Terminated bs) : bs ≠ [] := by
  cases h <;> simp

/-- `k` bytes stay below `128 ^ k`. -/
theorem value_lt (bs : Bytes) : value bs < 128 ^ bs.length := by
  induction bs with
  | nil => simp [value]
  | cons b bs ih =>
      rw [List.length_cons, Nat.pow_succ, value]
      have hdigit : b.toNat % 128 < 128 := Nat.mod_lt _ (by decide)
      omega

/-- Where one numeral ends is fixed by its bytes. -/
theorem Terminated.append_inj {p q r s : Bytes} (hp : Terminated p) (hq : Terminated q)
    (h : p ++ r = q ++ s) : p = q ∧ r = s := by
  induction hp generalizing q with
  | last b hb =>
      cases hq with
      | last c hc =>
          obtain ⟨rfl, rfl⟩ : b = c ∧ r = s := by simpa using h
          exact ⟨rfl, rfl⟩
      | more c cs hc _ =>
          obtain ⟨rfl, -⟩ : b = c ∧ r = cs ++ s := by simpa using h
          omega
  | more b bs hb _ ih =>
      cases hq with
      | last c hc =>
          obtain ⟨rfl, -⟩ : b = c ∧ bs ++ r = s := by simpa using h
          omega
      | more c cs hc hcs =>
          obtain ⟨rfl, htail⟩ : b = c ∧ bs ++ r = cs ++ s := by simpa using h
          obtain ⟨rfl, rfl⟩ := ih hcs htail
          exact ⟨rfl, rfl⟩

/-- A numeral ends with the first byte that has no high bit. -/
theorem terminated_take {s : Bytes} {k : Nat} (h : s.findIdx? (·.toNat < 128) = some k) :
    Terminated (s.take (k + 1)) ∧ k < s.length := by
  induction s generalizing k with
  | nil => simp at h
  | cons b s ih =>
      rw [List.findIdx?_cons] at h
      split at h
      · next hb =>
          obtain rfl : 0 = k := Option.some.inj h
          exact ⟨.last b (of_decide_eq_true hb), Nat.succ_pos _⟩
      · next hb =>
          obtain ⟨j, hj, rfl⟩ := Option.map_eq_some_iff.mp h
          obtain ⟨hterm, hlt⟩ := ih hj
          exact ⟨.more b _ (by simpa using hb) hterm, Nat.succ_lt_succ hlt⟩

/-- The first byte without the high bit is among the first `k` bytes, or these all have it, or the
byte string is shorter and all of it has. -/
theorem index_cases (k : Nat) (s : Bytes) :
    (∃ i < k, s.findIdx? (·.toNat < 128) = some i) ∨
      (k ≤ s.length ∧ Continued (s.take k)) ∨ (s.length < k ∧ Continued s) := by
  induction k generalizing s with
  | zero => exact .inr (.inl ⟨Nat.zero_le _, by simp [Continued]⟩)
  | succ k ih =>
      cases s with
      | nil => exact .inr (.inr ⟨Nat.succ_pos k, by simp [Continued]⟩)
      | cons b s =>
          rw [List.findIdx?_cons]
          by_cases hb : b.toNat < 128
          · exact .inl ⟨0, Nat.succ_pos k, if_pos (decide_eq_true hb)⟩
          have hb' : 128 ≤ b.toNat := Nat.le_of_not_lt hb
          rw [if_neg (by simpa using hb')]
          rcases ih s with ⟨i, hi, hfind⟩ | ⟨hlen, hs⟩ | ⟨hlen, hs⟩
          · exact .inl ⟨i + 1, Nat.succ_lt_succ hi, by rw [hfind]; rfl⟩
          · refine .inr (.inl ⟨Nat.succ_le_succ hlen, ?_⟩)
            simpa [Continued] using And.intro hb' hs
          · refine .inr (.inr ⟨Nat.succ_lt_succ hlen, ?_⟩)
            simpa [Continued] using And.intro hb' hs

/-- A byte string starts with a numeral of at most `k` bytes, or with `k` continued bytes, or
ends before either. -/
theorem terminated_cases (k : Nat) (s : Bytes) :
    (∃ p rest, s = p ++ rest ∧ Terminated p ∧ p.length ≤ k) ∨
      (∃ q rest, s = q ++ rest ∧ Continued q ∧ q.length = k) ∨
      (Continued s ∧ s.length < k) := by
  rcases index_cases k s with ⟨i, hi, hfind⟩ | ⟨hlen, hs⟩ | ⟨hlen, hs⟩
  · refine .inl ⟨_, _, (List.take_append_drop (i + 1) s).symm, (terminated_take hfind).1, ?_⟩
    exact (List.length_take_le _ _).trans hi
  · exact .inr (.inl ⟨_, _, (List.take_append_drop k s).symm, hs, List.length_take_of_le hlen⟩)
  · exact .inr (.inr ⟨hs, hlen⟩)

/-! ## The shortest numeral -/

/-- A small number is its own digit. -/
theorem encode_of_lt {n : Nat} (h : n < 128) : encode n = [UInt8.ofNat n] := by
  rw [encode, if_pos h]

/-- A larger number puts its low digit first. -/
theorem encode_of_le {n : Nat} (h : 128 ≤ n) :
    encode n = UInt8.ofNat (n % 128 + 128) :: encode (n / 128) := by
  rw [encode, if_neg (Nat.not_lt_of_le h)]

/-- The shortest numeral is a numeral. -/
theorem encode_terminated (n : Nat) : Terminated (encode n) := by
  induction n using Nat.strong_induction_on with
  | _ n ih =>
      by_cases h : n < 128
      · rw [encode_of_lt h]
        exact .last _ (by rw [UInt8.toNat_ofNat']; omega)
      · rw [encode_of_le (Nat.le_of_not_lt h)]
        exact .more _ _ (by rw [UInt8.toNat_ofNat']; omega) (ih _ (by omega))

/-- The shortest numeral of `n` reads as `n`. -/
theorem value_encode (n : Nat) : value (encode n) = n := by
  induction n using Nat.strong_induction_on with
  | _ n ih =>
      by_cases h : n < 128
      · rw [encode_of_lt h, value, value, UInt8.toNat_ofNat']
        omega
      · rw [encode_of_le (Nat.le_of_not_lt h), value, ih _ (by omega), UInt8.toNat_ofNat']
        omega

/-- A number below `128 ^ (k + 1)` takes at most `k + 1` bytes. -/
theorem length_encode_le {n k : Nat} (h : n < 128 ^ (k + 1)) : (encode n).length ≤ k + 1 := by
  induction k generalizing n with
  | zero => simp [encode_of_lt (by simpa using h)]
  | succ k ih =>
      by_cases hn : n < 128
      · simp [encode_of_lt hn]
      · rw [encode_of_le (Nat.le_of_not_lt hn), List.length_cons]
        have hdiv : n / 128 < 128 ^ (k + 1) := by
          rw [Nat.div_lt_iff_lt_mul (by decide)]
          calc n < 128 ^ (k + 1 + 1) := h
            _ = 128 ^ (k + 1) * 128 := Nat.pow_succ ..
        exact Nat.succ_le_succ (ih hdiv)

/-- The shortest numeral continues up to its last byte, which is zero only in that of zero. -/
theorem encode_ends (n : Nat) :
    ∃ (front : Bytes) (last : UInt8), encode n = front ++ [last] ∧ Continued front ∧
      last.toNat < 128 ∧ (last = 0 → n = 0) := by
  induction n using Nat.strong_induction_on with
  | _ n ih =>
      by_cases h : n < 128
      · have hlast : (UInt8.ofNat n).toNat = n := by
          rw [UInt8.toNat_ofNat']
          omega
        refine ⟨[], UInt8.ofNat n, encode_of_lt h, by simp [Continued], by omega, fun hzero => ?_⟩
        rw [← hlast, hzero]
        rfl
      · obtain ⟨front, last, heq, hfront, hlast, hzero⟩ := ih (n / 128) (by omega)
        refine ⟨UInt8.ofNat (n % 128 + 128) :: front, last, ?_, ?_, hlast, fun h0 => ?_⟩
        · rw [encode_of_le (Nat.le_of_not_lt h), heq, List.cons_append]
        · have hhead : 128 ≤ (UInt8.ofNat (n % 128 + 128)).toNat := by
            rw [UInt8.toNat_ofNat']
            omega
          simpa [Continued] using And.intro hhead hfront
        · have hdiv := hzero h0
          omega

end Bws.Base.Leb128
