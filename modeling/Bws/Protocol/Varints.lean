import Bws.Protocol.VarInt

/-!
# The limits of the variable-length integers

How the two readers end on every input. `VarInt::read_from` keeps its limit of five bytes:
`varint_reads_numeral`. The check of `VarLong::read_from` lets one byte more than ten pass, whose
shift is out of range: `varlong_reads_numeral_iff`. The writers are within the limits, and write
the shortest numeral: `varlong_round_trip`, `varint_canonical`.
-/

namespace Bws.Protocol

open Bws.Base

variable {w : Nat} {α : Type}

/-- What `run` is on the input `s`, for a reader of numerals of at most `limit` bytes as words of
`w` bits: the numeral up to the first byte without the high bit is read, modulo `2 ^ w`; an input
of `limit` bytes with the high bit is invalid, after a number of bytes that is `taken`; a shorter
one is at its end; and no shift is out of range. -/
structure ReadsNumeral (limit w : Nat) (taken : Nat → Prop) (number : α → Int)
    (s : Bytes) (run : Outcome α × Bytes) : Prop where
  accepts : ∀ k < limit, s.findIdx? (·.toNat < 128) = some k → ∃ a,
    run = (.ok a, s.drop (k + 1)) ∧ number a % 2 ^ w = Leb128.value (s.take (k + 1)) % 2 ^ w
  tooBig : limit ≤ s.length → Leb128.Continued (s.take limit) → ∃ message n,
    taken n ∧ run = (.err ⟨.invalidData, message⟩, s.drop n)
  endsEarly : s.length < limit → Leb128.Continued s → ∃ message rest,
    run = (.err ⟨.unexpectedEof, message⟩, rest)
  shiftsInRange : run.1 ≠ .panic .shiftOverflow

/-- The signed value of a word is its number modulo the size of the word. -/
theorem to_int_mod (n : Nat) : (BitVec.ofNat w n).toInt % 2 ^ w = (n : Int) % 2 ^ w := by
  have hpow : (2 : Int) ^ w = ((2 ^ w : Nat) : Int) := by norm_cast
  rw [BitVec.toInt_eq_toNat_bmod, BitVec.toNat_ofNat, hpow, Int.bmod_emod, Int.natCast_mod,
    Int.emod_emod]

section Loop

variable (tooBig : Nat → Bool) (message : String)

/-- The loop reads the numeral up to the first byte without the high bit. -/
theorem read_loop_accepts (hw : 8 ≤ w) {limit : Nat} (hfit : GroupsFit tooBig w 0 limit)
    {s : Bytes} {k : Nat} (hk : k < limit) (h : s.findIdx? (·.toNat < 128) = some k) (fuel : Nat)
    (hfuel : limit ≤ fuel) :
    (Proc.loop (readGroup tooBig message Reader.readByte) fuel (0, BitVec.ofNat w 0)).run s =
      (.ok (BitVec.ofNat w (Leb128.value (s.take (k + 1)))), s.drop (k + 1)) := by
  obtain ⟨hterm, hlt⟩ := Leb128.terminated_take h
  have hlen : (s.take (k + 1)).length = k + 1 := List.length_take_of_le hlt
  have hloop := read_loop_terminated tooBig message hw hterm fuel 0 0 (by omega)
    (hfit.mono (by omega)) (by decide) (s.drop (k + 1))
  rw [List.take_append_drop] at hloop
  simpa using hloop

/-- The loop walks over as many continued bytes as it has groups. -/
theorem read_loop_walks (hw : 8 ≤ w) {limit : Nat} (hfit : GroupsFit tooBig w 0 limit)
    {s : Bytes} (hlen : limit ≤ s.length) (hs : Leb128.Continued (s.take limit)) (fuel : Nat) :
    ∃ acc, (Proc.loop (readGroup tooBig message Reader.readByte) (limit + fuel)
        (0, BitVec.ofNat w 0)).run s =
      (Proc.loop (readGroup tooBig message Reader.readByte) fuel
        (limit, BitVec.ofNat w acc)).run (s.drop limit) := by
  have htake : (s.take limit).length = limit := List.length_take_of_le hlen
  obtain ⟨acc, hloop⟩ := read_loop_continued tooBig message hw hs fuel 0 0
    (hfit.mono (by omega)) (by decide) (s.drop limit)
  rw [List.take_append_drop, htake, Nat.zero_add] at hloop
  exact ⟨acc, hloop⟩

/-- A group whose shift is out of range unwinds behind its byte. -/
theorem read_group_unwinds {i : Nat} (result : BitVec w) (hbig : tooBig i = false)
    (hshift : ¬ 7 * i < w) (b : UInt8) (rest : Bytes) :
    (readGroup tooBig message Reader.readByte (i, result)).run (b :: rest) =
      (.panic .shiftOverflow, rest) := by
  simp only [readGroup, hbig, shl, if_neg hshift, Bool.false_eq_true, if_false]
  rw [Proc.bind_of_ok (Reader.read_byte_cons b rest)]
  exact Proc.bind_of_panic (Proc.run_unwind _ _) _

end Loop

/-! ## `VarInt` -/

/-- `VarInt::read_from` reads the numerals of at most five bytes. -/
theorem varint_reads_numeral (s : Bytes) :
    ReadsNumeral 5 32 (· = 5) (fun v : VarInt => v.val.toInt) s (readFrom.run s) := by
  have hfit : GroupsFit (· == 5) 32 0 5 := varint_groups_fit (Nat.le_refl 5)
  refine ⟨fun k hk h => ?_, fun hlen hs => ?_, fun hlen hs => ?_, fun h => ?_⟩
  · have hloop := read_loop_accepts (w := 32) (· == 5) "VarInt is too big" (by decide) hfit hk h
      6 (by decide)
    refine ⟨_, Proc.map_of_ok hloop _, ?_⟩
    rw [Int32.toInt_ofBitVec, to_int_mod]
  · obtain ⟨acc, hloop⟩ := read_loop_walks (w := 32) (· == 5) "VarInt is too big" (by decide) hfit
      hlen hs 1
    exact ⟨_, 5, rfl, Proc.map_of_err hloop _⟩
  · have hloop := read_loop_ends_early (w := 32) (· == 5) "VarInt is too big" (by decide) hfit hs
      hlen 6 (by omega)
    exact ⟨_, _, Proc.map_of_err hloop _⟩
  · have hreturns := returns_read_varint s
    rw [Proc.Returns, h] at hreturns
    exact hreturns

/-- The shortest numeral is no longer than the numeral read. -/
theorem bytes_le_of_starts {s rest : Bytes} {n : Int32} (h : StartsWithVarInt s n rest) :
    ∃ used, s = used ++ rest ∧ (VarInt.bytes ⟨n⟩).length ≤ used.length := by
  obtain ⟨p, rfl, hp, -, rfl⟩ := h
  refine ⟨p, rfl, ?_⟩
  obtain ⟨k, hk⟩ : ∃ k, p.length = k + 1 :=
    Nat.exists_eq_succ_of_ne_zero (by simpa using hp.ne_nil)
  have hvalue := Leb128.value_lt p
  rw [hk] at hvalue ⊢
  refine Leb128.length_encode_le (Nat.lt_of_le_of_lt ?_ hvalue)
  -- the bits above the 32nd are cut off
  exact Nat.mod_le _ _

/-- `VarInt::write_to` writes between one and five bytes, of which all but the last have the high
bit; they are no more than those of any input that is read as the same number, and do not end in
a zero byte unless there is only one. -/
theorem varint_canonical (v : VarInt) :
    ∃ (front : Bytes) (last : UInt8),
      (∀ buf, (writeTo v).run buf = (.ok (front ++ [last]).length, buf ++ (front ++ [last]))) ∧
      (front ++ [last]).length ≤ 5 ∧ Leb128.Continued front ∧ last.toNat < 128 ∧
      (front ≠ [] → last ≠ 0) ∧
      ∀ s rest, (readFrom : Reader VarInt).run s = (.ok v, rest) →
        ∃ used, s = used ++ rest ∧ (front ++ [last]).length ≤ used.length := by
  obtain ⟨front, last, heq, hfront, hlast, hzero⟩ := Leb128.encode_ends v.val.toBitVec.toNat
  have hbytes : v.bytes = front ++ [last] := heq
  refine ⟨front, last, fun buf => ?_, ?_, hfront, hlast, fun hne h => ?_, fun s rest h => ?_⟩
  · rw [← hbytes]
    exact write_varint_run v buf
  · rw [← hbytes]
    exact v.length_bytes_le
  · -- only zero ends in a zero byte, and its numeral is a single byte
    rw [hzero h, Leb128.encode_of_lt (by decide), List.singleton_eq_append_iff] at heq
    rcases heq with ⟨hnil, -⟩ | ⟨-, hnil⟩
    · exact hne hnil
    · cases hnil
  · rw [← hbytes]
    exact bytes_le_of_starts (read_varint_ok_iff.mp h)

/-! ## `VarLong` -/

/-- The groups of a ten-byte numeral pass the length check and shift by less than 64. -/
theorem varlong_groups_fit : GroupsFit (10 < ·) 64 0 10 := by
  intro j _ hj
  refine ⟨decide_eq_false ?_, by omega⟩
  omega

/-- The reader takes the numeral up to the first byte without the high bit. -/
theorem read_varlong_accepts {s : Bytes} {k : Nat} (hk : k < 10)
    (h : s.findIdx? (·.toNat < 128) = some k) :
    (readFrom : Reader VarLong).run s =
      (.ok ⟨Int64.ofBitVec (BitVec.ofNat 64 (Leb128.value (s.take (k + 1))))⟩, s.drop (k + 1)) :=
  Proc.map_of_ok (read_loop_accepts (w := 64) (10 < ·) "VarLong is too big" (by decide)
    varlong_groups_fit hk h 12 (by decide)) _

/-- The reader reports the end of an input of fewer than ten bytes that all have the high bit. -/
theorem read_varlong_ends_early {s : Bytes} (hlen : s.length < 10) (hs : Leb128.Continued s) :
    (readFrom : Reader VarLong).run s = (.err Reader.eof, []) :=
  Proc.map_of_err (read_loop_ends_early (w := 64) (10 < ·) "VarLong is too big" (by decide)
    varlong_groups_fit hs hlen 12 (by omega)) _

/-- Behind ten bytes with the high bit the reader is at the end of its input, or unwinds: the
eleventh byte passes the length check, and its shift is out of range. -/
theorem read_varlong_too_big {s : Bytes} (hlen : 10 ≤ s.length)
    (hs : Leb128.Continued (s.take 10)) :
    ((readFrom : Reader VarLong).run s).1 = .err Reader.eof ∨
      ((readFrom : Reader VarLong).run s).1 = .panic .shiftOverflow := by
  obtain ⟨acc, hloop⟩ := read_loop_walks (w := 64) (10 < ·) "VarLong is too big" (by decide)
    varlong_groups_fit hlen hs 2
  cases hrest : s.drop 10 with
  | nil =>
      have hgroup := read_group_nil (10 < ·) "VarLong is too big" (BitVec.ofNat 64 acc)
        (i := 10) rfl
      rw [hrest] at hloop
      exact .inl (congrArg Prod.fst (Proc.map_of_err (hloop.trans (Proc.bind_of_err hgroup _)) _))
  | cons b rest =>
      have hgroup := read_group_unwinds (10 < ·) "VarLong is too big" (BitVec.ofNat 64 acc)
        (i := 10) rfl (by decide) b rest
      rw [hrest] at hloop
      exact .inr
        (congrArg Prod.fst (Proc.map_of_panic (hloop.trans (Proc.bind_of_panic hgroup _)) _))

/-- The reader comes to an end on every input. -/
theorem ends_read_varlong (s : Bytes) : Proc.Ends (readFrom : Reader VarLong) s := by
  unfold Proc.Ends
  rcases Leb128.index_cases 10 s with ⟨k, hk, hfind⟩ | ⟨hlen, hs⟩ | ⟨hlen, hs⟩
  · simp [read_varlong_accepts hk hfind]
  · rcases read_varlong_too_big hlen hs with heof | hpanic
    · simp [heof]
    · simp [hpanic]
  · simp [read_varlong_ends_early hlen hs]

/-- `VarLong::read_from` reads the numerals of at most ten bytes, and fails as it should on
inputs without one, exactly when the input does not begin with ten bytes that have the high
bit. -/
theorem varlong_reads_numeral_iff (s : Bytes) :
    ReadsNumeral 10 64 (· ≤ 10) (fun v : VarLong => v.val.toInt) s (readFrom.run s) ↔
      ¬ (10 ≤ s.length ∧ Leb128.Continued (s.take 10)) := by
  constructor
  · rintro h ⟨hlen, hs⟩
    obtain ⟨message, n, -, hrun⟩ := h.tooBig hlen hs
    rcases read_varlong_too_big hlen hs with heof | hpanic
    · rw [hrun] at heof
      cases heof
    · exact h.shiftsInRange hpanic
  · intro hcond
    refine ⟨fun k hk h => ⟨_, read_varlong_accepts hk h, ?_⟩,
      fun hlen hs => absurd ⟨hlen, hs⟩ hcond,
      fun hlen hs => ⟨_, _, read_varlong_ends_early hlen hs⟩, ?_⟩
    · rw [Int64.toInt_ofBitVec, to_int_mod]
    · -- every other input ends in a value or an error
      rcases Leb128.index_cases 10 s with ⟨k, hk, hfind⟩ | hbig | ⟨hlen, hs⟩
      · simp [read_varlong_accepts hk hfind]
      · exact absurd hbig hcond
      · simp [read_varlong_ends_early hlen hs]

/-- On ten bytes with the high bit and one more, `VarLong::read_from` unwinds. -/
theorem varlong_eleventh_byte :
    ((readFrom : Reader VarLong).run (List.replicate 10 0x80 ++ [0x00])).1 =
        .panic .shiftOverflow ∧
      ¬ ReadsNumeral 10 64 (· ≤ 10) (fun v : VarLong => v.val.toInt)
        (List.replicate 10 0x80 ++ [0x00])
        (readFrom.run (List.replicate 10 0x80 ++ [0x00])) := by
  have hrun : ((readFrom : Reader VarLong).run (List.replicate 10 0x80 ++ [0x00])).1 =
      .panic .shiftOverflow := by decide
  exact ⟨hrun, fun h => h.shiftsInRange hrun⟩

/-- `VarLong::write_to` writes between one and ten bytes, and `VarLong::read_from` takes them
back to the number and leaves what is behind them. -/
theorem varlong_round_trip (v : VarLong) (rest : Bytes) :
    ∃ bytes : Bytes, (∀ buf, (writeTo v).run buf = (.ok bytes.length, buf ++ bytes)) ∧
      1 ≤ bytes.length ∧ bytes.length ≤ 10 ∧
      (readFrom : Reader VarLong).run (bytes ++ rest) = (.ok v, rest) := by
  have hterm : Leb128.Terminated v.bytes := Leb128.encode_terminated _
  have hlen : v.bytes.length ≤ 10 := v.length_bytes_le
  refine ⟨v.bytes, fun buf => ?_, List.length_pos_iff.mpr hterm.ne_nil, hlen, ?_⟩
  · rw [write_varlong_eq, Proc.bind_of_ok (write_each_bytes _ _), Proc.run_pure]
  · have hloop := read_loop_terminated (w := 64) (10 < ·) "VarLong is too big" (by decide) hterm
      12 0 0 (by omega) (varlong_groups_fit.mono hlen) (by decide) rest
    refine Proc.map_ok_iff.mpr ⟨_, hloop, ?_⟩
    simp [VarLong.bytes, Leb128.value_encode]

end Bws.Protocol
