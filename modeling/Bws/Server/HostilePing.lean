import Bws.Server.LegacyPayload

/-!
# Hostile 1.6 pings

A 1.6 ping holds the length of its own rest, and nothing checks it: `read_1_6` subtracts the
seven bytes that are not the hostname's, and takes the hostname apart in units of two bytes.
`read1_6_settles_iff` says on which streams it neither underflows nor indexes out of bounds. The
condition is computed backwards through the reads, as one on the bytes of the stream alone.
-/

namespace Bws.Server.LegacyPing

open Bws.Base Bws.Base.Proc ConnCtx

variable {α : Type}

/-- The run ends in a value or an error, or waits for a client that stays silent. -/
def Settles (p : Proc ConnCtx α) (ctx : ConnCtx) : Prop :=
  match (p.run ctx).1 with
  | .ok _ | .err _ => True
  | .panic _ => False
  | .diverge => ctx.stream.ending = .silent

/-- A step that returns and leaves the end of the stream as it is hands on whether the run
settles. -/
theorem settles_bind_of_ok {β : Type} {p : Proc ConnCtx β} {ctx ctx' : ConnCtx} {b : β}
    (h : p.run ctx = (.ok b, ctx')) (hending : ctx'.stream.ending = ctx.stream.ending)
    (f : β → Proc ConnCtx α) : Settles (p >>= f) ctx ↔ Settles (f b) ctx' := by
  rw [Settles, Settles, bind_of_ok h, hending]

/-- Some bytes are units, unless the last one is on its own. -/
theorem units_cases (bytes : Bytes) :
    (bytes.length % 2 = 0 ∧ ∃ us, units bytes = pure us) ∨
      (bytes.length % 2 = 1 ∧ units bytes = unwind .indexOutOfBounds) := by
  induction bytes using units.induct with
  | case1 => exact .inl ⟨rfl, [], rfl⟩
  | case2 b => exact .inr ⟨rfl, rfl⟩
  | case3 a b rest ih =>
      have hlen : (a :: b :: rest).length % 2 = rest.length % 2 := Nat.add_mod_right _ 2
      rw [hlen, units]
      rcases ih with ⟨heven, us, hunits⟩ | ⟨hodd, hunits⟩
      · exact .inl ⟨heven, _, by rw [hunits, pure_bind]⟩
      · exact .inr ⟨hodd, by rw [hunits]; rfl⟩

/-- The runs that settle are those on the streams whose bytes meet `P`. -/
def SettlesOn (p : Proc ConnCtx α) (P : Bytes → Prop) : Prop :=
  ∀ ctx, Settles p ctx ↔ P ctx.stream.pending

namespace SettlesOn

theorem pure (a : α) : SettlesOn (pure a) fun _ => True := fun _ => Iff.rfl

theorem unwind (r : Panic) : SettlesOn (unwind r : Proc ConnCtx α) fun _ => False :=
  fun _ => Iff.rfl

/-- Bytes of the stream are read, or the run ends at the end of the stream. -/
theorem read {f : Bytes → Proc ConnCtx α} {P : Bytes → Bytes → Prop} (eof : Error) (n : Nat)
    (hf : ∀ bytes, SettlesOn (f bytes) (P bytes)) :
    SettlesOn (zoom socket (BufReader.readExact eof n) >>= f)
      fun s => n ≤ s.length → P (s.take n) (s.drop n) := by
  intro ctx
  by_cases hle : n ≤ ctx.stream.pending.length
  · obtain ⟨r, hread, hpending, hending⟩ := BufReader.read_exact_of_le eof hle
    have hrun : (zoom socket (BufReader.readExact eof n)).run ctx =
        (.ok (ctx.stream.pending.take n), { ctx with stream := r }) :=
      (zoom_ok_iff socket).mpr ⟨r, hread, rfl⟩
    rw [settles_bind_of_ok hrun hending, hf]
    change P _ r.pending ↔ _
    rw [hpending]
    exact ⟨fun h _ => h, fun h => h hle⟩
  · obtain ⟨r, hread⟩ := BufReader.read_exact_of_lt eof (Nat.lt_of_not_le hle)
    have hrun : (zoom socket (BufReader.readExact eof n)).run ctx =
        (BufReader.atEnd eof ctx.stream.ending, { ctx with stream := r }) := by
      simp only [zoom, socket, hread]
    refine iff_of_true ?_ fun h => absurd h hle
    rw [Settles, BufReader.bind_of_at_end hrun]
    cases hending : ctx.stream.ending with
    | closed | failed e => trivial
    | silent => rfl

/-- The buffer of the connection is not what a run settles by. -/
theorem set_buf {p : Proc ConnCtx α} {P : Bytes → Prop} (hp : SettlesOn p P)
    (f : Bytes → Bytes) : SettlesOn (setBuf f >>= fun _ => p) P := by
  intro ctx
  have hset : (setBuf f).run ctx = (.ok (), { ctx with buf := f ctx.buf }) := rfl
  rw [settles_bind_of_ok hset rfl]
  exact hp _

/-- A buffer that is resized and then filled. -/
theorem fill {f : Bytes → Proc ConnCtx α} {P : Bytes → Bytes → Prop} (n : Nat)
    (hf : ∀ bytes, SettlesOn (f bytes) (P bytes)) :
    SettlesOn (do resizeBuf n; f (← fillBuf))
      fun s => n ≤ s.length → P (s.take n) (s.drop n) := by
  intro ctx
  rw [Settles, resize_fill_run]
  exact SettlesOn.read Reader.earlyEof n (fun bytes => (hf bytes).set_buf fun _ => bytes) _

/-- A number of `n` bytes. -/
theorem number {β : Type} {g : Nat → β} {f : β → Proc ConnCtx α} {P : β → Bytes → Prop} (n : Nat)
    (hf : ∀ b, SettlesOn (f b) (P b)) :
    SettlesOn ((g <$> readNumber n) >>= f)
      fun s => n ≤ s.length → P (g (BigEndian.value (s.take n))) (s.drop n) := by
  rw [readNumber, bind_map_left, bind_map_left]
  exact .read _ n fun bytes => hf (g (BigEndian.value bytes))

/-- A subtraction. -/
theorem subtract {f : UInt16 → Proc ConnCtx α} {P : Bytes → Prop} {a b : UInt16}
    (hf : SettlesOn (f (a - b)) P) :
    SettlesOn (LegacyPing.subtract a b >>= f) fun s => b ≤ a ∧ P s := by
  intro ctx
  rw [LegacyPing.subtract]
  split
  · next hle => exact (hf ctx).trans (and_iff_right hle).symm
  · next hlt => exact iff_of_false id fun h => hlt h.1

/-- The units of some bytes. -/
theorem units {f : List UInt16 → Proc ConnCtx α} {P : Bytes → Prop} {bytes : Bytes}
    (hf : ∀ us, SettlesOn (f us) P) :
    SettlesOn (LegacyPing.units bytes >>= f) fun s => bytes.length % 2 = 0 ∧ P s := by
  rcases units_cases bytes with ⟨heven, us, hunits⟩ | ⟨hodd, hunits⟩
  · rw [hunits, pure_bind]
    exact fun ctx => (hf us ctx).trans (and_iff_right heven).symm
  · rw [hunits]
    exact fun _ => iff_of_false id fun h => by omega

end SettlesOn

/-- The length of the rest of a ping, in the two bytes behind the first 27. -/
def restLength (s : Bytes) : Nat := BigEndian.value ((s.drop 27).take 2)

/-- The length of the rest has arrived, and is less than the seven bytes that it includes. -/
def RestTooShort (s : Bytes) : Prop := 29 ≤ s.length ∧ restLength s < 7

/-- The length of the hostname is odd, and that many bytes have arrived behind it. -/
def OddHostname (s : Bytes) : Prop :=
  7 ≤ restLength s ∧ (restLength s - 7) % 2 = 1 ∧ 32 + (restLength s - 7) ≤ s.length

/-- The length of the rest is one of 16 bits. -/
theorem rest_length_lt (s : Bytes) : restLength s < 2 ^ 16 := by
  have hlt := BigEndian.value_lt ((s.drop 27).take 2)
  have hpow : 256 ^ ((s.drop 27).take 2).length ≤ 256 ^ 2 :=
    Nat.pow_le_pow_right (by decide) (List.length_take_le 2 _)
  exact Nat.lt_of_lt_of_le hlt hpow

/-- The result of the subtraction. -/
theorem sub_seven_toNat {n : Nat} (h : n < 2 ^ 16) (hle : 7 ≤ n) :
    (UInt16.ofNat n - 7).toNat = n - 7 := by
  rw [UInt16.toNat_sub_of_le _ _ ((seven_le_iff h).mpr hle), UInt16.toNat_ofNat_of_lt' h]
  rfl

/-- `read_1_6` returns a payload or an error, or waits for a silent client, exactly on the streams
that neither hold a length of less than seven nor reach a hostname of an odd length. -/
theorem read1_6_settles_iff (ctx : ConnCtx) :
    Settles read1_6 ctx ↔
      ¬ RestTooShort ctx.stream.pending ∧ ¬ OddHostname ctx.stream.pending := by
  have hsettles : SettlesOn read1_6 _ := .fill 27 fun _ => .number 2 fun rest =>
    .subtract (.number 1 fun protocol => .number 2 fun _ => .fill _ fun bytes =>
      .units fun hostname => .number 4 fun port => .pure _)
  refine (hsettles ctx).trans ?_
  generalize ctx.stream.pending = s
  simp only [List.drop_drop, List.length_drop, List.length_take, implies_true, and_true]
  change _ → _ → 7 ≤ UInt16.ofNat (restLength s) ∧ _ ↔ _
  have hlt := rest_length_lt s
  have hseven := seven_le_iff hlt
  rw [RestTooShort, OddHostname, hseven]
  by_cases hle : 7 ≤ restLength s
  · have hsub : (UInt16.ofNat (BigEndian.value ((s.drop 27).take 2)) - 7).toNat =
        restLength s - 7 := sub_seven_toNat hlt hle
    rw [hsub]
    omega
  · omega

/-- A stream that begins as a 1.6 ping does, up to the length, and what follows it. -/
def hostilePing (length : UInt8) (rest : Bytes) : Bytes :=
  [0xFE, 0x01, 0xFA] ++ List.replicate 24 0x00 ++ [0x00, length] ++ rest

/-- A length of six underflows, and a hostname of one byte is indexed out of bounds. Either ends
the handling of the connection. -/
theorem hostile_pings_unwind :
    ((handle []).run (.new 0 [⟨hostilePing 6 [], by decide⟩] .closed)).1 =
        .panic .subtractOverflow ∧
      ((handle []).run (.new 0 [⟨hostilePing 8 [74, 0, 0, 97], by decide⟩] .closed)).1 =
        .panic .indexOutOfBounds ∧
      ¬ Settles read1_6 ⟨0, ⟨hostilePing 6 [], [], .closed⟩, [], []⟩ ∧
      ¬ Settles read1_6 ⟨0, ⟨hostilePing 8 [74, 0, 0, 97], [], .closed⟩, [], []⟩ := by
  have hshort : (read1_6.run ⟨0, ⟨hostilePing 6 [], [], .closed⟩, [], []⟩).1 =
      .panic .subtractOverflow := by decide
  have hodd : (read1_6.run ⟨0, ⟨hostilePing 8 [74, 0, 0, 97], [], .closed⟩, [], []⟩).1 =
      .panic .indexOutOfBounds := by decide
  refine ⟨by decide, by decide, ?_, ?_⟩
  · rw [Settles, hshort]
    exact id
  · rw [Settles, hodd]
    exact id

end Bws.Server.LegacyPing
