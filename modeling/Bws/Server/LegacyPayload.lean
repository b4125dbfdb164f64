import Bws.Server.LegacyPing

/-!
# The payload of a 1.6 ping

`read_1_6` takes back what a 1.6 client sends: `read1_6_client_ping`. A reader `Takes` some
bytes when it returns the same value wherever they are next, however they are split into reads
and whatever is behind them or in the buffer of the connection.
-/

namespace Bws.Server.LegacyPing

open Bws.Base Bws.Base.Proc ConnCtx

/-! ## Taking bytes off the stream -/

/-- The reader takes the bytes off the stream and returns `a`, whatever is behind them. -/
def Takes {α : Type} (read : Proc ConnCtx α) (bytes : Bytes) (a : α) : Prop :=
  ∀ (ctx : ConnCtx) (rest : Bytes), ctx.stream.pending = bytes ++ rest →
    ∃ ctx', read.run ctx = (.ok a, ctx') ∧ ctx'.stream.pending = rest

variable {α β : Type}

theorem Takes.pure (a : α) : Takes (pure a) [] a := fun ctx _ h => ⟨ctx, rfl, h⟩

/-- Reads in sequence take their bytes one after the other. -/
theorem Takes.bind {p : Proc ConnCtx α} {f : α → Proc ConnCtx β} {first second : Bytes} {a : α}
    {b : β} (hp : Takes p first a) (hf : Takes (f a) second b) :
    Takes (p >>= f) (first ++ second) b := by
  intro ctx rest h
  rw [List.append_assoc] at h
  obtain ⟨middle, hfirst, hpending⟩ := hp ctx _ h
  obtain ⟨ctx', hsecond, hrest⟩ := hf middle rest hpending
  exact ⟨ctx', (bind_of_ok hfirst f).trans hsecond, hrest⟩

/-- What is returned may be mapped. -/
theorem Takes.map {p : Proc ConnCtx α} {bytes : Bytes} {a : α} (hp : Takes p bytes a)
    (f : α → β) : Takes (f <$> p) bytes (f a) := by
  intro ctx rest h
  obtain ⟨ctx', hrun, hrest⟩ := hp ctx rest h
  exact ⟨ctx', map_of_ok hrun f, hrest⟩

/-- Exactly as many bytes as asked for are taken. -/
theorem takes_read_exact (eof : Error) (bytes : Bytes) :
    Takes (zoom socket (BufReader.readExact eof bytes.length)) bytes bytes := by
  intro ctx rest h
  obtain ⟨r, hrun, hrest⟩ := BufReader.read_exact_of_pending eof h
  exact ⟨{ ctx with stream := r }, (zoom_ok_iff socket).mpr ⟨r, hrun, rfl⟩, hrest⟩

/-- Resizing a buffer gives it the length. -/
theorem length_resize (buf : Bytes) (n : Nat) :
    (buf.take n ++ List.replicate (n - buf.length) 0).length = n := by
  rw [List.length_append, List.length_take, List.length_replicate]
  omega

/-- Filling a buffer that has been resized reads as many bytes as it has been resized to. -/
theorem resize_fill_run (f : Bytes → Proc ConnCtx β) (n : Nat) (ctx : ConnCtx) :
    (do resizeBuf n; f (← fillBuf)).run ctx = (do
      let bytes ← zoom socket (BufReader.readExact Reader.earlyEof n)
      setBuf fun _ => bytes
      f bytes).run { ctx with buf := ctx.buf.take n ++ List.replicate (n - ctx.buf.length) 0 } := by
  let resized : ConnCtx :=
    { ctx with buf := ctx.buf.take n ++ List.replicate (n - ctx.buf.length) 0 }
  have hresize : (resizeBuf n).run ctx = (.ok (), resized) := rfl
  have hlength : bufLength.run resized = (.ok n, resized) :=
    congrArg (fun k => (Outcome.ok k, resized)) (length_resize ctx.buf n)
  rw [bind_of_ok hresize, fillBuf, bind_assoc, bind_of_ok hlength]
  simp only [bind_assoc, pure_bind]
  rfl

/-- A buffer that is resized and then filled takes its length in bytes, whatever was in it. -/
theorem Takes.fill {f : Bytes → Proc ConnCtx β} {n : Nat} {bytes second : Bytes} {b : β}
    (hlen : bytes.length = n) (hf : Takes (f bytes) second b) :
    Takes (do resizeBuf n; f (← fillBuf)) (bytes ++ second) b := by
  subst hlen
  intro ctx rest h
  rw [List.append_assoc] at h
  let resized : ConnCtx := { ctx with
    buf := ctx.buf.take bytes.length ++ List.replicate (bytes.length - ctx.buf.length) 0 }
  obtain ⟨middle, hread, hpending⟩ := takes_read_exact Reader.earlyEof bytes resized _ h
  have hset : (setBuf fun _ => bytes).run middle = (.ok (), { middle with buf := bytes }) := rfl
  obtain ⟨ctx', hsecond, hrest⟩ := hf { middle with buf := bytes } rest hpending
  refine ⟨ctx', ?_, hrest⟩
  rw [resize_fill_run, bind_of_ok hread, bind_of_ok hset, hsecond]

/-- A number that fits its bytes is taken as it is. -/
theorem takes_read_number {n x : Nat} (h : x < 256 ^ n) :
    Takes (readNumber n) (BigEndian.bytes n x) x := by
  have hread := takes_read_exact Reader.unexpectedEnd (BigEndian.bytes n x)
  rw [BigEndian.length_bytes] at hread
  have hvalue := hread.map BigEndian.value
  rwa [BigEndian.value_bytes h] at hvalue

theorem takes_read_u8 (b : UInt8) : Takes readU8 [b] b := by
  have hread := (takes_read_number (n := 1) b.toNat_lt).map UInt8.ofNat
  have hbyte : BigEndian.bytes 1 b.toNat = [b] := by
    rw [BigEndian.bytes, UInt8.ofNat_toNat]
    rfl
  rwa [hbyte, UInt8.ofNat_toNat] at hread

theorem takes_read_u16 {n : Nat} (h : n < 2 ^ 16) :
    Takes readU16 (BigEndian.bytes 2 n) (UInt16.ofNat n) :=
  (takes_read_number h).map UInt16.ofNat

theorem takes_read_i32 {n : Nat} (h : n < 2 ^ 32) :
    Takes readI32 (BigEndian.bytes 4 n) (Int32.ofNat n) :=
  (takes_read_number h).map Int32.ofNat

/-- The units of bytes that are the units. -/
theorem units_unit_bytes (us : List UInt16) : units (unitBytes us) = pure us := by
  induction us with
  | nil => rfl
  | cons u us ih =>
      rw [unit_bytes_cons, units, ih, unit_of_bytes]
      rfl

/-! ## The ping of a client -/

/-- What a 1.6 client sends: a preamble, the length of the rest, its protocol, the length of the
hostname and the hostname, and the port. -/
def clientPing (preamble : Bytes) (protocol : UInt8) (hostname : String) (port : UInt16) :
    Bytes :=
  let n := (encodeUtf16 hostname).length
  preamble ++ (BigEndian.bytes 2 (7 + 2 * n) ++ ([protocol] ++ (BigEndian.bytes 2 n ++
    (unitBytes (encodeUtf16 hostname) ++ BigEndian.bytes 4 port.toNat))))

/-- A port is the low half of the number it is sent as. -/
theorem as_u16_port (port : UInt16) : asU16 (Int32.ofNat port.toNat) = port := by
  have hlt := port.toNat_lt
  apply UInt16.toNat_inj.mp
  change ((BitVec.ofNat 32 port.toNat).setWidth 16).toNat = port.toNat
  rw [BitVec.toNat_setWidth, BitVec.toNat_ofNat]
  omega

/-- The check of the subtraction, on a length of 16 bits. -/
theorem seven_le_iff {n : Nat} (h : n < 2 ^ 16) : 7 ≤ UInt16.ofNat n ↔ 7 ≤ n := by
  rw [UInt16.le_iff_toNat_le, UInt16.toNat_ofNat_of_lt' h]
  rfl

/-- The length without the seven bytes is that of the hostname. -/
theorem subtract_seven {n : Nat} (h : 7 + n < 2 ^ 16) :
    subtract (UInt16.ofNat (7 + n)) 7 = pure (UInt16.ofNat n) := by
  have hseven : (7 : UInt16) ≤ UInt16.ofNat (7 + n) :=
    (seven_le_iff h).mpr (Nat.le_add_right 7 n)
  have hdiff : UInt16.ofNat (7 + n) - 7 = UInt16.ofNat n := by
    rw [UInt16.ofNat_add, UInt16.add_comm]
    exact UInt16.add_sub_cancel _ _
  rw [subtract, if_pos hseven, hdiff]

/-- The payload takes the bytes of a client. -/
theorem takes_client_ping {preamble : Bytes} {protocol : UInt8} {hostname : String}
    {port : UInt16} (hpreamble : preamble.length = 27)
    (hfits : 7 + 2 * (encodeUtf16 hostname).length < 2 ^ 16) :
    Takes read1_6 (clientPing preamble protocol hostname port) ⟨protocol, hostname, port⟩ := by
  have hhostname : (unitBytes (encodeUtf16 hostname)).length =
      (UInt16.ofNat (2 * (encodeUtf16 hostname).length)).toNat := by
    have hlt : 2 * (encodeUtf16 hostname).length < UInt16.size :=
      Nat.lt_of_le_of_lt (Nat.le_add_left _ 7) hfits
    rw [length_unit_bytes, UInt16.toNat_ofNat_of_lt' hlt]
  have hport : port.toNat < 2 ^ 32 := Nat.lt_trans port.toNat_lt (by decide)
  refine .fill hpreamble (.bind (takes_read_u16 hfits) ?_)
  rw [subtract_seven hfits, pure_bind]
  refine .bind (takes_read_u8 protocol) (.bind (takes_read_u16 (by omega)) ?_)
  refine .fill hhostname ?_
  rw [units_unit_bytes, pure_bind, from_utf16_encode]
  have htake := (takes_read_i32 hport).map fun n => LegacyPingPayload.mk protocol hostname (asU16 n)
  rw [as_u16_port] at htake
  exact htake

/-- A 1.6 ping is read as what the client has sent, however it is split into reads and whatever
is in the buffer, and exactly what is behind it is left. -/
theorem read1_6_client_ping {preamble : Bytes} (protocol : UInt8) {hostname : String}
    (port : UInt16) (hpreamble : preamble.length = 27)
    (hfits : 7 + 2 * (encodeUtf16 hostname).length < 2 ^ 16) {ctx : ConnCtx} {rest : Bytes}
    (hpending : ctx.stream.pending = clientPing preamble protocol hostname port ++ rest) :
    ∃ ctx', read1_6.run ctx = (.ok ⟨protocol, hostname, port⟩, ctx') ∧
      ctx'.stream.pending = rest :=
  takes_client_ping hpreamble hfits ctx rest hpending

/-- A connection whose ping arrives in two reads, with two more bytes behind it, and whose
buffer is not empty. -/
def localhostPing : ConnCtx :=
  let ping := clientPing (List.replicate 27 1) 74 "mc.🏠" 25565
  ⟨0, ⟨ping.take 30, [⟨ping.drop 30 ++ [5, 6], by decide⟩], .closed⟩, [], [1, 2, 3]⟩

/-- The ping in two reads is read, and the two bytes behind it are left. -/
theorem read1_6_localhost :
    ∃ ctx', read1_6.run localhostPing = (.ok ⟨74, "mc.🏠", 25565⟩, ctx') ∧
      ctx'.stream.pending = [5, 6] := by
  have hpending : localhostPing.stream.pending =
      clientPing (List.replicate 27 1) 74 "mc.🏠" 25565 ++ [5, 6] := by decide
  exact read1_6_client_ping 74 25565 (by decide) (by decide) hpending

end Bws.Server.LegacyPing
