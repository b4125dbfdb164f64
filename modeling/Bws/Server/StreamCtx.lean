import Bws.Protocol.Format
import Bws.Protocol.Totality
import Bws.Protocol.Varints

/-!
# Frames

A connection of the old server base and the packets it sends and reads: each is a frame, a
length and as many bytes. `read_packet_length_eq` says that the loop that reads the length is
the one of `VarInt`, and `returns_read_packet_iff` on which streams a packet is read without a
panic.
-/

namespace Bws.Server

open Bws.Base Bws.Base.Proc Bws.Protocol

/-- A connection: the bytes the client has sent and the server has not read yet, after which
the stream ends, the bytes sent to the client, and the buffer of the packets. -/
structure StreamCtx where
  incoming : Bytes
  outgoing : Bytes
  buf : Bytes
  deriving DecidableEq, Repr

namespace StreamCtx

/-- The side of the socket that is read. -/
def socket : Lens StreamCtx Bytes where
  get ctx := ctx.incoming
  set ctx s := { ctx with incoming := s }
  get_set _ _ := rfl
  set_get _ := rfl
  set_set _ _ _ := rfl

/-- `buf.clear()`. -/
def clearBuf : Proc StreamCtx Unit := ⟨fun ctx => (.ok (), { ctx with buf := [] })⟩

/-- `buf.resize(n, 0x00)` on a cleared buffer. -/
def resizeBuf (n : Nat) : Proc StreamCtx Unit := do
  allocate 1 n
  ⟨fun ctx => (.ok (), { ctx with buf := List.replicate n 0 })⟩

/-- `socket.read_exact(&mut buf)`. A stream that ends early fills the front of the buffer. -/
def fillBuf : Proc StreamCtx Unit :=
  ⟨fun ctx =>
    let n := ctx.buf.length
    if n ≤ ctx.incoming.length then
      (.ok (), { ctx with incoming := ctx.incoming.drop n, buf := ctx.incoming.take n })
    else
      (.err Reader.earlyEof,
        { ctx with incoming := [], buf := ctx.incoming ++ ctx.buf.drop ctx.incoming.length })⟩

/-- `P::read_from(&mut &buf[..])`. -/
def decodeBuf (P : Type) [FromBytes P] : Proc StreamCtx P :=
  ⟨fun ctx => ((readFrom.run ctx.buf).1, ctx)⟩

/-- `socket.read_u8()`. The error at the end of the stream is another one than on a byte string. -/
def readU8 : Proc StreamCtx UInt8 :=
  mapErr (fun _ => Reader.unexpectedEnd) (zoom socket Reader.readByte)

/-- Read the length of a frame. -/
def readPacketLength : Proc StreamCtx Int32 :=
  (fun result => Int32.ofBitVec result) <$>
    loop (readGroup (w := 32) (· == 5) "VarInt is too big" readU8) 6 (0, 0)

/-- Read a frame and decode a packet from it. -/
def readPacket (P : Type) [FromBytes P] : Proc StreamCtx P := do
  clearBuf
  let packetLength ← readPacketLength
  resizeBuf (asUsize packetLength)
  fillBuf
  decodeBuf P

/-- The buffer of the packets. -/
def buffer : Lens StreamCtx Bytes where
  get ctx := ctx.buf
  set ctx s := { ctx with buf := s }
  get_set _ _ := rfl
  set_get _ := rfl
  set_set _ _ _ := rfl

/-- `packet.write_to(&mut NoopWriter)`. -/
def countPacket {P : Type} [ToBytes P] (packet : P) : Proc StreamCtx Nat :=
  ⟨fun ctx => (((writeTo packet).run NoopWriter.mk).1, ctx)⟩

/-- `socket.write_all(&buf)`. -/
def sendBuf : Proc StreamCtx Unit :=
  ⟨fun ctx => (.ok (), { ctx with outgoing := ctx.outgoing ++ ctx.buf })⟩

/-- Send a packet as a frame. The length is counted in a pass of its own, and cast to 32 bits. -/
def writePacket {P : Type} [ToBytes P] (packet : P) : Proc StreamCtx Unit := do
  clearBuf
  let len ← countPacket packet
  let _ ← zoom buffer (writeTo (⟨Int32.ofNat len⟩ : VarInt))
  let _ ← zoom buffer (writeTo packet)
  sendBuf

/-! ## The length of a frame -/

/-- A shift leaves every state alone. -/
theorem zoom_shl {w : Nat} (value : BitVec w) (amount : Nat) :
    zoom socket (shl value amount) = shl value amount := by
  unfold shl
  split
  · exact zoom_pure socket _
  · exact zoom_unwind socket _

/-- The error on a socket for one on its bytes. -/
def socketError (e : Error) : Error := if e = Reader.eof then Reader.unexpectedEnd else e

/-- The two errors are of the same kind. -/
theorem kind_socket_error (e : Error) : (socketError e).kind = e.kind := by
  unfold socketError
  split
  · next h => rw [h]; rfl
  · rfl

/-- A byte is read from the socket as from its bytes. -/
theorem read_u8_eq : readU8 = mapErr socketError (zoom socket Reader.readByte) := by
  ext1
  funext ctx
  obtain ⟨incoming, outgoing, buf⟩ := ctx
  cases incoming <;> rfl

/-- A shift has no errors. -/
theorem map_err_shl {w : Nat} (f : Error → Error) (value : BitVec w) (amount : Nat) :
    mapErr f (shl value amount : Proc StreamCtx _) = shl value amount := by
  unfold shl
  split <;> rfl

/-- One iteration of the loop has the errors of the byte that it reads. -/
theorem map_err_read_group {w : Nat} (tooBig : Nat → Bool) (message : String)
    (readByte : Proc StreamCtx UInt8) (x : Nat × BitVec w) :
    mapErr socketError (readGroup tooBig message readByte x) =
      readGroup tooBig message (mapErr socketError readByte) x := by
  obtain ⟨numRead, result⟩ := x
  have hkeeps : socketError ⟨.invalidData, message⟩ = ⟨.invalidData, message⟩ := if_neg nofun
  simp only [readGroup]
  split
  · rw [map_err_fail, hkeeps]
  · rw [map_err_bind]
    congr 1
    funext byte
    rw [map_err_bind, map_err_shl]
    congr 1
    funext shifted
    split <;> rfl

/-- One iteration of the loop on the socket is one on its bytes. -/
theorem zoom_read_group {w : Nat} (tooBig : Nat → Bool) (message : String)
    (x : Nat × BitVec w) :
    zoom socket (readGroup tooBig message Reader.readByte x) =
      readGroup tooBig message (zoom socket Reader.readByte) x := by
  obtain ⟨numRead, result⟩ := x
  simp only [readGroup]
  split
  · exact zoom_fail socket _
  · rw [zoom_bind]
    congr 1
    funext byte
    rw [zoom_bind, zoom_shl]
    congr 1
    funext shifted
    split <;> exact zoom_pure socket _

/-- The length of a frame is read as a `VarInt` is, with the errors of a socket. -/
theorem read_packet_length_eq :
    readPacketLength =
      mapErr socketError (VarInt.val <$> zoom socket (readFrom : Reader VarInt)) := by
  have hread : (readFrom : Reader VarInt) = (fun result => ⟨Int32.ofBitVec result⟩) <$>
      loop (readGroup (w := 32) (· == 5) "VarInt is too big" Reader.readByte) 6 (0, 0) := rfl
  rw [hread, zoom_map, zoom_loop, ← comp_map, map_err_map, map_err_loop]
  simp only [zoom_read_group, map_err_read_group, ← read_u8_eq]
  rfl

/-- The length of a frame always returns. -/
theorem returns_read_packet_length (ctx : StreamCtx) : Returns readPacketLength ctx := by
  rw [read_packet_length_eq, returns_map_err_iff, returns_map_iff, returns_zoom_iff]
  exact returns_read_varint _

/-- On which streams a length is read, and what is left of them. -/
theorem read_packet_length_ok_iff {ctx ctx' : StreamCtx} {n : Int32} :
    readPacketLength.run ctx = (.ok n, ctx') ↔
      ∃ rest, StartsWithVarInt ctx.incoming n rest ∧ ctx' = { ctx with incoming := rest } := by
  rw [read_packet_length_eq, map_err_ok_iff, map_ok_iff]
  constructor
  · rintro ⟨⟨n⟩, h, rfl⟩
    obtain ⟨rest, hread, rfl⟩ := (zoom_ok_iff socket).mp h
    exact ⟨rest, read_varint_ok_iff.mp hread, rfl⟩
  · rintro ⟨rest, hstart, rfl⟩
    exact ⟨⟨n⟩, (zoom_ok_iff socket).mpr ⟨rest, read_varint_of_starts hstart, rfl⟩, rfl⟩

/-- Two runs end alike: with the same value, or with errors of the same kind. -/
def EndAlike {α : Type} : Outcome α → Outcome α → Prop
  | .ok a, .ok b => a = b
  | .err e, .err f => e.kind = f.kind
  | .panic r, .panic q => r = q
  | .diverge, .diverge => True
  | _, _ => False

/-- With the errors of a socket a run ends alike, and leaves the same state. -/
theorem map_err_end_alike {σ α : Type} (p : Proc σ α) (s : σ) :
    EndAlike ((mapErr socketError p).run s).1 (p.run s).1 ∧
      ((mapErr socketError p).run s).2 = (p.run s).2 := by
  rcases hp : p.run s with ⟨_ | _ | _ | _, t⟩ <;> simp [mapErr, hp, EndAlike, kind_socket_error]

/-- `VarInt::read_from` reads the numerals of at most five bytes, with no shift out of range, and
takes exactly five bytes of a longer one; `read_packet_length` ends in the same way on a stream
of the same bytes, and takes as many of them. -/
theorem read_length_as_varint (s : Bytes) :
    ReadsNumeral 5 32 (· = 5) (fun v : VarInt => v.val.toInt) s (readFrom.run s) ∧
      ∀ ctx : StreamCtx,
        let read := (VarInt.val <$> readFrom : Reader Int32).run s
        let length := readPacketLength.run { ctx with incoming := s }
        EndAlike length.1 read.1 ∧ length.2 = { ctx with incoming := read.2 } := by
  refine ⟨varint_reads_numeral s, fun ctx => ?_⟩
  have hlength : readPacketLength = mapErr socketError (zoom socket (VarInt.val <$> readFrom)) := by
    rw [read_packet_length_eq, zoom_map]
  rw [hlength]
  exact map_err_end_alike _ _

/-! ## Packets -/

/-- The buffer takes every length that is not negative. -/
theorem resize_buf_run {n : Int32} (h : 0 ≤ n.toInt) (ctx : StreamCtx) :
    (resizeBuf (asUsize n)).run ctx =
      (.ok (), { ctx with buf := List.replicate n.toInt.toNat 0 }) := by
  rw [resizeBuf, allocate_length (by decide) (by decide), if_pos h, pure_bind,
    as_usize_of_nonneg h]

/-- A negative length is more than the buffer takes. -/
theorem resize_buf_negative {n : Int32} (h : n.toInt < 0) (ctx : StreamCtx) :
    (resizeBuf (asUsize n)).run ctx = (.panic .capacityOverflow, ctx) := by
  rw [resizeBuf, allocate_length (by decide) (by decide), if_neg (by omega)]
  rfl

/-- A payload that has arrived in full fills the buffer. -/
theorem fill_buf_run {ctx : StreamCtx} (h : ctx.buf.length ≤ ctx.incoming.length) :
    fillBuf.run ctx = (.ok (), { ctx with
      incoming := ctx.incoming.drop ctx.buf.length
      buf := ctx.incoming.take ctx.buf.length }) := by
  simp only [fillBuf, if_pos h]

/-- A payload that ends early is an error. -/
theorem fill_buf_short (ctx : StreamCtx) (h : ctx.incoming.length < ctx.buf.length) :
    ∃ ctx', fillBuf.run ctx = (.err Reader.earlyEof, ctx') := by
  simp only [fillBuf, if_neg (Nat.not_le_of_lt h)]
  exact ⟨_, rfl⟩

variable {P : Type} [FromBytes P] {ctx : StreamCtx}

/-- Behind its length a packet is read from an empty buffer. -/
theorem read_packet_of_length {n : Int32} {rest : Bytes}
    (h : StartsWithVarInt ctx.incoming n rest) :
    (readPacket P).run ctx = (do
      resizeBuf (asUsize n)
      fillBuf
      decodeBuf P).run { ctx with incoming := rest, buf := [] } := by
  have hclear : clearBuf.run ctx = (.ok (), { ctx with buf := [] }) := rfl
  have hlength : readPacketLength.run { ctx with buf := [] } =
      (.ok n, { ctx with incoming := rest, buf := [] }) :=
    read_packet_length_ok_iff.mpr ⟨rest, h, rfl⟩
  rw [readPacket, bind_of_ok hclear, bind_of_ok hlength]

/-- A frame is consumed as a whole, and the packet is decoded from its payload alone. -/
theorem read_packet_of_frame {payload rest : Bytes}
    (h : StartsWithBlock ctx.incoming payload rest) :
    (readPacket P).run ctx = (((readFrom : Reader P).run payload).1,
      { ctx with incoming := rest, buf := payload }) := by
  obtain ⟨n, hstart, hlen⟩ := h
  have hresize := resize_buf_run (by omega : 0 ≤ n.toInt)
    { ctx with incoming := payload ++ rest, buf := [] }
  rw [read_packet_of_length hstart, bind_of_ok hresize, hlen, Int.toNat_natCast]
  rw [bind_of_ok (fill_buf_run (by simp))]
  simp [decodeBuf]

/-- A negative length is a panic. -/
theorem read_packet_negative {n : Int32} {rest : Bytes}
    (h : StartsWithVarInt ctx.incoming n rest) (hneg : n.toInt < 0) :
    (readPacket P).run ctx =
      (.panic .capacityOverflow, { ctx with incoming := rest, buf := [] }) := by
  rw [read_packet_of_length h, bind_of_panic (resize_buf_negative hneg _)]

/-- A stream that ends in the payload is an error. -/
theorem read_packet_short {n : Int32} {rest : Bytes} (h : StartsWithVarInt ctx.incoming n rest)
    (hshort : rest.length < n.toInt) :
    ∃ ctx', (readPacket P).run ctx = (.err Reader.earlyEof, ctx') := by
  have hresize := resize_buf_run (by omega : 0 ≤ n.toInt) { ctx with incoming := rest, buf := [] }
  have hlen : rest.length < (List.replicate n.toInt.toNat (0 : UInt8)).length := by
    rw [List.length_replicate]
    omega
  obtain ⟨ctx', hfill⟩ := fill_buf_short { ctx with
    incoming := rest, buf := List.replicate n.toInt.toNat 0 } hlen
  exact ⟨ctx', by rw [read_packet_of_length h, bind_of_ok hresize, bind_of_err hfill]⟩

/-- A packet is read without a panic exactly when the length of its frame is not negative and
its payload, if all of it arrives, is decoded without a panic. -/
theorem returns_read_packet_iff :
    Returns (readPacket P) ctx ↔ ¬ NegativeLength ctx.incoming ∧
      ∀ payload rest, StartsWithBlock ctx.incoming payload rest →
        Returns (readFrom : Reader P) payload := by
  constructor
  · intro h
    refine ⟨?_, fun payload rest hframe => ?_⟩
    · rintro ⟨n, rest, hstart, hneg⟩
      rw [Returns, read_packet_negative hstart hneg] at h
      exact h
    · rw [Returns, read_packet_of_frame hframe] at h
      exact h
  · rintro ⟨hneg, hpayload⟩
    by_cases hs : ∃ n rest, StartsWithVarInt ctx.incoming n rest
    · obtain ⟨n, rest, hstart⟩ := hs
      have hnonneg : 0 ≤ n.toInt := by
        by_contra hlt
        exact hneg ⟨n, rest, hstart, by omega⟩
      by_cases hshort : rest.length < n.toInt
      · obtain ⟨ctx', hrun⟩ := read_packet_short (P := P) hstart hshort
        exact returns_of_err hrun
      · have hframe := starts_with_block_of_le hstart hnonneg (Int.not_lt.mp hshort)
        rw [Returns, read_packet_of_frame hframe]
        exact hpayload _ _ hframe
    · -- a stream with no length is only read up to where the length fails
      refine returns_bind_iff.mpr ⟨trivial, fun _ ctx' hclear => ?_⟩
      obtain ⟨-, rfl⟩ := Prod.mk.inj hclear
      refine returns_bind_iff.mpr ⟨returns_read_packet_length _, fun n ctx' hlength => ?_⟩
      obtain ⟨rest, hstart, -⟩ := read_packet_length_ok_iff.mp hlength
      exact absurd ⟨n, rest, hstart⟩ hs

end StreamCtx

end Bws.Server
