import Bws.Base.Future
import Bws.Protocol.Writable
import Bws.Server.Framing

/-!
# Frames on a connection

`read_packet` and `write_packet` of a connection, as futures that may be dropped wherever they
await something. `reads_packet` says that what `read_packet` takes off the stream is what
`packetReader` takes off its bytes, so nothing here depends on how the bytes arrive, and
`write_packet_cases` that a packet is sent as one frame or not at all. On a stream that is closed
they do what the procedures of `StreamCtx` do: `read_packet_agrees` and `write_packet_agrees`.
-/

namespace Bws.Session

open Bws.Base Bws.Base.Proc Bws.Base.Future Bws.Protocol Bws.Server

variable {Q R : Type}

/-! ## Reading -/

/-- A big-endian number of `n` bytes. -/
def readNumber (n : Nat) : Future Q R Nat :=
  BigEndian.value <$> Future.readExact Reader.unexpectedEnd n

/-- `socket.read_u8()`. -/
def readU8 : Future Q R UInt8 := UInt8.ofNat <$> readNumber 1

/-- `value << amount`, which unwinds when the amount reaches the width. -/
def shiftLeft (value : BitVec 32) (amount : Nat) : Future Q R (BitVec 32) :=
  if amount < 32 then pure (value <<< amount) else Future.unwind .shiftOverflow

/-- One round of `read_packet_length`. -/
def readLengthRound : Nat × BitVec 32 → Future Q R ((Nat × BitVec 32) ⊕ BitVec 32)
  | (numRead, result) =>
      if numRead == 5 then Future.fail ⟨.invalidData, "VarInt is too big"⟩ else do
        let byte ← readU8
        let value := (byte &&& 0b01111111).toBitVec.setWidth 32
        let shifted ← shiftLeft value (7 * numRead)
        let result := result ||| shifted
        let numRead := numRead + 1
        if byte &&& 0b10000000 = 0 then pure (.inr result) else pure (.inl (numRead, result))

/-- Read the length of a frame. -/
def readPacketLength : Future Q R Int32 :=
  (fun result => Int32.ofBitVec result) <$> Future.loop readLengthRound 6 (0, 0)

/-- `buf.resize(n, 0x00)` on a cleared buffer. -/
def resizeBuf (n : Nat) : Future Q R Unit :=
  if 1 * n ≤ isizeMax then pure () else Future.unwind .capacityOverflow

/-- Read a frame and decode a packet from it. -/
def readPacket (P : Type) [FromBytes P] : Future Q R P := do
  let packetLength ← readPacketLength
  resizeBuf (asUsize packetLength)
  let buf ← Future.readExact Reader.earlyEof (asUsize packetLength)
  .ended ((readFrom : Reader P).run buf).1

/-- The same off a byte string. -/
def packetReader (P : Type) [FromBytes P] : Reader P := do
  let packetLength ← (readFrom : Reader VarInt)
  allocate 1 (asUsize packetLength.val)
  let buf ← Reader.readExact (asUsize packetLength.val)
  ⟨fun s => (((readFrom : Reader P).run buf).1, s)⟩

/-! ## Writing -/

/-- What a buffer holds behind a write. -/
def written (buf : Bytes) (write : Proc Bytes Nat) : Future Q R Bytes :=
  match write.run buf with
  | (.ok _, out) => pure out
  | (.err e, _) => Future.fail e
  | (.panic r, _) => Future.unwind r
  | (.diverge, _) => .ended .diverge

/-- Send a packet as a frame. The length is counted in a pass of its own. -/
def writePacket {P : Type} [ToBytes P] (packet : P) : Future Q R Unit := do
  let len ← .ended ((writeTo packet).run NoopWriter.mk).1
  let buf ← written [] (writeTo (⟨Int32.ofNat len⟩ : VarInt))
  let buf ← written buf (writeTo packet)
  writeAll buf

/-! ## What is read -/

/-- A byte is read from the stream. -/
theorem reads_u8 : Reads (readU8 : Future Q R UInt8) Reader.readByte := by
  rw [BigEndian.read_byte_eq]
  exact ((Reads.readExact _ 1).map _).map _

/-- A round reads a group of seven bits. -/
theorem reads_length_round (x : Nat × BitVec 32) :
    Reads (readLengthRound x : Future Q R _)
      (readGroup (· == 5) "VarInt is too big" Reader.readByte x) := by
  obtain ⟨numRead, result⟩ := x
  simp only [readLengthRound, readGroup]
  split
  · exact .fail _
  · refine reads_u8.bind fun byte => ?_
    refine Reads.bind ?_ fun shifted => ?_
    · unfold shiftLeft shl
      split
      · exact .pure _
      · exact .unwind _
    · split <;> exact .pure _

/-- The length of a frame is a `VarInt`. -/
theorem reads_packet_length :
    Reads (readPacketLength : Future Q R Int32) (VarInt.val <$> (readFrom : Reader VarInt)) := by
  have hread : VarInt.val <$> (readFrom : Reader VarInt) =
      (fun result => Int32.ofBitVec result) <$>
        Proc.loop (readGroup (w := 32) (· == 5) "VarInt is too big" Reader.readByte) 6 (0, 0) := by
    rw [show (readFrom : Reader VarInt) = (fun result => ⟨Int32.ofBitVec result⟩) <$>
      Proc.loop (readGroup (w := 32) (· == 5) "VarInt is too big" Reader.readByte) 6 (0, 0)
      from rfl, ← comp_map]
    rfl
  rw [hread]
  exact (Reads.loop reads_length_round 6 (0, 0)).map _

/-- A frame is read from the stream as from its bytes. -/
theorem reads_packet (P : Type) [FromBytes P] :
    Reads (readPacket P : Future Q R P) (packetReader P) := by
  have hreader : packetReader P = (do
      let packetLength ← VarInt.val <$> (readFrom : Reader VarInt)
      allocate 1 (asUsize packetLength)
      let buf ← Reader.readExact (asUsize packetLength)
      (⟨fun s => (((readFrom : Reader P).run buf).1, s)⟩ : Reader P)) := by
    rw [map_eq_pure_bind, bind_assoc]
    rfl
  rw [hreader]
  refine reads_packet_length.bind fun packetLength => ?_
  refine Reads.bind ?_ fun _ => (Reads.readExact _ _).bind fun buf => ?_
  · unfold resizeBuf allocate
    split
    · exact .pure _
    · exact .unwind _
  · exact ⟨⟨fun r => (((readFrom : Reader P).run buf).1, r)⟩, rfl, fun r => by
      cases ((readFrom : Reader P).run buf).1 with
      | ok a => exact .ok a rfl rfl
      | err e => exact .err e _ _
      | panic reason => exact .panic reason _ _
      | diverge => exact .diverge _ _⟩

variable {P : Type} [FromBytes P] {s payload rest : Bytes}

/-- A frame is taken as a whole, and the packet is decoded from its payload alone. -/
theorem packet_reader_of_block (h : StartsWithBlock s payload rest) :
    (packetReader P).run s = (((readFrom : Reader P).run payload).1, rest) := by
  obtain ⟨n, hstart, hlen⟩ := h
  have hsize : asUsize n = payload.length := by
    have hcast := as_usize_of_nonneg (n := n) (by omega)
    omega
  have hfit := n.toInt_lt
  rw [packetReader, bind_of_ok (read_varint_of_starts hstart), hsize,
    allocate_of_le (by unfold isizeMax; omega), pure_bind,
    bind_of_ok (Reader.read_exact_append payload rest)]

/-- A packet is only read from a frame. -/
theorem packet_reader_ok_iff {p : P} :
    (packetReader P).run s = (.ok p, rest) ↔ ∃ payload, StartsWithBlock s payload rest ∧
      ((readFrom : Reader P).run payload).1 = .ok p := by
  constructor
  · intro h
    obtain ⟨n, middle, hstart, hnonneg, hrest⟩ :=
      (read_length_ok_iff (by decide) (by decide)).mp h
    obtain ⟨buf, _, hread, hdecode⟩ := bind_ok_iff.mp hrest
    obtain ⟨rfl, hlen⟩ := Reader.read_exact_ok_iff.mp hread
    obtain ⟨hp, rfl⟩ := Prod.mk.inj hdecode
    rw [as_usize_of_nonneg hnonneg] at hlen
    exact ⟨buf, ⟨n, hstart, by omega⟩, hp⟩
  · rintro ⟨payload, hblock, hp⟩
    rw [packet_reader_of_block hblock, hp]

/-- A frame comes to an end when the reader of its packet does. -/
theorem packet_reader_ends (h : ∀ s, Ends (readFrom : Reader P) s) (s : Bytes) :
    Ends (packetReader P) s := by
  refine (returns_read_varint s).ends.bind fun length rest _ => ?_
  refine Ends.bind ?_ fun _ rest' _ => ?_
  · unfold allocate
    split <;> simp [Ends]
  · exact (Reader.returns_read_exact _ _).ends.bind fun buf _ _ => h buf

/-- A packet that is read from the bytes in front is taken off the stream. -/
theorem read_packet_of_block {w : World Q R} {p : P}
    (h : StartsWithBlock w.stream.pending payload rest)
    (hp : ((readFrom : Reader P).run payload).1 = .ok p) :
    ∃ r, (readPacket P).run.run w = (.ok p, { w with stream := r }) ∧ r.pending = rest ∧
      r.ending = w.stream.ending :=
  (reads_packet P).of_ok (packet_reader_ok_iff.mpr ⟨payload, h, hp⟩)

/-- A packet that is taken off a stream has been in a frame in front. -/
theorem block_of_read_packet {w w' : World Q R} {p : P}
    (h : (readPacket P).run.run w = (.ok p, w')) :
    (∃ payload, StartsWithBlock w.stream.pending payload w'.stream.pending ∧
      ((readFrom : Reader P).run payload).1 = .ok p) ∧
      w' = { w with stream := w'.stream } ∧ w'.stream.ending = w.stream.ending := by
  obtain ⟨hread, hframe, hending⟩ := (reads_packet P).to_ok h
  exact ⟨packet_reader_ok_iff.mp hread, hframe, hending⟩

/-! ## Frames in front of a stream -/

/-- A packet in a frame in front of a stream. -/
def TakesPacket (P : Type) [FromBytes P] (s : Bytes) (p : P) (rest : Bytes) : Prop :=
  ∃ payload, StartsWithBlock s payload rest ∧ ((readFrom : Reader P).run payload).1 = .ok p

/-- Packets in frames in front of a stream. -/
inductive TakesPackets (P : Type) [FromBytes P] : Bytes → List P → Bytes → Prop where
  | nil (s : Bytes) : TakesPackets P s [] s
  | cons {s middle rest : Bytes} {p : P} {ps : List P} (hfirst : TakesPacket P s p middle)
      (hrest : TakesPackets P middle ps rest) : TakesPackets P s (p :: ps) rest

section Front

variable {P α : Type} [FromBytes P] {s rest : Bytes} {p : P}

/-- A frame is longer than what is behind it. -/
theorem TakesPacket.lt (h : TakesPacket P s p rest) : rest.length < s.length := by
  obtain ⟨payload, ⟨n, ⟨q, rfl, hq, -, -⟩, -⟩, -⟩ := h
  have hpos := List.length_pos_iff.mpr hq.ne_nil
  simp only [List.length_append]
  omega

/-- The packet in front of a stream is read. -/
theorem TakesPacket.read {w : World Q R} (h : TakesPacket P w.stream.pending p rest) :
    ∃ r, (readPacket P).run.run w = (.ok p, { w with stream := r }) ∧ r.pending = rest ∧
      r.ending = w.stream.ending := by
  obtain ⟨payload, hblock, hp⟩ := h
  exact read_packet_of_block hblock hp

/-- Where no packet is in front, none is read and nothing else is done; and if the reader of the
packet always comes to an end, only a silent stream is waited for without end. -/
theorem read_packet_of_none {w : World Q R} (h : ∀ p rest, ¬ TakesPacket P w.stream.pending p rest)
    (hends : ∀ s, Ends (readFrom : Reader P) s) :
    ∃ (outcome : Outcome P) (r : BufReader),
      (readPacket P).run.run w = (outcome, { w with stream := r }) ∧ (∀ p, outcome ≠ .ok p) ∧
      (w.stream.ending ≠ .silent → outcome ≠ .diverge) := by
  have htouches := (reads_packet P).touches w
  rcases hrun : (readPacket P).run.run w with ⟨outcome, w'⟩
  rw [hrun] at htouches
  refine ⟨outcome, w'.stream, by rw [← htouches], ?_, ?_⟩
  · rintro p rfl
    obtain ⟨⟨payload, hblock, hp⟩, -, -⟩ := block_of_read_packet hrun
    exact h p _ ⟨payload, hblock, hp⟩
  · intro hending
    have hends' := (reads_packet P).ends (packet_reader_ends hends _) hending
    rwa [Ends, hrun] at hends'

/-- A packet that comes next is read. -/
theorem run_read_bind {f : P → Future Q R α} {w : World Q R}
    (h : TakesPacket P w.stream.pending p rest) :
    ∃ r, r.pending = rest ∧ r.ending = w.stream.ending ∧
      (readPacket P >>= f).run.run w = (f p).run.run { w with stream := r } := by
  obtain ⟨r, hread, hpending, hending⟩ := h.read
  exact ⟨r, hpending, hending, by rw [Future.run_bind, bind_of_ok hread]⟩

/-- Where no packet comes next, nothing is done behind the read. -/
theorem run_none_bind {f : P → Future Q R α} {w : World Q R}
    (h : ∀ p rest, ¬ TakesPacket P w.stream.pending p rest)
    (hends : ∀ s, Ends (readFrom : Reader P) s) :
    ∃ o r, (readPacket P >>= f).run.run w = (o, { w with stream := r }) ∧ (∀ a, o ≠ .ok a) ∧
      (w.stream.ending ≠ .silent → o ≠ .diverge) := by
  obtain ⟨o, r, hread, hnone, hdiverge⟩ := read_packet_of_none h hends
  obtain ⟨o', hrun, hnone', hiff⟩ := bind_of_none hread hnone fun p => (f p).run
  refine ⟨o', r, by rw [Future.run_bind, hrun], hnone', fun hending => ?_⟩
  rw [Ne, hiff]
  exact hdiverge hending

end Front

/-! ## What is sent -/

section Writing

variable {P : Type} [i : ToBytes P] {a : P}

/-- The bytes that a packet is written in. -/
def encoding (packet : P) : Bytes := ((writeTo packet).run ([] : Bytes)).2

/-- The frame of a packet. -/
def packetFrame (packet : P) : Bytes := StreamCtx.frame (encoding packet)

/-- What the writers append is the encoding. -/
theorem encoding_of_encodes {bytes : Bytes} (h : StreamCtx.Encodes a bytes) :
    encoding a = bytes := by
  rw [encoding, h.appends, List.nil_append]

/-- A write that succeeds. -/
theorem written_of_ok {buf out : Bytes} {write : Proc Bytes Nat} {n : Nat}
    (h : write.run buf = (.ok n, out)) : (written buf write : Future Q R Bytes) = pure out := by
  rw [written, h]

/-- A packet that can be written is sent in its frame. -/
theorem write_packet_of_encodes {bytes : Bytes} (h : StreamCtx.Encodes a bytes) :
    (writePacket a : Future Q R Unit) = writeAll (packetFrame a) := by
  have hlength := written_of_ok (Q := Q) (R := R) (write_varint_run (lengthPrefix bytes.length) [])
  have hpacket := written_of_ok (Q := Q) (R := R) (h.appends (lengthPrefix bytes.length).bytes)
  rw [writePacket, h.counts, packetFrame, encoding_of_encodes h]
  change (written [] (writeTo (lengthPrefix bytes.length)) >>= fun buf =>
    written buf (writeTo a) >>= fun buf => writeAll buf) = _
  rw [hlength, List.nil_append]
  change (written (lengthPrefix bytes.length).bytes (writeTo a) >>= fun buf => writeAll buf) = _
  rw [hpacket]
  rfl

/-- A packet of the format is sent as a frame, or the writer fails before anything is sent. -/
theorem write_packet_cases {size : P → Nat} (hformat : Format P i size) (a : P) :
    (StreamCtx.Encodes a (encoding a) ∧
        (writePacket a : Future Q R Unit) = writeAll (packetFrame a)) ∨
      ((¬ ∃ n out, (writeTo a).run ([] : Bytes) = (.ok n, out)) ∧ ∃ outcome, outcome ≠ .ok () ∧
        (writePacket a : Future Q R Unit) = .ended outcome) := by
  obtain ⟨outcome, bytes, hrun, hnoop, -⟩ := hformat.counts a
  cases outcome with
  | ok n =>
      obtain ⟨bytes, hbytes, -, -, -⟩ := StreamCtx.encodes_of_ok (hformat.counts a) (hrun [])
      exact .inl ⟨encoding_of_encodes hbytes ▸ hbytes, write_packet_of_encodes hbytes⟩
  | err | panic | diverge =>
      refine .inr ⟨?_, ?_⟩
      · rintro ⟨n, out, h⟩
        cases (hrun []).symm.trans h
      · rw [writePacket, hnoop]
        refine ⟨_, ?_, rfl⟩
        simp

end Writing

/-! ## Connections whose stream is at hand -/

/-- On a stream that is closed the future comes to the same end as the procedure on the bytes of
the stream, leaves the same bytes, and does nothing else. -/
def AgreesClosed {α : Type} (t : Future Q R α) (p : Proc StreamCtx α) : Prop :=
  ∀ (w : World Q R) (ctx : StreamCtx), w.stream.ending = .closed →
    ctx.incoming = w.stream.pending → ∃ r : BufReader,
      t.run.run w = ((p.run ctx).1, { w with stream := r }) ∧ r.ending = .closed ∧
        (p.run ctx).2.incoming = r.pending

namespace AgreesClosed

variable {α β : Type}

theorem pure (a : α) : AgreesClosed (Pure.pure a : Future Q R α) (Pure.pure a) :=
  fun w _ hclosed hbytes => ⟨w.stream, rfl, hclosed, hbytes⟩

theorem fail (e : Error) : AgreesClosed (Future.fail e : Future Q R α) (Proc.fail e) :=
  fun w _ hclosed hbytes => ⟨w.stream, rfl, hclosed, hbytes⟩

theorem unwind (r : Panic) : AgreesClosed (Future.unwind r : Future Q R α) (Proc.unwind r) :=
  fun w _ hclosed hbytes => ⟨w.stream, rfl, hclosed, hbytes⟩

/-- In sequence, one goes on where the other has stopped. -/
theorem bind {t : Future Q R α} {p : Proc StreamCtx α} {f : α → Future Q R β}
    {g : α → Proc StreamCtx β} (ht : AgreesClosed t p) (hf : ∀ a, AgreesClosed (f a) (g a)) :
    AgreesClosed (t >>= f) (p >>= g) := by
  intro w ctx hclosed hbytes
  obtain ⟨r, hrun, hending, hleft⟩ := ht w ctx hclosed hbytes
  rcases hp : p.run ctx with ⟨a | e | reason | _, ctx'⟩ <;> rw [hp] at hrun hleft
  · rw [Future.run_bind, bind_of_ok hrun, bind_of_ok hp]
    exact hf a { w with stream := r } ctx' hending hleft
  · rw [Future.run_bind, bind_of_err hrun, bind_of_err hp]
    exact ⟨r, rfl, hending, hleft⟩
  · rw [Future.run_bind, bind_of_panic hrun, bind_of_panic hp]
    exact ⟨r, rfl, hending, hleft⟩
  · rw [Future.run_bind, bind_of_diverge hrun, bind_of_diverge hp]
    exact ⟨r, rfl, hending, hleft⟩

/-- Mapping the value. -/
theorem map {t : Future Q R α} {p : Proc StreamCtx α} (h : AgreesClosed t p) (f : α → β) :
    AgreesClosed (f <$> t) (f <$> p) := by
  rw [map_eq_pure_bind f p]
  exact h.bind fun a => pure (f a)

/-- Loops with rounds that agree. -/
theorem loop {body : β → Future Q R (β ⊕ α)} {body' : β → Proc StreamCtx (β ⊕ α)}
    (h : ∀ b, AgreesClosed (body b) (body' b)) (rounds : Nat) (b : β) :
    AgreesClosed (Future.loop body rounds b) (Proc.loop body' rounds b) := by
  induction rounds generalizing b with
  | zero => exact fun w _ hclosed hbytes => ⟨w.stream, rfl, hclosed, hbytes⟩
  | succ rounds ih =>
      refine (h b).bind fun next => ?_
      cases next with
      | inl next => exact ih next
      | inr result => exact pure result

/-- A number of bytes. -/
theorem readExact (eof : Error) (n : Nat) :
    AgreesClosed (Future.readExact eof n : Future Q R Bytes)
      (mapErr (fun _ => eof) (zoom StreamCtx.socket (Reader.readExact n))) := by
  intro w ctx hclosed hbytes
  obtain ⟨r, hrun, hending, hleft⟩ := read_exact_closed eof n w hclosed
  refine ⟨r, ?_, hending, ?_⟩
  all_goals
    simp only [hrun, hleft, mapErr, zoom, StreamCtx.socket, Reader.run_read_exact, hbytes]
    by_cases hle : n ≤ w.stream.pending.length
  · rw [if_pos hle, if_pos hle]
  · rw [if_neg hle, if_neg hle]
  · rw [if_pos hle]
  · rw [if_neg hle]
    exact (List.drop_of_length_le (Nat.le_of_not_le hle)).symm

/-- A byte of the stream. -/
theorem readU8 : AgreesClosed (Session.readU8 : Future Q R UInt8) StreamCtx.readU8 := by
  rw [StreamCtx.readU8, BigEndian.read_byte_eq, zoom_map, zoom_map, map_err_map, map_err_map]
  exact ((readExact _ 1).map _).map _

/-- A round of the length. -/
theorem readLengthRound (x : Nat × BitVec 32) :
    AgreesClosed (Session.readLengthRound x : Future Q R _)
      (readGroup (· == 5) "VarInt is too big" StreamCtx.readU8 x) := by
  obtain ⟨numRead, result⟩ := x
  simp only [Session.readLengthRound, readGroup]
  split
  · exact fail _
  · refine readU8.bind fun byte => ?_
    refine bind ?_ fun shifted => ?_
    · unfold shiftLeft shl
      split
      · exact pure _
      · exact unwind _
    · split <;> exact pure _

/-- The length of a frame. -/
theorem readPacketLength :
    AgreesClosed (Session.readPacketLength : Future Q R Int32) StreamCtx.readPacketLength :=
  (loop readLengthRound 6 (0, 0)).map _

end AgreesClosed

/-- On a stream that is closed, a buffer is filled with what is read of as many bytes, or both meet
the end of the stream. -/
theorem fill_agrees {n : Nat} {w : World Q R} (ctx : StreamCtx)
    (hclosed : w.stream.ending = .closed) (hbytes : ctx.incoming = w.stream.pending)
    (hlength : ctx.buf.length = n) :
    ∃ r : BufReader, r.ending = .closed ∧
      ((∃ buf, (Future.readExact Reader.earlyEof n).run.run w = (.ok buf, { w with stream := r }) ∧
          StreamCtx.fillBuf.run ctx = (.ok (), { ctx with incoming := r.pending, buf := buf })) ∨
        ∃ buf, (Future.readExact Reader.earlyEof n).run.run w =
            (.err Reader.earlyEof, { w with stream := r }) ∧
          StreamCtx.fillBuf.run ctx =
            (.err Reader.earlyEof, { ctx with incoming := r.pending, buf := buf })) := by
  obtain ⟨r, hrun, hending, hleft⟩ := read_exact_closed Reader.earlyEof n w hclosed
  refine ⟨r, hending, ?_⟩
  rw [StreamCtx.fillBuf, hrun, hleft]
  dsimp only
  rw [hlength, hbytes]
  by_cases hle : n ≤ w.stream.pending.length
  · rw [if_pos hle, if_pos hle]
    exact .inl ⟨_, rfl, rfl⟩
  · rw [if_neg hle, if_neg hle, List.drop_of_length_le (Nat.le_of_not_le hle)]
    exact .inr ⟨_, rfl, rfl⟩

/-- Behind its length, a payload fills a buffer of its own, or one of the connection. -/
theorem payload_agrees (P : Type) [FromBytes P] (n : Nat) :
    AgreesClosed (do
        resizeBuf n
        let buf ← Future.readExact Reader.earlyEof n
        .ended ((readFrom : Reader P).run buf).1 : Future Q R P)
      (do
        StreamCtx.resizeBuf n
        StreamCtx.fillBuf
        StreamCtx.decodeBuf P) := by
  intro w ctx hclosed hbytes
  by_cases hfits : 1 * n ≤ isizeMax
  · have hown : (resizeBuf n : Future Q R Unit).run.run w = (.ok (), w) := by
      rw [resizeBuf, if_pos hfits]
      rfl
    let full : StreamCtx := { ctx with buf := List.replicate n 0 }
    have hresize : (StreamCtx.resizeBuf n).run ctx = (.ok (), full) := by
      rw [StreamCtx.resizeBuf, allocate, if_pos hfits, pure_bind]
    obtain ⟨r, hending, ⟨buf, hread, hfill⟩ | ⟨buf, hread, hfill⟩⟩ :=
      fill_agrees full hclosed hbytes List.length_replicate
    · rw [Future.run_bind, bind_of_ok hown, Future.run_bind, bind_of_ok hread, bind_of_ok hresize,
        bind_of_ok hfill]
      exact ⟨r, rfl, hending, rfl⟩
    · rw [Future.run_bind, bind_of_ok hown, Future.run_bind, bind_of_err hread,
        bind_of_ok hresize, bind_of_err hfill]
      exact ⟨r, rfl, hending, rfl⟩
  · have hown : (resizeBuf n : Future Q R Unit).run.run w = (.panic .capacityOverflow, w) := by
      rw [resizeBuf, if_neg hfits]
      rfl
    have hresize : (StreamCtx.resizeBuf n).run ctx = (.panic .capacityOverflow, ctx) := by
      rw [StreamCtx.resizeBuf, allocate, if_neg hfits]
      rfl
    rw [Future.run_bind, bind_of_panic hown, bind_of_panic hresize]
    exact ⟨w.stream, rfl, hclosed, hbytes⟩

/-- On a stream that is closed a packet is read as from a stream of the same bytes. -/
theorem read_packet_agrees (P : Type) [FromBytes P] :
    AgreesClosed (readPacket P : Future Q R P) (StreamCtx.readPacket P) :=
  fun w ctx hclosed hbytes => (AgreesClosed.readPacketLength.bind fun length =>
    payload_agrees P (asUsize length)) w { ctx with buf := [] } hclosed hbytes

/-- The future comes to the same end as the procedure on a connection and sends the same bytes, and
nothing else is done but for the buffer of the connection. -/
def SendsAlike (t : Future Q R Unit) (p : Proc StreamCtx Unit) (w : World Q R)
    (ctx : StreamCtx) : Prop :=
  ∃ out buf, t.run.run w = ((p.run ctx).1, { w with sent := w.sent ++ out }) ∧
    (p.run ctx).2 = { ctx with outgoing := ctx.outgoing ++ out, buf := buf }

/-- Where the procedure sends nothing and comes to no value, nor does the future. -/
theorem SendsAlike.of_ended {o : Outcome Unit} {p : Proc StreamCtx Unit} {w : World Q R}
    {ctx : StreamCtx} {buf : Bytes} (h : p.run ctx = (o, { ctx with buf := buf })) :
    SendsAlike (.ended o) p w ctx := by
  refine ⟨[], buf, ?_, ?_⟩
  · rw [h, List.append_nil]
    rfl
  · rw [h, List.append_nil]

/-- A write to a buffer of its own, or to that of the connection. -/
theorem written_alike {write : Proc Bytes Nat} {f : Bytes → Future Q R Unit}
    {g : Proc StreamCtx Unit} {w : World Q R} (ctx : StreamCtx)
    (h : ∀ out, SendsAlike (f out) g w { ctx with buf := out }) :
    SendsAlike (written ctx.buf write >>= f) (zoom StreamCtx.buffer write >>= fun _ => g) w
      ctx := by
  rcases hwrite : write.run ctx.buf with ⟨n | e | r | _, out⟩
  all_goals
    have hrun : (zoom StreamCtx.buffer write).run ctx = (_, { ctx with buf := out }) :=
      congrArg (fun x : Outcome Nat × Bytes => (x.1, { ctx with buf := x.2 })) hwrite
    rw [written, hwrite]
  · obtain ⟨sent, buf, hsame, hleft⟩ := h out
    refine ⟨sent, buf, ?_, ?_⟩
    · rw [bind_of_ok hrun]
      exact hsame
    · rw [bind_of_ok hrun]
      exact hleft
  · exact .of_ended (bind_of_err hrun _)
  · exact .of_ended (bind_of_panic hrun _)
  · exact .of_ended (bind_of_diverge hrun _)

/-- A packet is sent as on a connection whose stream is at hand. -/
theorem write_packet_agrees {P : Type} [ToBytes P] (packet : P) (w : World Q R)
    (ctx : StreamCtx) :
    SendsAlike (writePacket packet) (StreamCtx.writePacket packet) w ctx := by
  let cleared : StreamCtx := { ctx with buf := [] }
  have hclear : StreamCtx.clearBuf.run ctx = (.ok (), cleared) := rfl
  rcases hcount : (writeTo packet).run NoopWriter.mk with ⟨len | e | r | _, u⟩
  all_goals
    have hrun : (StreamCtx.countPacket packet).run cleared = (_, cleared) :=
      congrArg (fun x : Outcome Nat × NoopWriter => (x.1, cleared)) hcount
    rw [writePacket, hcount]
  · have hrest : SendsAlike
        (written [] (writeTo (⟨Int32.ofNat len⟩ : VarInt)) >>= fun buf =>
          written buf (writeTo packet) >>= fun buf => writeAll buf)
        (zoom StreamCtx.buffer (writeTo (⟨Int32.ofNat len⟩ : VarInt)) >>= fun _ =>
          zoom StreamCtx.buffer (writeTo packet) >>= fun _ => StreamCtx.sendBuf) w cleared :=
      written_alike cleared fun out =>
        written_alike { cleared with buf := out } fun sent => ⟨sent, sent, rfl, rfl⟩
    obtain ⟨sent, buf, hsame, hleft⟩ := hrest
    refine ⟨sent, buf, ?_, ?_⟩
    · rw [StreamCtx.writePacket, bind_of_ok hclear, bind_of_ok hrun]
      exact hsame
    · rw [StreamCtx.writePacket, bind_of_ok hclear, bind_of_ok hrun]
      exact hleft
  · exact .of_ended ((bind_of_ok hclear _).trans (bind_of_err hrun _))
  · exact .of_ended ((bind_of_ok hclear _).trans (bind_of_panic hrun _))
  · exact .of_ended ((bind_of_ok hclear _).trans (bind_of_diverge hrun _))

end Bws.Session
