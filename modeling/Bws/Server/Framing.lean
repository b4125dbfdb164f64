import Bws.Protocol.Reencoding
import Bws.Server.StreamCtx

/-!
# Framing

Both ends of the frames: the bytes that `write_packet` sends, and what `read_packet` makes of a
sequence of frames. `read_packet_after` says that the calls keep in step with the frames, and
`read_in_order_iff` that packets are read back in the order they were sent, as long as none of
them is longer than `i32::MAX` bytes: the length of a longer one is cut off.
-/

namespace Bws.Server

open Bws.Base Bws.Base.Proc Bws.Base.Reader Bws.Protocol

namespace StreamCtx

/-! ## What is sent -/

/-- `bytes` is what the writer of `a` appends, counted rightly in both passes. -/
structure Encodes {P : Type} [ToBytes P] (a : P) (bytes : Bytes) : Prop where
  appends : ∀ buf, (writeTo a).run buf = (.ok bytes.length, buf ++ bytes)
  counts : (writeTo a).run NoopWriter.mk = (.ok bytes.length, {})

/-- The context of the sender of `bytes`. -/
def sent (ctx : StreamCtx) (bytes : Bytes) : StreamCtx :=
  let packet := (lengthPrefix bytes.length).bytes ++ bytes
  { ctx with outgoing := ctx.outgoing ++ packet, buf := packet }

variable {P : Type} [i : ToBytes P] {a : P} {size : Nat}

/-- A writer of the format that succeeds on a buffer has encoded its value. -/
theorem encodes_of_ok (h : Counted a size) {buf out : Bytes} {n : Nat}
    (hrun : (writeTo a).run buf = (.ok n, out)) :
    ∃ bytes, Encodes a bytes ∧ bytes.length = size ∧ n = size ∧ out = buf ++ bytes := by
  obtain ⟨outcome, bytes, hbytes, hnoop, hcount⟩ := h
  obtain ⟨rfl, rfl⟩ := Prod.mk.inj ((hbytes buf).symm.trans hrun)
  obtain ⟨hn, hlen⟩ := hcount n rfl
  rw [Nat.zero_add] at hn
  obtain rfl : n = bytes.length := hn.trans hlen.symm
  exact ⟨bytes, ⟨hbytes, hnoop⟩, hlen, hn, rfl⟩

/-- Sending a packet that can be written. -/
theorem write_packet_of_encodes {bytes : Bytes} (h : Encodes a bytes) (ctx : StreamCtx) :
    (writePacket a).run ctx = (.ok (), ctx.sent bytes) := by
  have hclear : clearBuf.run ctx = (.ok (), { ctx with buf := [] }) := rfl
  have hcount : (countPacket a).run { ctx with buf := [] } =
      (.ok bytes.length, { ctx with buf := [] }) := by
    simp only [countPacket, h.counts]
  have hlength : (zoom buffer (writeTo (lengthPrefix bytes.length))).run { ctx with buf := [] } =
      (.ok (lengthPrefix bytes.length).bytes.length,
        { ctx with buf := (lengthPrefix bytes.length).bytes }) :=
    (zoom_ok_iff buffer).mpr ⟨_, write_varint_run _ [], rfl⟩
  have hpacket : (zoom buffer (writeTo a)).run
        { ctx with buf := (lengthPrefix bytes.length).bytes } =
      (.ok bytes.length, { ctx with buf := (lengthPrefix bytes.length).bytes ++ bytes }) :=
    (zoom_ok_iff buffer).mpr ⟨_, h.appends _, rfl⟩
  rw [writePacket, bind_of_ok hclear, bind_of_ok hcount]
  exact (bind_of_ok hlength _).trans (bind_of_ok hpacket _)

/-- A packet is only sent when it can be written. -/
theorem encodes_of_write_packet (h : Counted a size) {ctx ctx' : StreamCtx}
    (hrun : (writePacket a).run ctx = (.ok (), ctx')) :
    ∃ bytes, Encodes a bytes ∧ bytes.length = size ∧ ctx' = ctx.sent bytes := by
  obtain ⟨_, _, -, hrest⟩ := bind_ok_iff.mp hrun
  obtain ⟨n, _, -, hrest⟩ := bind_ok_iff.mp hrest
  obtain ⟨_, _, -, hrest⟩ := bind_ok_iff.mp hrest
  obtain ⟨k, _, hwrite, -⟩ := bind_ok_iff.mp hrest
  obtain ⟨out, hwrite, -⟩ := (zoom_ok_iff buffer).mp hwrite
  obtain ⟨bytes, hbytes, hlen, -, -⟩ := encodes_of_ok h hwrite
  refine ⟨bytes, hbytes, hlen, ?_⟩
  exact (Prod.mk.inj (hrun.symm.trans (write_packet_of_encodes hbytes ctx))).2

/-- The length in front of a packet is right exactly when it fits 31 bits. -/
theorem length_prefix_right_iff (n : Nat) : (lengthPrefix n).val.toInt = n ↔ n ≤ i32Max := by
  constructor
  · intro h
    have hlt := (lengthPrefix n).val.toInt_lt
    unfold i32Max
    omega
  · exact fun h => (length_casts h).1

/-- `write_packet` sends a length and the encoding of `a`, and the length is that of the bytes
behind it. -/
def FrameExact {P : Type} [ToBytes P] (a : P) (ctx : StreamCtx) : Prop :=
  ∃ length bytes ctx', (writePacket a).run ctx = (.ok (), ctx') ∧
    (∃ n, (writeTo a).run [] = (.ok n, bytes)) ∧
    ctx'.outgoing = ctx.outgoing ++ (VarInt.bytes length ++ bytes) ∧
    length.val.toInt = bytes.length

/-- A frame is right exactly when the length of its packet fits 31 bits. -/
theorem frame_exact_iff {bytes : Bytes} (h : Encodes a bytes) (ctx : StreamCtx) :
    FrameExact a ctx ↔ bytes.length ≤ i32Max := by
  have hsend := write_packet_of_encodes h ctx
  constructor
  · rintro ⟨length, bytes', ctx', hrun, ⟨n, hwrite⟩, hout, hexact⟩
    obtain ⟨-, rfl⟩ := Prod.mk.inj (hrun.symm.trans hsend)
    obtain rfl : bytes' = bytes := (Prod.mk.inj (hwrite.symm.trans (h.appends []))).2
    -- the bytes sent are those of one length only
    have hsame : (lengthPrefix bytes'.length).bytes ++ bytes' = length.bytes ++ bytes' :=
      List.append_cancel_left hout
    obtain ⟨hlength, -⟩ := (starts_with_bytes (lengthPrefix bytes'.length) bytes').unique
      (hsame ▸ starts_with_bytes length bytes')
    exact (length_prefix_right_iff _).mp (hlength ▸ hexact)
  · intro hle
    exact ⟨lengthPrefix bytes.length, bytes, _, hsend, ⟨_, h.appends []⟩, rfl,
      (length_prefix_right_iff _).mpr hle⟩

/-- A writer of the format returns the number of bytes it appends, and the pass that discards
them the same number; the length that is sent in front of a packet is right exactly when the
fields of the packet take at most `i32::MAX` bytes. -/
theorem count_exact_iff {size : P → Nat} (hformat : Format P i size) {a : P} {buf out : Bytes}
    {n : Nat} (hrun : (writeTo a).run buf = (.ok n, out)) :
    (∃ bytes, out = buf ++ bytes ∧ bytes.length = n) ∧
      (writeTo a).run NoopWriter.mk = (.ok n, {}) ∧
      ∀ ctx : StreamCtx, FrameExact a ctx ↔ size a ≤ i32Max := by
  obtain ⟨bytes, hbytes, hlen, rfl, rfl⟩ := encodes_of_ok (hformat.counts a) hrun
  refine ⟨⟨bytes, rfl, hlen⟩, hlen ▸ hbytes.counts, fun ctx => ?_⟩
  rw [frame_exact_iff hbytes ctx, hlen]

/-- An answer to a ping, wrapped. -/
def wrappedPing : ClientBound Unit := .status (.pingResponse ⟨7⟩)

/-- The frame of an answer to a ping is right. -/
theorem count_exact_wrapped_ping :
    letI := nullJson
    FrameExact wrappedPing ⟨[], [], []⟩ := by
  let := nullJson
  have hrun : (writeTo wrappedPing).run ([] : Bytes) = (.ok 9, [1, 0, 0, 0, 0, 0, 0, 0, 7]) := by
    decide
  exact ((count_exact_iff client_bound_format hrun).2.2 _).mpr (by decide)

/-- A request with more data than a length can count is sent with a wrong one. -/
theorem long_request_miscounted {J : Type} [SerdeJson J] {data : Bytes}
    (h : i32Max < data.length) (ctx : StreamCtx) :
    (∃ n out, (writeTo (CBLogin.pluginRequest ⟨⟨0⟩, "", ⟨data⟩⟩ : CBLogin J)).run ([] : Bytes) =
        (.ok n, out)) ∧
      ¬ FrameExact (CBLogin.pluginRequest ⟨⟨0⟩, "", ⟨data⟩⟩ : CBLogin J) ctx := by
  have hfits : StringFits "" := Nat.zero_le i32Max
  obtain ⟨n, out, hrun⟩ :=
    (cb_login_succeeds (J := J) (.pluginRequest ⟨⟨0⟩, "", ⟨data⟩⟩) []).mpr hfits
  obtain ⟨bytes, hbytes, hlen, -, -⟩ := encodes_of_ok (cb_login_format.counts _) hrun
  refine ⟨⟨n, out, hrun⟩, ?_⟩
  rw [frame_exact_iff hbytes, hlen]
  simp only [CBLogin.size, PluginRequest.size]
  omega

/-- Two GiB of zeros. -/
def hugeData : Bytes := List.replicate (2 ^ 31) 0

theorem i32_max_lt_huge_data : i32Max < hugeData.length := by
  rw [hugeData, List.length_replicate]
  decide

/-- A request with two GiB of data is written, and sent with a wrong length. -/
theorem huge_request_miscounted :
    letI := nullJson
    (∃ n out, (writeTo (CBLogin.pluginRequest ⟨⟨0⟩, "", ⟨hugeData⟩⟩ : CBLogin Unit)).run
        ([] : Bytes) = (.ok n, out)) ∧
      ¬ FrameExact (CBLogin.pluginRequest ⟨⟨0⟩, "", ⟨hugeData⟩⟩ : CBLogin Unit)
        ⟨[], [], []⟩ :=
  letI := nullJson
  long_request_miscounted i32_max_lt_huge_data _

/-! ## Frames in sequence -/

/-- A payload behind its length. -/
def frame (payload : Bytes) : Bytes := (lengthPrefix payload.length).bytes ++ payload

/-- Frames one after the other. -/
def frames (payloads : List Bytes) : Bytes := payloads.flatMap frame

/-- A call of `read_packet`, for packets of the type `P`. -/
structure Call where
  P : Type
  [fromBytes : FromBytes P]

instance (call : Call) : FromBytes call.P := call.fromBytes

/-- The connection after some calls of `read_packet`, whatever they have returned. -/
def afterCalls : List Call → StreamCtx → StreamCtx
  | [], ctx => ctx
  | call :: calls, ctx => afterCalls calls ((readPacket call.P).run ctx).2

/-- A frame of at most `i32::MAX` bytes starts with its payload. -/
theorem starts_with_frame {payload : Bytes} (h : payload.length ≤ i32Max) (rest : Bytes) :
    StartsWithBlock (frame payload ++ rest) payload rest := by
  refine ⟨(lengthPrefix payload.length).val, ?_, (length_prefix_right_iff _).mpr h⟩
  rw [frame, List.append_assoc]
  exact starts_with_bytes _ _

/-- Frames start with the payload of the first. -/
theorem starts_with_frames {payload : Bytes} (h : payload.length ≤ i32Max)
    (behind : List Bytes) (rest : Bytes) :
    StartsWithBlock (frames (payload :: behind) ++ rest) payload (frames behind ++ rest) := by
  have hcons : frames (payload :: behind) ++ rest = frame payload ++ (frames behind ++ rest) :=
    List.append_assoc ..
  rw [hcons]
  exact starts_with_frame h _

/-- As many calls as there are frames take the frames off the stream, whatever they return, and
the next call returns what the payload of the next frame is decoded to. -/
theorem read_packet_after {before : List Bytes} {payload : Bytes} {behind : List Bytes}
    {rest : Bytes} {calls : List Call} {ctx : StreamCtx}
    (hfit : ∀ p ∈ before, p.length ≤ i32Max) (hpayload : payload.length ≤ i32Max)
    (hcalls : calls.length = before.length)
    (hincoming : ctx.incoming = frames (before ++ payload :: behind) ++ rest)
    (P : Type) [FromBytes P] :
    (readPacket P).run (afterCalls calls ctx) = (((readFrom : Reader P).run payload).1,
      { ctx with incoming := frames behind ++ rest, buf := payload }) := by
  induction before generalizing calls ctx with
  | nil =>
      obtain rfl := List.eq_nil_of_length_eq_zero hcalls
      exact read_packet_of_frame (hincoming ▸ starts_with_frames hpayload behind rest)
  | cons first before ih =>
      obtain ⟨hfirst, hfit⟩ := List.forall_mem_cons.mp hfit
      obtain ⟨call, calls, rfl⟩ := List.exists_cons_of_length_eq_add_one hcalls
      have hstart : StartsWithBlock ctx.incoming first
          (frames (before ++ payload :: behind) ++ rest) :=
        hincoming ▸ starts_with_frames hfirst _ rest
      rw [afterCalls, read_packet_of_frame hstart]
      exact ih hfit (by simpa using hcalls) rfl

/-! ## Packets in sequence -/

/-- A packet with its codec, and its size. -/
structure Packet where
  P : Type
  [toBytes : ToBytes P]
  [fromBytes : FromBytes P]
  val : P
  size : Nat

instance (p : Packet) : ToBytes p.P := p.toBytes
instance (p : Packet) : FromBytes p.P := p.fromBytes

/-- The packets without a JSON field. -/
inductive Packet.JsonFree (J : Type) [SerdeJson J] : Packet → Prop where
  | handshake (p : SBHandshake) : JsonFree J ⟨SBHandshake, p, p.size⟩
  | status (p : SBStatus) : JsonFree J ⟨SBStatus, p, p.size⟩
  | login (p : SBLogin) : JsonFree J ⟨SBLogin, p, p.size⟩
  | pingResponse (p : PingResponse) :
      JsonFree J ⟨CBStatus J, .pingResponse p, (CBStatus.pingResponse p : CBStatus J).size⟩
  | clientLogin (p : CBLogin J) (h : p.JsonFree) : JsonFree J ⟨CBLogin J, p, p.size⟩

/-- The laws of a packet: its writers count its size, and its reader takes it from its own bytes
and from no shorter input. -/
structure Packet.Lawful (p : Packet) : Prop where
  counted : Counted p.val p.size
  undoes : UndoesAt (fun rest => rest = []) (writeTo p.val) readFrom p.val
  shortens : ShortensAt (writeTo p.val) readFrom p.val

/-- A packet that is read back in front of some tails is read back at the end. -/
theorem undoes_last {P : Type} {tail : Bytes → Prop} {write : Proc Bytes Nat} {read : Reader P}
    {a : P} (h : UndoesAt tail write read a) (htail : tail []) :
    UndoesAt (fun rest => rest = []) write read a := by
  intro buf n out hwrite
  obtain ⟨bytes, hout, hread⟩ := h buf n out hwrite
  refine ⟨bytes, hout, ?_⟩
  rintro rest rfl
  exact hread [] htail

/-- Packets without a JSON field are lawful. -/
theorem Packet.JsonFree.lawful {J : Type} [SerdeJson J] {p : Packet} (h : p.JsonFree J) :
    p.Lawful := by
  cases h with
  | handshake p =>
      exact ⟨sb_handshake_format.counts p, undoes_last (sb_handshake_round_trips p) trivial,
        sb_handshake_reencodes p⟩
  | status p =>
      exact ⟨sb_status_format.counts p, undoes_last (sb_status_round_trips p) trivial,
        sb_status_reencodes p⟩
  | login p =>
      refine ⟨sb_login_format.counts p, undoes_last (sb_login_round_trips p) ?_,
        sb_login_reencodes p⟩
      cases p <;> trivial
  | pingResponse p =>
      exact ⟨cb_status_format.counts _, undoes_last (cb_status_round_trips p) trivial,
        cb_status_reencodes p⟩
  | clientLogin p hjson =>
      refine ⟨cb_login_format.counts p, undoes_last (cb_login_round_trips p hjson) ?_,
        cb_login_reencodes p hjson⟩
      cases p <;> trivial

/-- Send the packets in order. -/
def writePackets : List Packet → Proc StreamCtx Unit
  | [] => pure ()
  | p :: ps => do
      writePacket p.val
      writePackets ps

/-- Calls of `read_packet` return the packets in order, and leave `rest`. -/
def ReadInOrder : List Packet → StreamCtx → Bytes → Prop
  | [], ctx, rest => ctx.incoming = rest
  | p :: ps, ctx, rest => ∃ ctx', (readPacket p.P).run ctx = (.ok p.val, ctx') ∧
      ReadInOrder ps ctx' rest

/-- What is sent of a packet that is too long is read as another packet, or not at all. -/
theorem read_sent_long {p : Packet} (hp : p.Lawful) {bytes rest : Bytes}
    (hbytes : Encodes p.val bytes) (hlong : i32Max < bytes.length) {ctx ctx' : StreamCtx}
    (hincoming : ctx.incoming = (lengthPrefix bytes.length).bytes ++ (bytes ++ rest)) :
    (readPacket p.P).run ctx ≠ (.ok p.val, ctx') := by
  intro hrun
  have hstart : StartsWithVarInt ctx.incoming (lengthPrefix bytes.length).val (bytes ++ rest) :=
    hincoming ▸ starts_with_bytes _ _
  generalize (lengthPrefix bytes.length).val = n at hstart
  by_cases hneg : n.toInt < 0
  · rw [read_packet_negative hstart hneg] at hrun
    cases hrun
  -- the length is cut off, so the payload is shorter than what the packet is written in
  have hlt : n.toInt < bytes.length := by
    have hbound := n.toInt_lt
    unfold i32Max at hlong
    omega
  have hlen : ((bytes ++ rest).take n.toInt.toNat).length ≤ n.toInt.toNat :=
    List.length_take_le _ _
  have hle : n.toInt ≤ (bytes ++ rest).length := by
    rw [List.length_append]
    omega
  rw [read_packet_of_frame (starts_with_block_of_le hstart (Int.not_lt.mp hneg) hle)] at hrun
  obtain ⟨hread, -⟩ := Prod.mk.inj hrun
  obtain ⟨used, bytes', hused, happends, hshort⟩ :=
    hp.shortens _ _ (Prod.ext hread rfl)
  obtain ⟨k, hk⟩ := happends []
  obtain rfl : bytes = bytes' := (Prod.mk.inj ((hbytes.appends []).symm.trans hk)).2
  have htotal := congrArg List.length hused
  rw [List.length_append] at htotal
  omega

/-- What is sent of a packet that is not too long is read back as the packet, and nothing behind
it is touched. -/
theorem read_sent {p : Packet} (hp : p.Lawful) {bytes rest : Bytes}
    (hbytes : Encodes p.val bytes) (hle : bytes.length ≤ i32Max) {ctx : StreamCtx}
    (hincoming : ctx.incoming = (lengthPrefix bytes.length).bytes ++ (bytes ++ rest)) :
    (readPacket p.P).run ctx = (.ok p.val, { ctx with incoming := rest, buf := bytes }) := by
  obtain ⟨bytes', hout, hread⟩ := hp.undoes [] _ _ (hbytes.appends [])
  obtain rfl : bytes = bytes' := hout
  have hback := hread [] rfl
  rw [List.append_nil] at hback
  have hframe : StartsWithBlock ctx.incoming bytes rest :=
    ⟨_, hincoming ▸ starts_with_bytes _ _, (length_prefix_right_iff _).mpr hle⟩
  rw [read_packet_of_frame hframe, hback]

/-- Packets are read back in the order they were sent exactly when none of them is too long. -/
theorem read_in_order_iff {ps : List Packet} (hps : ∀ p ∈ ps, p.Lawful) {ctx ctx' : StreamCtx}
    (hrun : (writePackets ps).run ctx = (.ok (), ctx')) :
    ∃ sent, ctx'.outgoing = ctx.outgoing ++ sent ∧ ∀ (receiver : StreamCtx) rest,
      receiver.incoming = sent ++ rest →
        (ReadInOrder ps receiver rest ↔ ∀ p ∈ ps, p.size ≤ i32Max) := by
  induction ps generalizing ctx with
  | nil =>
      obtain ⟨-, rfl⟩ := Prod.mk.inj hrun
      exact ⟨[], (List.append_nil _).symm, fun receiver rest h => iff_of_true h (by simp)⟩
  | cons p ps ih =>
      obtain ⟨hp, hps⟩ := List.forall_mem_cons.mp hps
      obtain ⟨_, middle, hwrite, hrest⟩ := bind_ok_iff.mp hrun
      obtain ⟨bytes, hbytes, hlen, rfl⟩ := encodes_of_write_packet hp.counted hwrite
      obtain ⟨sent, hout, hiff⟩ := ih hps hrest
      refine ⟨(lengthPrefix bytes.length).bytes ++ (bytes ++ sent), ?_,
        fun receiver rest hincoming => ?_⟩
      · rw [hout, StreamCtx.sent]
        simp only [List.append_assoc]
      · have hfront : receiver.incoming =
            (lengthPrefix bytes.length).bytes ++ (bytes ++ (sent ++ rest)) := by
          rw [hincoming]
          simp only [List.append_assoc]
        rw [List.forall_mem_cons, ← hlen]
        constructor
        · rintro ⟨receiver', hread, hbehind⟩
          by_cases hle : bytes.length ≤ i32Max
          · rw [read_sent hp hbytes hle hfront] at hread
            obtain ⟨-, rfl⟩ := Prod.mk.inj hread
            exact ⟨hle, (hiff _ rest rfl).mp hbehind⟩
          · exact absurd hread (read_sent_long hp hbytes (Nat.lt_of_not_le hle) hfront)
        · rintro ⟨hle, hbehind⟩
          exact ⟨_, read_sent hp hbytes hle hfront, (hiff _ rest rfl).mpr hbehind⟩

/-- The calls keep in step with the frames whatever their payloads are, and packets are read back
in the order they were sent exactly when the fields of none of them take more than `i32::MAX`
bytes. -/
theorem framing_in_step_iff {J : Type} [SerdeJson J] {ps : List Packet}
    (hps : ∀ p ∈ ps, p.JsonFree J) {ctx ctx' : StreamCtx}
    (hrun : (writePackets ps).run ctx = (.ok (), ctx')) :
    (∀ (before : List Bytes) (payload : Bytes) (behind : List Bytes) (rest : Bytes)
        (calls : List Call) (receiver : StreamCtx) (P : Type) [FromBytes P],
      (∀ p ∈ before, p.length ≤ i32Max) → payload.length ≤ i32Max →
      calls.length = before.length →
      receiver.incoming = frames (before ++ payload :: behind) ++ rest →
        (readPacket P).run (afterCalls calls receiver) =
          (((readFrom : Reader P).run payload).1,
            { receiver with incoming := frames behind ++ rest, buf := payload })) ∧
      ∃ sent, ctx'.outgoing = ctx.outgoing ++ sent ∧ ∀ (receiver : StreamCtx) rest,
        receiver.incoming = sent ++ rest →
          (ReadInOrder ps receiver rest ↔ ∀ p ∈ ps, p.size ≤ i32Max) := by
  constructor
  · intro before payload behind rest calls receiver P _ hfit hpayload hcalls hincoming
    exact read_packet_after hfit hpayload hcalls hincoming P
  · exact read_in_order_iff (fun p hp => (hps p hp).lawful) hrun

/-- A plugin response with the data to the end of the packet. -/
def pluginData (data : Bytes) : Packet :=
  let p : SBLogin := .pluginResponse ⟨⟨0⟩, some ⟨data⟩⟩
  ⟨SBLogin, p, p.size⟩

/-- A login: the two packets of a client, the second with data up to its end. -/
def loginPackets : List Packet :=
  let start : SBLogin := .loginStart ⟨⟨"player"⟩, none⟩
  [⟨SBLogin, start, start.size⟩, pluginData [1, 2, 3]]

/-- The packets of a login are read back in order. -/
theorem framing_in_step_login :
    ∃ ctx', (writePackets loginPackets).run ⟨[], [], []⟩ = (.ok (), ctx') ∧
      ∃ sent, ctx'.outgoing = [] ++ sent ∧ ∀ (receiver : StreamCtx) rest,
        receiver.incoming = sent ++ rest → ReadInOrder loginPackets receiver rest := by
  let := nullJson
  have hps : ∀ p ∈ loginPackets, p.JsonFree Unit := by
    simp only [loginPackets, pluginData, List.forall_mem_cons]
    exact ⟨.login _, .login _, fun _ h => nomatch h⟩
  have hrun : ((writePackets loginPackets).run ⟨[], [], []⟩).1 = .ok () := by decide
  have hsizes : ∀ p ∈ loginPackets, p.size ≤ i32Max := by
    have hone (n : Int32) (h : n.toBitVec.toNat < 128) : VarInt.size ⟨n⟩ = 1 :=
      VarInt.size_of_lt h
    simp only [loginPackets, pluginData, List.forall_mem_cons, SBLogin.size, LoginStart.size,
      BString.size, stringSize, lengthSize, lengthPrefix, PluginResponse.size]
    rw [hone _ (by decide), hone _ (by decide)]
    exact ⟨by decide, by decide, fun _ h => nomatch h⟩
  refine ⟨_, Prod.ext hrun rfl, ?_⟩
  obtain ⟨-, sent, hout, hiff⟩ := framing_in_step_iff hps (Prod.ext hrun rfl)
  exact ⟨sent, hout, fun receiver rest h => (hiff receiver rest h).mpr hsizes⟩

/-- A plugin response with more data than a length can count is sent, and not read back. -/
theorem plugin_data_not_read_back {data : Bytes} (h : i32Max < data.length) (ctx : StreamCtx) :
    ∃ ctx' sent, (writePackets [pluginData data]).run ctx = (.ok (), ctx') ∧
      ctx'.outgoing = ctx.outgoing ++ sent ∧ ∀ rest,
        ¬ ReadInOrder [pluginData data] ⟨sent ++ rest, [], []⟩ rest := by
  let := nullJson
  have hjson : (pluginData data).JsonFree Unit := .login _
  obtain ⟨n, out, hwrite⟩ :=
    (sb_login_succeeds (.pluginResponse ⟨⟨0⟩, some ⟨data⟩⟩) []).mpr trivial
  obtain ⟨bytes, hbytes, hlen, -, -⟩ := encodes_of_ok (sb_login_format.counts _) hwrite
  have hsend : (writePackets [pluginData data]).run ctx = (.ok (), ctx.sent bytes) :=
    bind_of_ok (write_packet_of_encodes hbytes _) _
  obtain ⟨sent, hout, hiff⟩ := read_in_order_iff (by simp [hjson.lawful]) hsend
  refine ⟨_, sent, hsend, hout, fun rest hread => ?_⟩
  have hle : (pluginData data).size ≤ i32Max := (hiff _ rest rfl).mp hread _ (by simp)
  simp only [pluginData, SBLogin.size, PluginResponse.size, optionSize] at hle
  omega

/-- A response with two GiB of data is sent, and not read back. -/
theorem huge_response_not_read_back :
    ∃ ctx' sent, (writePackets [pluginData hugeData]).run ⟨[], [], []⟩ = (.ok (), ctx') ∧
      ctx'.outgoing = [] ++ sent ∧ ∀ rest,
        ¬ ReadInOrder [pluginData hugeData] ⟨sent ++ rest, [], []⟩ rest :=
  plugin_data_not_read_back i32_max_lt_huge_data ⟨[], [], []⟩

end StreamCtx

end Bws.Server
