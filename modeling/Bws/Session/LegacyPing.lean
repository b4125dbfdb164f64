import Bws.Server.LegacyPayload
import Bws.Server.LegacyResponse
import Bws.Session.Frames
import Bws.Session.Server

/-!
# Legacy pings of the old server base

`handle` of the old server base does in one function what the accept loop of today has split up,
and sends a response of any length. `handle_agrees` says that on every stream the two do the same,
up to the responses that are refused today for their length.
-/

namespace Bws.Session

open Bws.Base Bws.Base.Proc Bws.Base.Future Bws.Protocol Bws.Server

variable {Q R J : Type}

/-! ## Reading -/

namespace LegacyPing

/-- `socket.read_u16()`. -/
def readU16 : Future Q R UInt16 := UInt16.ofNat <$> readNumber 2

/-- `socket.read_i32()`. -/
def readI32 : Future Q R Int32 := Int32.ofNat <$> readNumber 4

/-- `a - b`, with an overflow check. -/
def subtract (a b : UInt16) : Future Q R UInt16 :=
  if b ≤ a then pure (a - b) else Future.unwind .subtractOverflow

/-- `u16::from_be_bytes` of each pair, which unwinds on a byte that is left over. -/
def units : Bytes → Future Q R (List UInt16)
  | [] => pure []
  | [_] => Future.unwind .indexOutOfBounds
  | a :: b :: rest => do
      let tail ← units rest
      pure (UInt16.ofNat (BigEndian.value [a, b]) :: tail)

/-- What a 1.6 client tells about itself. The first 27 bytes are always the same. -/
def readData : Future Q R LegacyPing := do
  let _ ← Future.readExact Reader.earlyEof 27
  let hostnameLen ← subtract (← readU16) 7
  let protocol ← readU8
  let _ ← readU16
  let hostname ← units (← Future.readExact Reader.earlyEof hostnameLen.toNat)
  let port := Server.LegacyPing.asU16 (← readI32)
  pure (.withData protocol (fromUtf16Lossy hostname) port)

/-! ## Responding -/

/-- Respond to a client before 1.4, behind what is in the buffer. -/
def sendPre1_4Response (buf : Bytes) (response : LegacyPingResponse) : Future Q R Unit :=
  let payload := response.motd ++ "§" ++ response.online ++ "§" ++ response.maxPlayers
  -- a text of more than 256 characters is logged, and sent all the same
  writeAll (buf ++ [0xFF] ++ BigEndian.bytes 2 payload.length ++
    Server.LegacyPing.utf16Bytes payload)

/-- The packet before its length is filled in: each text is followed by a separator. -/
def packet1_4 (response : LegacyPingResponse) : Bytes :=
  [0xFF, 0x00, 0x00] ++ [0x00, 0xA7, 0x00, 0x31, 0x00, 0x00] ++
    [response.protocol, response.version, response.motd, response.online,
      response.maxPlayers].flatMap fun s => Server.LegacyPing.utf16Bytes s ++ [0x00, 0x00]

/-- `send_14_16_response`: respond to a client from 1.4 on. The separator behind the last text is
removed. -/
def send14_16Response (response : LegacyPingResponse) : Future Q R Unit :=
  let packet := packet1_4 response
  let packet := packet.take (packet.length - 2)
  let chars := (packet.length - 3) / 2
  writeAll (packet.take 1 ++ BigEndian.bytes 2 chars ++ packet.drop 3)

/-- Ask the server, and send its response if it has one. -/
def respond (server : ServerBase J) (addr : SocketAddr) (ping : LegacyPing)
    (send : LegacyPingResponse → Future Q R Unit) : Future Q R Bool := do
  match ← .ended (server.legacyPing addr ping) with
  | some response => send response
  | none => pure ()
  pure true

/-- Handle a legacy ping, if there is one. The result tells if there was. -/
def handle (server : ServerBase J) (addr : SocketAddr) (buf : Bytes) : Future Q R Bool := do
  match ← Future.fillBuf with
  | [0xFE] => respond server addr .simple (sendPre1_4Response buf)
  | [0xFE, 0x01] => respond server addr .simple send14_16Response
  | 0xFE :: 0x01 :: 0xFA :: _ => do
      respond server addr (← readData) send14_16Response
  | _ => pure false

/-! ## The same on a connection of today -/

/-- The results are the same, and so are the streams; nothing else has changed. -/
def Same {α : Type} (w : World Q R) (ctx : ConnCtx) (x : Outcome α × World Q R)
    (y : Outcome α × ConnCtx) : Prop :=
  x = (y.1, { w with stream := y.2.stream }) ∧
    y.2 = { ctx with stream := y.2.stream, buf := y.2.buf }

/-- The future reads from its stream what `p` reads from that of a connection. -/
def Matches {α : Type} (t : Future Q R α) (p : Proc ConnCtx α) : Prop :=
  ∀ (w : World Q R) (ctx : ConnCtx), w.stream = ctx.stream →
    Same w ctx (t.run.run w) (p.run ctx)

namespace Matches

variable {α β : Type}

theorem pure (a : α) : Matches (Pure.pure a : Future Q R α) (Pure.pure a) := by
  rintro ⟨_, _, _, _⟩ ⟨_, _, _, _⟩ rfl
  exact ⟨rfl, rfl⟩

theorem unwind (r : Panic) : Matches (Future.unwind r : Future Q R α) (Proc.unwind r) := by
  rintro ⟨_, _, _, _⟩ ⟨_, _, _, _⟩ rfl
  exact ⟨rfl, rfl⟩

/-- In sequence, the second parts go on from the same stream. -/
theorem bind {t : Future Q R α} {p : Proc ConnCtx α} {f : α → Future Q R β}
    {g : α → Proc ConnCtx β} (h : Matches t p) (hf : ∀ a, Matches (f a) (g a)) :
    Matches (t >>= f) (p >>= g) := by
  intro w ctx hstream
  obtain ⟨hfirst, hframe⟩ := h w ctx hstream
  rw [Future.run_bind]
  rcases hrun : p.run ctx with ⟨a | e | r | _, ctx'⟩
  all_goals rw [hrun] at hfirst hframe
  · rw [bind_of_ok hfirst, bind_of_ok hrun]
    obtain ⟨hsecond, hframe'⟩ := hf a { w with stream := ctx'.stream } ctx' rfl
    refine ⟨hsecond, ?_⟩
    dsimp only at hframe
    rw [hframe', hframe]
  · rw [bind_of_err hfirst, bind_of_err hrun]
    exact ⟨rfl, hframe⟩
  · rw [bind_of_panic hfirst, bind_of_panic hrun]
    exact ⟨rfl, hframe⟩
  · rw [bind_of_diverge hfirst, bind_of_diverge hrun]
    exact ⟨rfl, hframe⟩

/-- Mapping the value. -/
theorem map {t : Future Q R α} {p : Proc ConnCtx α} (h : Matches t p) (f : α → β) :
    Matches (f <$> t) (f <$> p) := by
  rw [map_eq_pure_bind f p]
  exact h.bind fun a => pure (f a)

/-- A read from the stream. -/
theorem stream {t : Future Q R α} {p : Proc BufReader α} (h : t.run = zoom World.incoming p) :
    Matches t (zoom ConnCtx.socket p) := by
  intro w ctx hstream
  rw [h]
  simp only [zoom, World.incoming, ConnCtx.socket, hstream]
  exact ⟨rfl, rfl⟩

/-- The buffer of the connection is not seen. -/
theorem set_buf {t : Future Q R α} {p : Proc ConnCtx α} (h : Matches t p) (f : Bytes → Bytes) :
    Matches t (ConnCtx.setBuf f >>= fun _ => p) :=
  fun w ctx hstream => h w { ctx with buf := f ctx.buf } hstream

/-- A buffer that is resized and then filled. -/
theorem fill {f : Bytes → Future Q R α} {g : Bytes → Proc ConnCtx α} (n : Nat)
    (h : ∀ bytes, Matches (f bytes) (g bytes)) :
    Matches (Future.readExact Reader.earlyEof n >>= f)
      (do ConnCtx.resizeBuf n; g (← ConnCtx.fillBuf)) := by
  intro w ctx hstream
  rw [Server.LegacyPing.resize_fill_run]
  have hread : Matches (Future.readExact Reader.earlyEof n >>= f) (do
      let bytes ← zoom ConnCtx.socket (BufReader.readExact Reader.earlyEof n)
      ConnCtx.setBuf fun _ => bytes
      g bytes) :=
    (Matches.stream (run_read_exact _ n)).bind fun bytes => (h bytes).set_buf _
  exact hread w _ hstream

/-- A number of `n` bytes. -/
theorem number (n : Nat) :
    Matches (readNumber n : Future Q R Nat) (ConnCtx.readNumber n) :=
  (Matches.stream (run_read_exact _ n)).map _

end Matches

/-- A subtraction. -/
theorem matches_subtract (a b : UInt16) :
    Matches (subtract a b : Future Q R UInt16) (Server.LegacyPing.subtract a b) := by
  unfold subtract Server.LegacyPing.subtract
  split
  · exact .pure _
  · exact .unwind _

/-- The units of some bytes. -/
theorem matches_units (bytes : Bytes) :
    Matches (units bytes : Future Q R (List UInt16)) (Server.LegacyPing.units bytes) := by
  induction bytes using units.induct with
  | case1 => exact .pure _
  | case2 a => exact .unwind _
  | case3 a b rest ih => exact ih.bind fun _ => .pure _

/-- The payload of today as a ping. -/
def ofPayload (payload : Server.LegacyPing.LegacyPingPayload) : LegacyPing :=
  .withData payload.protocol payload.hostname payload.port

/-- What a 1.6 client tells about itself is read as it is today. -/
theorem matches_read_data :
    Matches (readData : Future Q R LegacyPing) (ofPayload <$> Server.LegacyPing.read1_6) := by
  have hread : ofPayload <$> Server.LegacyPing.read1_6 = (do
      ConnCtx.resizeBuf 27
      let _ ← ConnCtx.fillBuf
      let hostnameLen ← Server.LegacyPing.subtract (← ConnCtx.readU16) 7
      let protocol ← ConnCtx.readU8
      let _ ← ConnCtx.readU16
      ConnCtx.resizeBuf hostnameLen.toNat
      let hostname ← Server.LegacyPing.units (← ConnCtx.fillBuf)
      let port ← ConnCtx.readI32
      pure (.withData protocol (fromUtf16Lossy hostname) (Server.LegacyPing.asU16 port))) := by
    simp only [Server.LegacyPing.read1_6, map_bind, map_pure]
    rfl
  rw [hread]
  refine .fill 27 fun _ => (Matches.number 2).map _ |>.bind fun rest => ?_
  refine (matches_subtract rest 7).bind fun hostnameLen => ?_
  refine ((Matches.number 1).map _).bind fun protocol => ?_
  refine ((Matches.number 2).map _).bind fun _ => ?_
  refine .fill hostnameLen.toNat fun bytes => (matches_units bytes).bind fun hostname => ?_
  exact ((Matches.number 4).map _).bind fun port => .pure _

/-! ## The responses of today -/

/-- The response as it is put together today. -/
def current (response : LegacyPingResponse) : Server.LegacyPing.LegacyPingResponse :=
  ⟨response.motd, response.online, response.maxPlayers, response.protocol, response.version⟩

/-- The payload that comes with a ping today. -/
def payload : LegacyPing → Server.LegacyPing.LegacyPingPayload
  | .simple => default
  | .withData protocol hostname port => ⟨protocol, hostname, port⟩

/-- What is sent to a client of this type. -/
def packet (pingType : Server.LegacyPing.PingType) (response : LegacyPingResponse) : Bytes :=
  Server.LegacyPing.packetOf ((current response).lengthField pingType)
    ((current response).units pingType)

/-- The handlers of a connection respond to every ping as the server does. -/
def RespondAlike (server : ServerBase J) (addr : SocketAddr)
    (handlers : List Server.LegacyPing.Handler) (id : Nat) : Prop :=
  ∀ (ping : LegacyPing) (ctx : ConnCtx), ctx.id = id →
    (Server.LegacyPing.askHandlers handlers (payload ping)).run ctx =
      (Option.map current <$>
        (⟨fun ctx => (server.legacyPing addr ping, ctx)⟩ : Proc ConnCtx _)).run ctx

/-- The same has been done to the stream. Either the rest is the same too, or the response is
refused today for its length, and was sent as it is. -/
structure Agrees (w : World Q R) (x : Outcome Bool × World Q R) (y : Outcome Bool × ConnCtx) :
    Prop where
  stream : x.2 = { w with stream := y.2.stream, sent := x.2.sent }
  sends : (x.1 = y.1 ∧ x.2.sent = y.2.outgoing) ∨
    ∃ pingType response, ¬ (current response).Accepted ∧
      y.1 = .err ⟨.invalidData, "Legacy ping response too long"⟩ ∧ y.2.outgoing = w.sent ∧
      x.1 = .ok true ∧ x.2.sent = w.sent ++ packet pingType response

/-- A response to a client before 1.4. -/
theorem send_pre1_4_response (response : LegacyPingResponse) :
    (sendPre1_4Response [] response : Future Q R Unit) = writeAll (packet .pre1_4 response) := rfl

/-- A response to a client from 1.4 on. -/
theorem send14_16_response (response : LegacyPingResponse) :
    (send14_16Response response : Future Q R Unit) = writeAll (packet .pre1_7 response) := by
  have hwrite := Server.LegacyPing.write_pre1_7_run (current response) (.new 0 [] .closed)
  exact congrArg (fun x : Outcome Unit × ConnCtx => writeAll x.2.buf) hwrite

/-- A response that is not accepted is refused. -/
theorem write_response_refused {pingType : Server.LegacyPing.PingType}
    {response : Server.LegacyPing.LegacyPingResponse} (h : ¬ response.Accepted) (ctx : ConnCtx) :
    (Server.LegacyPing.writeResponse pingType response).run ctx =
      (.err ⟨.invalidData, "Legacy ping response too long"⟩, ctx) := by
  unfold Server.LegacyPing.writeResponse
  rw [if_pos (Nat.lt_of_not_le h)]
  rfl

section Responding

variable {server : ServerBase J} {addr : SocketAddr} {handlers : List Server.LegacyPing.Handler}
  {id : Nat}

/-- A ping is answered as it is today. -/
theorem respond_agrees (h : RespondAlike server addr handlers id) (ping : LegacyPing)
    {pingType : Server.LegacyPing.PingType} {send : LegacyPingResponse → Future Q R Unit}
    (hsend : ∀ response, send response = writeAll (packet pingType response))
    (w : World Q R) (ctx : ConnCtx) (hid : ctx.id = id) (hstream : w.stream = ctx.stream)
    (hsent : w.sent = ctx.outgoing) (hbuf : pingType = .pre1_4 → ctx.buf = []) :
    Agrees w ((respond server addr ping send).run.run w)
      ((Server.LegacyPing.answer handlers (some (pingType, payload ping))).run ctx) := by
  obtain ⟨stream, sent, asked, answers⟩ := w
  cases hstream
  cases hsent
  have hask := h ping ctx hid
  rw [map_eq_pure_bind, Proc.run_bind] at hask
  dsimp only at hask
  rw [respond, Server.LegacyPing.answer, Future.run_bind]
  rcases hanswer : server.legacyPing addr ping with (_ | response) | e | reason | _
  all_goals
    rw [hanswer] at hask
    have hended : ∀ o : Outcome (Option LegacyPingResponse),
        (Future.ended o : Future Q R _).run.run ⟨ctx.stream, ctx.outgoing, asked, answers⟩ =
          (o, ⟨ctx.stream, ctx.outgoing, asked, answers⟩) := fun _ => rfl
  · rw [bind_of_ok hask, bind_of_ok (hended _)]
    exact ⟨rfl, .inl ⟨rfl, rfl⟩⟩
  · rw [bind_of_ok hask, bind_of_ok (hended _)]
    dsimp only [Option.map]
    rw [hsend, Future.run_bind, run_write_all]
    by_cases haccepted : (current response).Accepted
    · have hwrite := Server.LegacyPing.write_response_run hbuf haccepted
      rw [bind_of_ok hwrite]
      exact ⟨rfl, .inl ⟨rfl, rfl⟩⟩
    · rw [bind_of_err (write_response_refused haccepted ctx)]
      exact ⟨rfl, .inr ⟨pingType, response, haccepted, rfl, rfl, rfl, rfl⟩⟩
  · rw [bind_of_err hask, bind_of_err (hended _)]
    exact ⟨rfl, .inl ⟨rfl, rfl⟩⟩
  · rw [bind_of_panic hask, bind_of_panic (hended _)]
    exact ⟨rfl, .inl ⟨rfl, rfl⟩⟩
  · rw [bind_of_diverge hask, bind_of_diverge (hended _)]
    exact ⟨rfl, .inl ⟨rfl, rfl⟩⟩

end Responding

/-- What is done behind a first read that is a ping of this type, or none. -/
def arm (server : ServerBase J) (addr : SocketAddr) (buf : Bytes) :
    Option Server.LegacyPing.PingType → Future Q R Bool
  | some .pre1_4 => respond server addr .simple (sendPre1_4Response buf)
  | some .pre1_6 => respond server addr .simple send14_16Response
  | some .pre1_7 => do respond server addr (← readData) send14_16Response
  | none => pure false

/-- The first read is looked at as it is today. -/
theorem handle_eq (server : ServerBase J) (addr : SocketAddr) (buf : Bytes) :
    (handle server addr buf : Future Q R Bool) =
      Future.fillBuf >>= fun bytes => arm server addr buf (Server.LegacyPing.pingType bytes) := by
  rw [handle]
  congr 1
  funext bytes
  unfold Server.LegacyPing.pingType
  split
  · rfl
  · rfl
  · rfl
  · simp_all [arm]

/-- A 1.6 ping is read and answered as it is today. -/
theorem arm_pre1_7_agrees {server : ServerBase J} {addr : SocketAddr}
    {handlers : List Server.LegacyPing.Handler} {id : Nat}
    (h : RespondAlike server addr handlers id) (buf : Bytes) (w : World Q R) (ctx : ConnCtx)
    (hid : ctx.id = id) (hstream : w.stream = ctx.stream) (hsent : w.sent = ctx.outgoing) :
    Agrees w ((arm server addr buf (some .pre1_7)).run.run w)
      ((Server.LegacyPing.read1_6 >>= fun payload =>
        Server.LegacyPing.answer handlers (some (.pre1_7, payload))).run ctx) := by
  obtain ⟨hread, hframe⟩ := matches_read_data w ctx hstream
  rw [map_eq_pure_bind, Proc.run_bind] at hread hframe
  rw [arm, Future.run_bind]
  rcases hrun : Server.LegacyPing.read1_6.run ctx with ⟨payload | e | reason | _, ctx'⟩
  all_goals
    rw [hrun] at hread hframe
    have hid' : ctx'.id = id := (congrArg ConnCtx.id hframe).trans hid
    have hsent' : w.sent = ctx'.outgoing := hsent.trans (congrArg ConnCtx.outgoing hframe).symm
  · rw [bind_of_ok hread, bind_of_ok hrun]
    obtain ⟨htouches, hsends⟩ := respond_agrees h (ofPayload payload) send14_16_response
      { w with stream := ctx'.stream } ctx' hid' rfl hsent' (by simp)
    exact ⟨htouches, hsends⟩
  · rw [bind_of_err hread, bind_of_err hrun]
    exact ⟨rfl, .inl ⟨rfl, hsent'⟩⟩
  · rw [bind_of_panic hread, bind_of_panic hrun]
    exact ⟨rfl, .inl ⟨rfl, hsent'⟩⟩
  · rw [bind_of_diverge hread, bind_of_diverge hrun]
    exact ⟨rfl, .inl ⟨rfl, hsent'⟩⟩

/-- Where a server and some handlers respond alike, the old server base and the accept loop of
today do the same with a new connection, with nothing in the buffer of either: the verdict, what is
left of the stream and the bytes sent are the same. Only a response that is too long today is
refused there, and was sent here. -/
theorem handle_agrees {server : ServerBase J} {addr : SocketAddr}
    {handlers : List Server.LegacyPing.Handler} {id : Nat}
    (h : RespondAlike server addr handlers id) (w : World Q R) :
    Agrees w ((handle server addr []).run.run w)
      ((Server.LegacyPing.handle handlers).run ⟨id, w.stream, w.sent, []⟩) := by
  rw [handle_eq, Future.run_bind, run_fill_buf, Server.LegacyPing.handle, Server.LegacyPing.detect,
    bind_assoc]
  rcases hfill : BufReader.fillBuf.run w.stream with ⟨bytes | e | reason | _, r⟩
  all_goals
    have hold : (zoom World.incoming BufReader.fillBuf).run w = (_, { w with stream := r }) :=
      congrArg (fun x : Outcome Bytes × BufReader => (x.1, { w with stream := x.2 })) hfill
    have hnew : (zoom ConnCtx.socket BufReader.fillBuf).run ⟨id, w.stream, w.sent, []⟩ =
        (_, ⟨id, r, w.sent, []⟩) :=
      congrArg (fun x : Outcome Bytes × BufReader => (x.1, ConnCtx.mk id x.2 w.sent [])) hfill
  · rw [bind_of_ok hold, bind_of_ok hnew]
    cases Server.LegacyPing.pingType bytes with
    | none => exact ⟨rfl, .inl ⟨rfl, rfl⟩⟩
    | some pingType =>
        cases pingType with
        | pre1_4 =>
            obtain ⟨htouches, hsends⟩ := respond_agrees h .simple send_pre1_4_response
              { w with stream := r } ⟨id, r, w.sent, []⟩ rfl rfl rfl fun _ => rfl
            exact ⟨htouches, hsends⟩
        | pre1_6 =>
            obtain ⟨htouches, hsends⟩ := respond_agrees h .simple send14_16_response
              { w with stream := r } ⟨id, r, w.sent, []⟩ rfl rfl rfl (by simp)
            exact ⟨htouches, hsends⟩
        | pre1_7 =>
            obtain ⟨htouches, hsends⟩ := arm_pre1_7_agrees h []
              { w with stream := r } ⟨id, r, w.sent, []⟩ rfl rfl rfl
            simp only [bind_assoc, pure_bind]
            exact ⟨htouches, hsends⟩
  · rw [bind_of_err hold, bind_of_err hnew]
    exact ⟨rfl, .inl ⟨rfl, rfl⟩⟩
  · rw [bind_of_panic hold, bind_of_panic hnew]
    exact ⟨rfl, .inl ⟨rfl, rfl⟩⟩
  · rw [bind_of_diverge hold, bind_of_diverge hnew]
    exact ⟨rfl, .inl ⟨rfl, rfl⟩⟩

/-- The handler of today that responds as `plainServer`. -/
def plainHandler : Server.LegacyPing.Handler :=
  fun _ _ _ => .ok (some ⟨"", "0", "2147483647", "", ""⟩)

/-- A ping of a client before 1.4 is answered by both in the same way. -/
theorem handle_agrees_plain :
    Agrees (⟨⟨[], [⟨[0xFE], by decide⟩], .silent⟩, [], [], []⟩ : World Unit Unit)
      ((handle plainServer ⟨"::1", 4⟩ []).run.run
        ⟨⟨[], [⟨[0xFE], by decide⟩], .silent⟩, [], [], []⟩)
      ((Server.LegacyPing.handle [plainHandler]).run
        ⟨0, ⟨[], [⟨[0xFE], by decide⟩], .silent⟩, [], []⟩) :=
  handle_agrees (fun _ _ _ => rfl) _

end LegacyPing

end Bws.Session
