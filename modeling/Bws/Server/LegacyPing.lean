import Bws.Base.BufReader
import Bws.Base.Utf16

/-!
# Legacy pings

A new connection and the first thing done with it: `handle` looks at the first read for the
ping of an old client, reads the rest of a 1.6 ping, asks the handlers for a response and sends
it. `detect` is the part that decides what the client has sent; everything after it depends on
the verdict alone.
-/

namespace Bws.Server

open Bws.Base Bws.Base.Proc

/-- A connection: its key, the stream the client sends, the bytes sent to the client, and the
buffer that payloads are read into and responses are put together in. -/
structure ConnCtx where
  id : Nat
  stream : BufReader
  outgoing : Bytes
  buf : Bytes
  deriving DecidableEq

namespace ConnCtx

/-- The context of a new connection whose client sends `reads`. -/
def new (id : Nat) (reads : List Read) (ending : Ending) : ConnCtx :=
  ⟨id, ⟨[], reads, ending⟩, [], []⟩

/-- The stream of a connection. -/
def socket : Lens ConnCtx BufReader where
  get ctx := ctx.stream
  set ctx r := { ctx with stream := r }
  get_set _ _ := rfl
  set_get _ := rfl
  set_set _ _ _ := rfl

/-- Replace the buffer. -/
def setBuf (f : Bytes → Bytes) : Proc ConnCtx Unit :=
  ⟨fun ctx => (.ok (), { ctx with buf := f ctx.buf })⟩

/-- `buf.resize(n, 0)`. -/
def resizeBuf (n : Nat) : Proc ConnCtx Unit :=
  setBuf fun buf => buf.take n ++ List.replicate (n - buf.length) 0

/-- The length of the buffer. -/
def bufLength : Proc ConnCtx Nat := ⟨fun ctx => (.ok ctx.buf.length, ctx)⟩

/-- `stream.read_exact(&mut buf)`. Nothing looks at what an error leaves in the buffer. -/
def fillBuf : Proc ConnCtx Bytes := do
  let bytes ← zoom socket (BufReader.readExact Reader.earlyEof (← bufLength))
  setBuf fun _ => bytes
  pure bytes

/-- A big-endian number of `n` bytes. -/
def readNumber (n : Nat) : Proc ConnCtx Nat :=
  BigEndian.value <$> zoom socket (BufReader.readExact Reader.unexpectedEnd n)

/-- `stream.read_u8()`. -/
def readU8 : Proc ConnCtx UInt8 := UInt8.ofNat <$> readNumber 1

/-- `stream.read_u16()`. -/
def readU16 : Proc ConnCtx UInt16 := UInt16.ofNat <$> readNumber 2

/-- `stream.read_i32()`. -/
def readI32 : Proc ConnCtx Int32 := Int32.ofNat <$> readNumber 4

/-- `stream.write_all(&buf)`. -/
def writeBuf : Proc ConnCtx Unit :=
  ⟨fun ctx => (.ok (), { ctx with outgoing := ctx.outgoing ++ ctx.buf })⟩

end ConnCtx

namespace LegacyPing

open ConnCtx

/-- What a 1.6 client tells about itself. -/
structure LegacyPingPayload where
  protocol : UInt8
  hostname : String
  port : UInt16
  deriving DecidableEq, Repr

/-- `Default::default()`. -/
instance : Inhabited LegacyPingPayload := ⟨⟨0, "", 0⟩⟩

/-- A response. The version and its protocol are for clients from 1.4 on. -/
structure LegacyPingResponse where
  motd : String
  online : String
  maxPlayers : String
  protocol : String
  version : String
  deriving DecidableEq, Repr

/-- The pings of the clients before 1.4, before 1.6 and before 1.7. -/
inductive PingType where
  | pre1_4
  | pre1_6
  | pre1_7
  deriving DecidableEq, Repr

/-- A handler of `legacy_ping` events: from the key of the connection, the payload and the
response so far to the response, unless it panics or blocks. -/
abbrev Handler := Nat → LegacyPingPayload → Option LegacyPingResponse →
  Outcome (Option LegacyPingResponse)

/-! ## The payload of a 1.6 ping -/

/-- `a - b`, with an overflow check. -/
def subtract (a b : UInt16) : Proc ConnCtx UInt16 :=
  if b ≤ a then pure (a - b) else unwind .subtractOverflow

/-- The big-endian 16-bit units of some bytes, two by two. -/
def units : Bytes → Proc ConnCtx (List UInt16)
  | [] => pure []
  | [_] => unwind .indexOutOfBounds
  | a :: b :: rest => do
      let tail ← units rest
      pure (UInt16.ofNat (BigEndian.value [a, b]) :: tail)

/-- `n as u16`. -/
def asU16 (n : Int32) : UInt16 := UInt16.ofBitVec (n.toBitVec.setWidth 16)

/-- Read the payload of a 1.6 ping. The first 27 bytes are always the same. -/
def read1_6 : Proc ConnCtx LegacyPingPayload := do
  resizeBuf 27
  let _ ← fillBuf
  -- the length of the rest in bytes, of which 7 are not the hostname's
  let hostnameLen ← subtract (← readU16) 7
  let protocol ← readU8
  -- the length of the hostname in units
  let _ ← readU16
  resizeBuf hostnameLen.toNat
  let hostname ← units (← fillBuf)
  let port ← readI32
  pure ⟨protocol, fromUtf16Lossy hostname, asU16 port⟩

/-! ## The response -/

/-- The bytes of a text: its UTF-16 units in big-endian order. -/
def utf16Bytes (s : String) : Bytes :=
  (encodeUtf16 s).flatMap fun u => BigEndian.bytes 2 u.toNat

/-- Write the response to a ping of a client before 1.4. -/
def writePre1_4 (response : LegacyPingResponse) : Proc ConnCtx Unit := do
  let payload := response.motd ++ "§" ++ response.online ++ "§" ++ response.maxPlayers
  setBuf fun buf => buf ++ [0xFF] ++ BigEndian.bytes 2 payload.length ++ utf16Bytes payload
  writeBuf

/-- The packet before its length is filled in: each text is followed by a separator. -/
def pre1_7Packet (response : LegacyPingResponse) : Bytes :=
  [0xFF, 0x00, 0x00] ++ [0x00, 0xA7, 0x00, 0x31, 0x00, 0x00] ++
    [response.protocol, response.version, response.motd, response.online,
      response.maxPlayers].flatMap fun s => utf16Bytes s ++ [0x00, 0x00]

/-- Write the response to a ping of a client from 1.4 on. The separator behind the last text is
removed. -/
def writePre1_7 (response : LegacyPingResponse) : Proc ConnCtx Unit := do
  let packet := pre1_7Packet response
  let packet := packet.take (packet.length - 2)
  -- the length counts units, without the first three bytes
  let chars := (packet.length - 3) / 2
  setBuf fun _ => packet.take 1 ++ BigEndian.bytes 2 chars ++ packet.drop 3
  writeBuf

/-- Check the length of a response, with its delimiters and its prefix, and write it. -/
def writeResponse (pingType : PingType) (response : LegacyPingResponse) : Proc ConnCtx Unit :=
  if response.motd.length + response.online.length + response.maxPlayers.length +
      response.protocol.length + response.version.length + 4 + 3 > 256 then
    fail ⟨.invalidData, "Legacy ping response too long"⟩
  else
    match pingType with
    | .pre1_4 => writePre1_4 response
    | .pre1_6 | .pre1_7 => writePre1_7 response

/-! ## Handling a ping -/

/-- The arms of the `match` on the first read. -/
def pingType : Bytes → Option PingType
  | [0xFE] => some .pre1_4
  | [0xFE, 0x01] => some .pre1_6
  | 0xFE :: 0x01 :: 0xFA :: _ => some .pre1_7
  | _ => none

/-- The payload of a ping. Only a 1.6 ping has one. -/
def readPayload : PingType → Proc ConnCtx LegacyPingPayload
  | .pre1_4 | .pre1_6 => pure default
  | .pre1_7 => read1_6

/-- The verdict on a stream: no legacy ping, or its type and payload. -/
def detect : Proc ConnCtx (Option (PingType × LegacyPingPayload)) := do
  match pingType (← zoom socket BufReader.fillBuf) with
  | none => pure none
  | some pingType => do
      let payload ← readPayload pingType
      pure (some (pingType, payload))

/-- Ask the handlers, one after the other, for a response. -/
def askHandlers (handlers : List Handler) (payload : LegacyPingPayload) :
    Proc ConnCtx (Option LegacyPingResponse) :=
  handlers.foldlM (fun response handler => ⟨fun ctx => (handler ctx.id payload response, ctx)⟩)
    none

/-- Answer a ping, if there is one. The result tells if there was. -/
def answer (handlers : List Handler) :
    Option (PingType × LegacyPingPayload) → Proc ConnCtx Bool
  | none => pure false
  | some (pingType, payload) => do
      match ← askHandlers handlers payload with
      | some response => writeResponse pingType response
      | none => pure ()
      pure true

/-- Handle a new connection. -/
def handle (handlers : List Handler) : Proc ConnCtx Bool := do
  answer handlers (← detect)

end LegacyPing

end Bws.Server
