import Bws.Base.Setters
import Bws.Protocol.Packets

/-!
# What a server is made of

The parts of `ServerBase` that a connection uses: its keypair, and its answers to the two kinds of
ping, with those that it gives by default. A response to a legacy ping is put together by setters,
two of which panic on a number that a client would take for a negative one.
-/

namespace Bws.Session

open Bws.Base Bws.Protocol

/-- The address of a client, the ip as it is printed. -/
structure SocketAddr where
  ip : String
  port : UInt16
  deriving DecidableEq, Repr

/-- A legacy ping. Only a 1.6 client tells something about itself. -/
inductive LegacyPing where
  | simple
  | withData (protocol : UInt8) (hostname : String) (port : UInt16)
  deriving DecidableEq, Repr

/-- A response to a legacy ping. The version and its protocol are for clients from 1.4 on. -/
structure LegacyPingResponse where
  motd : String
  online : String
  maxPlayers : String
  protocol : String
  version : String
  deriving DecidableEq, Repr

/-- An RSA key with its public part in DER, and what it decrypts. -/
structure RsaPrivateKey where
  publicKeyDer : Bytes
  decrypt : Bytes → Option Bytes

/-- An implementation of `ServerBase`. What it answers to a status request may change from one
request of the connection to the next, so the answer comes with the number of the request. -/
structure ServerBase (J : Type) where
  rsaKeypair : RsaPrivateKey
  legacyPing : SocketAddr → LegacyPing → Outcome (Option LegacyPingResponse)
  ping : Nat → SocketAddr → Int32 → String → UInt16 → Outcome (Option (StatusResponse J))

/-! ## Setters of a response -/

namespace LegacyPingResponse

/-- `LegacyPingResponse::new()`. -/
def new : LegacyPingResponse := ⟨"", "", "0", "", ""⟩

/-- A setter: what is replaced, and by what. -/
inductive Setter where
  | motd (motd : String)
  | online (online : UInt32)
  | max (max : UInt32)
  | protocol (protocol : Int32)
  | version (version : String)
  deriving DecidableEq

/-- `.motd(..)`. -/
def setMotd (response : LegacyPingResponse) (motd : String) : Outcome LegacyPingResponse :=
  .ok { response with motd := motd }

/-- `.online(..)`. -/
def setOnline (response : LegacyPingResponse) (online : UInt32) : Outcome LegacyPingResponse :=
  if online.toNat ≤ 2147483647 then
    .ok { response with online := toString online.toNat }
  else .panic (.explicit "assertion failed: online <= i32::MAX as u32")

/-- `.max(..)`. -/
def setMax (response : LegacyPingResponse) (max : UInt32) : Outcome LegacyPingResponse :=
  if max.toNat ≤ 2147483647 then
    .ok { response with maxPlayers := toString max.toNat }
  else .panic (.explicit "assertion failed: max <= i32::MAX as u32")

/-- `.protocol(..)`. -/
def setProtocol (response : LegacyPingResponse) (protocol : Int32) :
    Outcome LegacyPingResponse :=
  .ok { response with protocol := toString protocol.toInt }

/-- `.version(..)`. -/
def setVersion (response : LegacyPingResponse) (version : String) :
    Outcome LegacyPingResponse :=
  .ok { response with version := version }

/-- One call of a setter. -/
def set (response : LegacyPingResponse) : Setter → Outcome LegacyPingResponse
  | .motd motd => response.setMotd motd
  | .online online => response.setOnline online
  | .max max => response.setMax max
  | .protocol protocol => response.setProtocol protocol
  | .version version => response.setVersion version

/-- A chain of calls, up to the first that panics. -/
def build (response : LegacyPingResponse) (setters : List Setter) : Outcome LegacyPingResponse :=
  Setters.chain set response setters

end LegacyPingResponse

/-! ## Servers -/

/-- `legacy_ping` of a server that does not say otherwise. -/
def defaultLegacyPing (_addr : SocketAddr) (_ping : LegacyPing) :
    Outcome (Option LegacyPingResponse) :=
  match LegacyPingResponse.new.build [.online 0, .max 2147483647] with
  | .ok response => .ok (some response)
  | .err e => .err e
  | .panic r => .panic r
  | .diverge => .diverge

/-- A server that decrypts every text to itself, and answers two status requests of a
connection. -/
def plainServer : ServerBase Unit where
  rsaKeypair := ⟨[1, 2, 3], some⟩
  legacyPing := defaultLegacyPing
  ping n _ _ _ _ := .ok (if n < 2 then some ⟨⟨()⟩⟩ else none)

end Bws.Session
