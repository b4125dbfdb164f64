import Bws.Protocol.Newtypes

/-!
# Packets

The packets of the handshake, status and login states, their derived codecs, and the wrappers
`ServerBound` and `ClientBound`, whose discriminant `NoTag` takes no bytes. Two packets carry
a JSON value, whose text is produced and parsed by a library behind `SerdeJson`.
-/

namespace Bws.Protocol

open Bws.Base

/-! ## JSON values -/

/-- `serde_json` at its type of values: `to_string` and `from_reader`. -/
class SerdeJson (J : Type) where
  toString : J → String
  fromReader : Reader J

variable {J : Type}

/-- A JSON value. -/
structure JsonValue (J : Type) where
  val : J
  deriving DecidableEq, Repr

variable [SerdeJson J]

instance : ToBytes (JsonValue J) where
  writeTo value := writeTo (SerdeJson.toString value.val)

instance : FromBytes (JsonValue J) where
  readFrom := do
    let val ← SerdeJson.fromReader
    pure ⟨val⟩

/-! ## Handshake -/

/-- The packet that opens a connection. -/
structure Handshake where
  protocolVersion : VarInt
  serverAddress : BString 255
  serverPort : UInt16
  nextState : NextState
  deriving DecidableEq, Repr

instance : Derive Handshake where
  data := .struct (.named [⟨some "protocol_version", VarInt⟩,
    ⟨some "server_address", BString 255⟩, ⟨some "server_port", UInt16⟩,
    ⟨some "next_state", NextState⟩])
  arms := ()
  toVal p := (p.protocolVersion, p.serverAddress, p.serverPort, p.nextState, ())
  ofVal x := ⟨x.1, x.2.1, x.2.2.1, x.2.2.2.1⟩
  ofVal_toVal _ := rfl
  toVal_ofVal _ := rfl

instance : ToBytes Handshake := derivedToBytes VarInt rfl
instance : FromBytes Handshake := derivedFromBytes VarInt rfl

/-- Server-bound packets of the handshake state. -/
inductive SBHandshake where
  | handshake (packet : Handshake)
  deriving DecidableEq, Repr

instance : Derive SBHandshake where
  data := .enum [⟨"Handshake", .unnamed [⟨none, Handshake⟩], none⟩]
  arms := (0, ())
  toVal
    | .handshake packet => .inl (packet, ())
  ofVal
    | .inl x => .handshake x.1
  ofVal_toVal p := by cases p; rfl
  toVal_ofVal := by
    rintro (_ | _ | _)
    rfl

instance : ToBytes SBHandshake := derivedToBytes VarInt rfl
instance : FromBytes SBHandshake := derivedFromBytes VarInt rfl

/-! ## Status -/

/-- A ping. -/
structure PingRequest where
  payload : Int64
  deriving DecidableEq

instance : Derive PingRequest where
  data := .struct (.named [⟨some "payload", Int64⟩])
  arms := ()
  toVal p := (p.payload, ())
  ofVal x := ⟨x.1⟩
  ofVal_toVal _ := rfl
  toVal_ofVal _ := rfl

instance : ToBytes PingRequest := derivedToBytes VarInt rfl
instance : FromBytes PingRequest := derivedFromBytes VarInt rfl

/-- The answer to a ping. -/
structure PingResponse where
  payload : Int64
  deriving DecidableEq

instance : Derive PingResponse where
  data := .struct (.named [⟨some "payload", Int64⟩])
  arms := ()
  toVal p := (p.payload, ())
  ofVal x := ⟨x.1⟩
  ofVal_toVal _ := rfl
  toVal_ofVal _ := rfl

instance : ToBytes PingResponse := derivedToBytes VarInt rfl
instance : FromBytes PingResponse := derivedFromBytes VarInt rfl

/-- The status of the server, as a JSON object. -/
structure StatusResponse (J : Type) where
  json : JsonValue J
  deriving DecidableEq

instance : Derive (StatusResponse J) where
  data := .struct (.named [⟨some "json", JsonValue J⟩])
  arms := ()
  toVal p := (p.json, ())
  ofVal x := ⟨x.1⟩
  ofVal_toVal _ := rfl
  toVal_ofVal _ := rfl

instance : ToBytes (StatusResponse J) := derivedToBytes VarInt rfl
instance : FromBytes (StatusResponse J) := derivedFromBytes VarInt rfl

/-- Server-bound packets of the status state. -/
inductive SBStatus where
  | statusRequest
  | pingRequest (packet : PingRequest)
  deriving DecidableEq

instance : Derive SBStatus where
  data := .enum [⟨"StatusRequest", .unit, none⟩,
    ⟨"PingRequest", .unnamed [⟨none, PingRequest⟩], none⟩]
  arms := (0, 1, ())
  toVal
    | .statusRequest => .inl ()
    | .pingRequest packet => .inr (.inl (packet, ()))
  ofVal
    | .inl _ => .statusRequest
    | .inr (.inl x) => .pingRequest x.1
  ofVal_toVal p := by cases p <;> rfl
  toVal_ofVal := by rintro (_ | _ | _ | _) <;> rfl

instance : ToBytes SBStatus := derivedToBytes VarInt rfl
instance : FromBytes SBStatus := derivedFromBytes VarInt rfl

/-- Client-bound packets of the status state. -/
inductive CBStatus (J : Type) where
  | statusResponse (packet : StatusResponse J)
  | pingResponse (packet : PingResponse)
  deriving DecidableEq

instance : Derive (CBStatus J) where
  data := .enum [⟨"StatusResponse", .unnamed [⟨none, StatusResponse J⟩], none⟩,
    ⟨"PingResponse", .unnamed [⟨none, PingResponse⟩], none⟩]
  arms := (0, 1, ())
  toVal
    | .statusResponse packet => .inl (packet, ())
    | .pingResponse packet => .inr (.inl (packet, ()))
  ofVal
    | .inl x => .statusResponse x.1
    | .inr (.inl x) => .pingResponse x.1
  ofVal_toVal p := by cases p <;> rfl
  toVal_ofVal := by rintro (_ | _ | _ | _) <;> rfl

instance : ToBytes (CBStatus J) := derivedToBytes VarInt rfl
instance : FromBytes (CBStatus J) := derivedFromBytes VarInt rfl

/-! ## Login -/

/-- The player's name, and its uuid if the client knows it. -/
structure LoginStart where
  name : BString 16
  uuid : Option Uuid
  deriving DecidableEq, Repr

instance : Derive LoginStart where
  data := .struct (.named [⟨some "name", BString 16⟩, ⟨some "uuid", Option Uuid⟩])
  arms := ()
  toVal p := (p.name, p.uuid, ())
  ofVal x := ⟨x.1, x.2.1⟩
  ofVal_toVal _ := rfl
  toVal_ofVal _ := rfl

instance : ToBytes LoginStart := derivedToBytes VarInt rfl
instance : FromBytes LoginStart := derivedFromBytes VarInt rfl

/-- The answer to an encryption request. -/
structure EncryptionResponse where
  sharedSecret : Vec UInt8
  verifyToken : Vec UInt8
  deriving DecidableEq, Repr

instance : Derive EncryptionResponse where
  data := .struct (.named [⟨some "shared_secret", Vec UInt8⟩,
    ⟨some "verify_token", Vec UInt8⟩])
  arms := ()
  toVal p := (p.sharedSecret, p.verifyToken, ())
  ofVal x := ⟨x.1, x.2.1⟩
  ofVal_toVal _ := rfl
  toVal_ofVal _ := rfl

instance : ToBytes EncryptionResponse := derivedToBytes VarInt rfl
instance : FromBytes EncryptionResponse := derivedFromBytes VarInt rfl

/-- The answer to a plugin's request. -/
structure PluginResponse where
  messageId : VarInt
  data : Option (BoxSlice UInt8)
  deriving DecidableEq, Repr

instance : Derive PluginResponse where
  data := .struct (.named [⟨some "message_id", VarInt⟩,
    ⟨some "data", Option (BoxSlice UInt8)⟩])
  arms := ()
  toVal p := (p.messageId, p.data, ())
  ofVal x := ⟨x.1, x.2.1⟩
  ofVal_toVal _ := rfl
  toVal_ofVal _ := rfl

instance : ToBytes PluginResponse := derivedToBytes VarInt rfl
instance : FromBytes PluginResponse := derivedFromBytes VarInt rfl

/-- Server-bound packets of the login state. -/
inductive SBLogin where
  | loginStart (packet : LoginStart)
  | encryptionResponse (packet : EncryptionResponse)
  | pluginResponse (packet : PluginResponse)
  deriving DecidableEq, Repr

instance : Derive SBLogin where
  data := .enum [⟨"LoginStart", .unnamed [⟨none, LoginStart⟩], none⟩,
    ⟨"EncryptionResponse", .unnamed [⟨none, EncryptionResponse⟩], none⟩,
    ⟨"PluginResponse", .unnamed [⟨none, PluginResponse⟩], none⟩]
  arms := (0, 1, 2, ())
  toVal
    | .loginStart packet => .inl (packet, ())
    | .encryptionResponse packet => .inr (.inl (packet, ()))
    | .pluginResponse packet => .inr (.inr (.inl (packet, ())))
  ofVal
    | .inl x => .loginStart x.1
    | .inr (.inl x) => .encryptionResponse x.1
    | .inr (.inr (.inl x)) => .pluginResponse x.1
  ofVal_toVal p := by cases p <;> rfl
  toVal_ofVal := by rintro (_ | _ | _ | _ | _) <;> rfl

instance : ToBytes SBLogin := derivedToBytes VarInt rfl
instance : FromBytes SBLogin := derivedFromBytes VarInt rfl

/-- The end of a login, with the reason as a JSON value. -/
structure Disconnect (J : Type) where
  reason : JsonValue J
  deriving DecidableEq

instance : Derive (Disconnect J) where
  data := .struct (.named [⟨some "reason", JsonValue J⟩])
  arms := ()
  toVal p := (p.reason, ())
  ofVal x := ⟨x.1⟩
  ofVal_toVal _ := rfl
  toVal_ofVal _ := rfl

instance : ToBytes (Disconnect J) := derivedToBytes VarInt rfl
instance : FromBytes (Disconnect J) := derivedFromBytes VarInt rfl

/-- The start of encryption. -/
structure EncryptionRequest where
  serverId : BString 20
  publicKey : Vec UInt8
  verifyToken : Vec UInt8
  deriving DecidableEq, Repr

instance : Derive EncryptionRequest where
  data := .struct (.named [⟨some "server_id", BString 20⟩, ⟨some "public_key", Vec UInt8⟩,
    ⟨some "verify_token", Vec UInt8⟩])
  arms := ()
  toVal p := (p.serverId, p.publicKey, p.verifyToken, ())
  ofVal x := ⟨x.1, x.2.1, x.2.2.1⟩
  ofVal_toVal _ := rfl
  toVal_ofVal _ := rfl

instance : ToBytes EncryptionRequest := derivedToBytes VarInt rfl
instance : FromBytes EncryptionRequest := derivedFromBytes VarInt rfl

/-- A property of a player. -/
structure Property where
  name : BString 32767
  value : BString 32767
  signature : Option (BString 32767)
  deriving DecidableEq, Repr

instance : Derive Property where
  data := .struct (.named [⟨some "name", BString 32767⟩, ⟨some "value", BString 32767⟩,
    ⟨some "signature", Option (BString 32767)⟩])
  arms := ()
  toVal p := (p.name, p.value, p.signature, ())
  ofVal x := ⟨x.1, x.2.1, x.2.2.1⟩
  ofVal_toVal _ := rfl
  toVal_ofVal _ := rfl

instance : ToBytes Property := derivedToBytes VarInt rfl
instance : FromBytes Property := derivedFromBytes VarInt rfl

/-- Three strings of three words each. -/
instance : Layout Property := ⟨72⟩

/-- The end of a successful login. -/
structure LoginSuccess where
  uuid : Uuid
  username : BString 16
  properties : Vec Property
  deriving DecidableEq, Repr

instance : Derive LoginSuccess where
  data := .struct (.named [⟨some "uuid", Uuid⟩, ⟨some "username", BString 16⟩,
    ⟨some "properties", Vec Property⟩])
  arms := ()
  toVal p := (p.uuid, p.username, p.properties, ())
  ofVal x := ⟨x.1, x.2.1, x.2.2.1⟩
  ofVal_toVal _ := rfl
  toVal_ofVal _ := rfl

instance : ToBytes LoginSuccess := derivedToBytes VarInt rfl
instance : FromBytes LoginSuccess := derivedFromBytes VarInt rfl

/-- The size from which packets are compressed. -/
structure SetCompression where
  threshold : VarInt
  deriving DecidableEq, Repr

instance : Derive SetCompression where
  data := .struct (.named [⟨some "threshold", VarInt⟩])
  arms := ()
  toVal p := (p.threshold, ())
  ofVal x := ⟨x.1⟩
  ofVal_toVal _ := rfl
  toVal_ofVal _ := rfl

instance : ToBytes SetCompression := derivedToBytes VarInt rfl
instance : FromBytes SetCompression := derivedFromBytes VarInt rfl

/-- A plugin's request. -/
structure PluginRequest where
  messageId : VarInt
  channel : String
  data : BoxSlice UInt8
  deriving DecidableEq, Repr

instance : Derive PluginRequest where
  data := .struct (.named [⟨some "message_id", VarInt⟩, ⟨some "channel", String⟩,
    ⟨some "data", BoxSlice UInt8⟩])
  arms := ()
  toVal p := (p.messageId, p.channel, p.data, ())
  ofVal x := ⟨x.1, x.2.1, x.2.2.1⟩
  ofVal_toVal _ := rfl
  toVal_ofVal _ := rfl

instance : ToBytes PluginRequest := derivedToBytes VarInt rfl
instance : FromBytes PluginRequest := derivedFromBytes VarInt rfl

/-- Client-bound packets of the login state. -/
inductive CBLogin (J : Type) where
  | disconnect (packet : Disconnect J)
  | encryptionRequest (packet : EncryptionRequest)
  | loginSuccess (packet : LoginSuccess)
  | setCompression (packet : SetCompression)
  | pluginRequest (packet : PluginRequest)
  deriving DecidableEq

instance : Derive (CBLogin J) where
  data := .enum [⟨"Disconnect", .unnamed [⟨none, Disconnect J⟩], none⟩,
    ⟨"EncryptionRequest", .unnamed [⟨none, EncryptionRequest⟩], none⟩,
    ⟨"LoginSuccess", .unnamed [⟨none, LoginSuccess⟩], none⟩,
    ⟨"SetCompression", .unnamed [⟨none, SetCompression⟩], none⟩,
    ⟨"PluginRequest", .unnamed [⟨none, PluginRequest⟩], none⟩]
  arms := (0, 1, 2, 3, 4, ())
  toVal
    | .disconnect packet => .inl (packet, ())
    | .encryptionRequest packet => .inr (.inl (packet, ()))
    | .loginSuccess packet => .inr (.inr (.inl (packet, ())))
    | .setCompression packet => .inr (.inr (.inr (.inl (packet, ()))))
    | .pluginRequest packet => .inr (.inr (.inr (.inr (.inl (packet, ())))))
  ofVal
    | .inl x => .disconnect x.1
    | .inr (.inl x) => .encryptionRequest x.1
    | .inr (.inr (.inl x)) => .loginSuccess x.1
    | .inr (.inr (.inr (.inl x))) => .setCompression x.1
    | .inr (.inr (.inr (.inr (.inl x)))) => .pluginRequest x.1
  ofVal_toVal p := by cases p <;> rfl
  toVal_ofVal := by rintro (_ | _ | _ | _ | _ | _ | _) <;> rfl

instance : ToBytes (CBLogin J) := derivedToBytes VarInt rfl
instance : FromBytes (CBLogin J) := derivedFromBytes VarInt rfl

/-! ## The wrappers -/

/-- A discriminant that takes no bytes. -/
structure NoTag where

instance : FromI32 NoTag := ⟨fun _ => {}⟩

instance : Derive NoTag where
  data := .struct .unit
  arms := ()
  toVal _ := ()
  ofVal _ := {}
  ofVal_toVal _ := rfl
  toVal_ofVal _ := rfl

instance : ToBytes NoTag := derivedToBytes VarInt rfl
instance : FromBytes NoTag := derivedFromBytes VarInt rfl

/-- The packets a client sends. -/
inductive ServerBound where
  | handshake (packet : SBHandshake)
  | status (packet : SBStatus)
  | login (packet : SBLogin)
  | play
  deriving DecidableEq

instance : Derive ServerBound where
  data := .enum [⟨"Handshake", .unnamed [⟨none, SBHandshake⟩], none⟩,
    ⟨"Status", .unnamed [⟨none, SBStatus⟩], none⟩, ⟨"Login", .unnamed [⟨none, SBLogin⟩], none⟩,
    ⟨"Play", .unit, none⟩]
  arms := (0, 1, 2, 3, ())
  toVal
    | .handshake packet => .inl (packet, ())
    | .status packet => .inr (.inl (packet, ()))
    | .login packet => .inr (.inr (.inl (packet, ())))
    | .play => .inr (.inr (.inr (.inl ())))
  ofVal
    | .inl x => .handshake x.1
    | .inr (.inl x) => .status x.1
    | .inr (.inr (.inl x)) => .login x.1
    | .inr (.inr (.inr (.inl _))) => .play
  ofVal_toVal p := by cases p <;> rfl
  toVal_ofVal := by rintro (_ | _ | _ | _ | _ | _) <;> rfl

instance : ToBytes ServerBound := derivedToBytes NoTag rfl

/-- The packets the server sends. -/
inductive ClientBound (J : Type) where
  | status (packet : CBStatus J)
  | login (packet : CBLogin J)
  | play
  deriving DecidableEq

instance : Derive (ClientBound J) where
  data := .enum [⟨"Status", .unnamed [⟨none, CBStatus J⟩], none⟩,
    ⟨"Login", .unnamed [⟨none, CBLogin J⟩], none⟩, ⟨"Play", .unit, none⟩]
  arms := (0, 1, 2, ())
  toVal
    | .status packet => .inl (packet, ())
    | .login packet => .inr (.inl (packet, ()))
    | .play => .inr (.inr (.inl ()))
  ofVal
    | .inl x => .status x.1
    | .inr (.inl x) => .login x.1
    | .inr (.inr (.inl _)) => .play
  ofVal_toVal p := by cases p <;> rfl
  toVal_ofVal := by rintro (_ | _ | _ | _ | _) <;> rfl

instance : ToBytes (ClientBound J) := derivedToBytes NoTag rfl

end Bws.Protocol
