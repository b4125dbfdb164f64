import Bws.Protocol.Format

/-!
# The sizes of the packets

The size of each packet on the wire, from those of its fields, and the place of each packet's
type in the format: `sb_login_format` and its like say that the writer of a packet takes
exactly these bytes.
-/

namespace Bws.Protocol

open Bws.Base

/-- Sizes may be put differently. -/
theorem Format.of_eq {α : Type} {i : ToBytes α} {size size' : α → Nat} (h : Format α i size)
    (heq : ∀ a, size a = size' a) : Format α i size' :=
  funext heq ▸ h

/-- A type with derived codecs, whose sizes may be put differently. -/
theorem derived_format {α D : Type} [Derive α] [i : ToBytes D] [FromI32 D] {tagSize : D → Nat}
    {size : α → Nat} {sizes : (Derive.data α).Val → Nat}
    (h : (Derive.data α).expandToBytes = some Derive.arms) (hD : Format D i tagSize)
    (hdata : DataFormat (fun n => tagSize (FromI32.fromI32 n)) (Derive.data α) Derive.arms sizes)
    (heq : ∀ a, sizes (Derive.toVal a) = size a) : Format α (derivedToBytes D h) size :=
  (Format.derived h hD hdata).of_eq heq

/-- A small number takes a byte. -/
theorem VarInt.size_of_lt {n : Int32} (h : n.toBitVec.toNat < 128) : VarInt.size ⟨n⟩ = 1 := by
  rw [VarInt.size, VarInt.bytes, Leb128.encode_of_lt h, List.length_singleton]

/-- Elements of one byte take as many bytes as there are. -/
theorem elements_size_one {α : Type} (es : List α) :
    elementsSize (fun _ => 1) es = es.length := by
  induction es with
  | nil => rfl
  | cons e es ih => rw [elementsSize, ih, List.length_cons, Nat.add_comm]

/-! ## Sizes -/

/-- The size of a bound string. -/
def BString.size {max : Nat} (s : BString max) : Nat := stringSize s.inner

/-- The size of a vector of bytes. -/
def byteVecSize (v : Vec UInt8) : Nat := lengthSize v.elems.length + v.elems.length

/-- The size of a packet: its fields, one after the other. -/
def Handshake.size (p : Handshake) : Nat := p.protocolVersion.size + p.serverAddress.size + 2 + 1

/-- The size of a packet with the tag in front of it. -/
def SBHandshake.size : SBHandshake → Nat
  | .handshake packet => 1 + packet.size

@[inherit_doc SBHandshake.size]
def SBStatus.size : SBStatus → Nat
  | .statusRequest => 1
  | .pingRequest _ => 1 + 8

@[inherit_doc Handshake.size]
def LoginStart.size (p : LoginStart) : Nat := p.name.size + optionSize (fun _ => 16) p.uuid

@[inherit_doc Handshake.size]
def EncryptionResponse.size (p : EncryptionResponse) : Nat :=
  byteVecSize p.sharedSecret + byteVecSize p.verifyToken

@[inherit_doc Handshake.size]
def PluginResponse.size (p : PluginResponse) : Nat :=
  p.messageId.size + optionSize (fun b => b.elems.length) p.data

@[inherit_doc SBHandshake.size]
def SBLogin.size : SBLogin → Nat
  | .loginStart packet => 1 + packet.size
  | .encryptionResponse packet => 1 + packet.size
  | .pluginResponse packet => 1 + packet.size

@[inherit_doc Handshake.size]
def EncryptionRequest.size (p : EncryptionRequest) : Nat :=
  p.serverId.size + byteVecSize p.publicKey + byteVecSize p.verifyToken

@[inherit_doc Handshake.size]
def Property.size (p : Property) : Nat :=
  p.name.size + p.value.size + optionSize BString.size p.signature

@[inherit_doc Handshake.size]
def LoginSuccess.size (p : LoginSuccess) : Nat :=
  16 + p.username.size + vecSize Property.size p.properties

@[inherit_doc Handshake.size]
def PluginRequest.size (p : PluginRequest) : Nat :=
  p.messageId.size + stringSize p.channel + p.data.elems.length

variable {J : Type} [i : SerdeJson J]

/-- The size of a JSON value: its text, as a string. -/
def JsonValue.size (value : JsonValue J) : Nat := stringSize (SerdeJson.toString value.val)

@[inherit_doc SBHandshake.size]
def CBStatus.size : CBStatus J → Nat
  | .statusResponse packet => 1 + packet.json.size
  | .pingResponse _ => 1 + 8

@[inherit_doc SBHandshake.size]
def CBLogin.size : CBLogin J → Nat
  | .disconnect packet => 1 + packet.reason.size
  | .encryptionRequest packet => 1 + packet.size
  | .loginSuccess packet => 1 + packet.size
  | .setCompression packet => 1 + packet.threshold.size
  | .pluginRequest packet => 1 + packet.size

/-- The size of a wrapped packet: the wrapper's tag takes no bytes. -/
def ServerBound.size : ServerBound → Nat
  | .handshake packet => packet.size
  | .status packet => packet.size
  | .login packet => packet.size
  | .play => 0

@[inherit_doc ServerBound.size]
def ClientBound.size : ClientBound J → Nat
  | .status packet => packet.size
  | .login packet => packet.size
  | .play => 0

/-! ## The packets in the format -/

/-- Bound strings. -/
theorem bstring_format {max : Nat} : Format (BString max) inferInstance BString.size :=
  derived_format rfl .varint (.struct (.cons .string .nil)) fun _ => rfl

/-- The next state. -/
theorem next_state_format : Format NextState inferInstance fun _ => 1 := by
  refine derived_format rfl .varint (.enum (.cons .nil (.cons .nil .nil))) fun state => ?_
  cases state <;> exact VarInt.size_of_lt (by decide)

/-- Vectors of bytes. -/
theorem byte_vec_format : Format (Vec UInt8) inferInstance byteVecSize :=
  (Format.vec (.primitive inferInstance)).of_eq fun v =>
    congrArg (lengthSize v.elems.length + ·) (elements_size_one v.elems)

/-- Boxed slices of bytes. -/
theorem byte_slice_format : Format (BoxSlice UInt8) inferInstance fun b => b.elems.length :=
  (Format.boxSlice (.primitive inferInstance)).of_eq fun b => elements_size_one b.elems

/-- Handshakes. -/
theorem handshake_format : Format Handshake inferInstance Handshake.size :=
  derived_format rfl .varint (.struct (.cons .varint (.cons bstring_format
    (.cons (.primitive inferInstance) (.cons next_state_format .nil))))) fun _ =>
      (Nat.add_assoc _ _ _).symm.trans (Nat.add_assoc _ _ _).symm

/-- Pings. -/
theorem ping_request_format : Format PingRequest inferInstance fun _ => 8 :=
  derived_format rfl .varint (.struct (.cons (.primitive inferInstance) .nil)) fun _ => rfl

/-- Answers to pings. -/
theorem ping_response_format : Format PingResponse inferInstance fun _ => 8 :=
  derived_format rfl .varint (.struct (.cons (.primitive inferInstance) .nil)) fun _ => rfl

/-- Login starts. -/
theorem login_start_format : Format LoginStart inferInstance LoginStart.size :=
  derived_format rfl .varint (.struct (.cons bstring_format (.cons (.option .uuid) .nil)))
    fun _ => rfl

/-- Encryption responses. -/
theorem encryption_response_format :
    Format EncryptionResponse inferInstance EncryptionResponse.size :=
  derived_format rfl .varint (.struct (.cons byte_vec_format (.cons byte_vec_format .nil)))
    fun _ => rfl

/-- Plugin responses. -/
theorem plugin_response_format : Format PluginResponse inferInstance PluginResponse.size :=
  derived_format rfl .varint (.struct (.cons .varint (.cons (.option byte_slice_format) .nil)))
    fun _ => rfl

/-- Encryption requests. -/
theorem encryption_request_format :
    Format EncryptionRequest inferInstance EncryptionRequest.size :=
  derived_format rfl .varint (.struct (.cons bstring_format (.cons byte_vec_format
    (.cons byte_vec_format .nil)))) fun _ => (Nat.add_assoc _ _ _).symm

/-- Properties. -/
theorem property_format : Format Property inferInstance Property.size :=
  derived_format rfl .varint (.struct (.cons bstring_format (.cons bstring_format
    (.cons (.option bstring_format) .nil)))) fun _ => (Nat.add_assoc _ _ _).symm

/-- Login successes. -/
theorem login_success_format : Format LoginSuccess inferInstance LoginSuccess.size :=
  derived_format rfl .varint (.struct (.cons .uuid (.cons bstring_format
    (.cons (.vec property_format) .nil)))) fun _ => (Nat.add_assoc _ _ _).symm

/-- Compression thresholds. -/
theorem set_compression_format :
    Format SetCompression inferInstance fun p => p.threshold.size :=
  derived_format rfl .varint (.struct (.cons .varint .nil)) fun _ => rfl

/-- Plugin requests. -/
theorem plugin_request_format : Format PluginRequest inferInstance PluginRequest.size :=
  derived_format rfl .varint (.struct (.cons .varint (.cons .string
    (.cons byte_slice_format .nil)))) fun _ => (Nat.add_assoc _ _ _).symm

/-- Server-bound handshake packets. -/
theorem sb_handshake_format : Format SBHandshake inferInstance SBHandshake.size := by
  refine derived_format rfl .varint (.enum (.cons (.cons handshake_format .nil) .nil)) fun p => ?_
  cases p with
  | handshake packet => exact congrArg (· + packet.size) (VarInt.size_of_lt (by decide))

/-- Server-bound status packets. -/
theorem sb_status_format : Format SBStatus inferInstance SBStatus.size := by
  refine derived_format rfl .varint (.enum (.cons .nil
    (.cons (.cons ping_request_format .nil) .nil))) fun p => ?_
  cases p with
  | statusRequest => exact VarInt.size_of_lt (by decide)
  | pingRequest packet => exact congrArg (· + 8) (VarInt.size_of_lt (n := 1) (by decide))

/-- Server-bound login packets. -/
theorem sb_login_format : Format SBLogin inferInstance SBLogin.size := by
  refine derived_format rfl .varint (.enum (.cons (.cons login_start_format .nil)
    (.cons (.cons encryption_response_format .nil)
      (.cons (.cons plugin_response_format .nil) .nil)))) fun p => ?_
  cases p with
  | loginStart packet => exact congrArg (· + packet.size) (VarInt.size_of_lt (by decide))
  | encryptionResponse packet =>
      exact congrArg (· + packet.size) (VarInt.size_of_lt (by decide))
  | pluginResponse packet => exact congrArg (· + packet.size) (VarInt.size_of_lt (by decide))

/-- JSON values. -/
theorem json_format : Format (JsonValue J) inferInstance JsonValue.size := .json i

/-- Client-bound status packets. -/
theorem cb_status_format : Format (CBStatus J) inferInstance CBStatus.size := by
  have hstatus : Format (StatusResponse J) inferInstance fun p => p.json.size :=
    derived_format rfl .varint (.struct (.cons json_format .nil)) fun _ => rfl
  refine derived_format rfl .varint (.enum (.cons (.cons hstatus .nil)
    (.cons (.cons ping_response_format .nil) .nil))) fun p => ?_
  cases p with
  | statusResponse packet =>
      exact congrArg (· + packet.json.size) (VarInt.size_of_lt (by decide))
  | pingResponse packet => exact congrArg (· + 8) (VarInt.size_of_lt (n := 1) (by decide))

/-- Client-bound login packets. -/
theorem cb_login_format : Format (CBLogin J) inferInstance CBLogin.size := by
  have hdisconnect : Format (Disconnect J) inferInstance fun p => p.reason.size :=
    derived_format rfl .varint (.struct (.cons json_format .nil)) fun _ => rfl
  refine derived_format rfl .varint (.enum (.cons (.cons hdisconnect .nil)
    (.cons (.cons encryption_request_format .nil) (.cons (.cons login_success_format .nil)
      (.cons (.cons set_compression_format .nil)
        (.cons (.cons plugin_request_format .nil) .nil)))))) fun p => ?_
  cases p with
  | disconnect packet =>
      exact congrArg (· + packet.reason.size) (VarInt.size_of_lt (by decide))
  | encryptionRequest packet => exact congrArg (· + packet.size) (VarInt.size_of_lt (by decide))
  | loginSuccess packet => exact congrArg (· + packet.size) (VarInt.size_of_lt (by decide))
  | setCompression packet =>
      exact congrArg (· + packet.threshold.size) (VarInt.size_of_lt (by decide))
  | pluginRequest packet => exact congrArg (· + packet.size) (VarInt.size_of_lt (by decide))

/-- The tag of the wrappers takes no bytes. -/
theorem no_tag_format : Format NoTag inferInstance fun _ => 0 :=
  derived_format rfl .varint (.struct .nil) fun _ => rfl

/-- The packets a client sends. -/
theorem server_bound_format : Format ServerBound inferInstance ServerBound.size := by
  refine derived_format rfl no_tag_format (.enum (.cons (.cons sb_handshake_format .nil)
    (.cons (.cons sb_status_format .nil) (.cons (.cons sb_login_format .nil)
      (.cons .nil .nil))))) fun p => ?_
  cases p with
  | handshake packet => exact Nat.zero_add _
  | status packet => exact Nat.zero_add _
  | login packet => exact Nat.zero_add _
  | play => rfl

/-- The packets the server sends. -/
theorem client_bound_format : Format (ClientBound J) inferInstance ClientBound.size := by
  refine derived_format rfl no_tag_format (.enum (.cons (.cons cb_status_format .nil)
    (.cons (.cons cb_login_format .nil) (.cons .nil .nil)))) fun p => ?_
  cases p with
  | status packet => exact Nat.zero_add _
  | login packet => exact Nat.zero_add _
  | play => rfl

end Bws.Protocol
