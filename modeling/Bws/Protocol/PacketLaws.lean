import Bws.Protocol.DeriveLaws
import Bws.Protocol.Writable

/-!
# Laws of the packets

The round trips of the packets and their self-delimitation, each from those of its fields.
`packets_round_trip` collects the former for the packets without a JSON field, alone and
wrapped, and `packets_self_delimiting` the latter.
-/

namespace Bws.Protocol

open Bws.Base

/-! ## Round trips -/

/-- Bound strings round-trip. -/
theorem bstring_round_trips {max : Nat} : RoundTripsAlways (BString max) :=
  fun _ => derived_undoes_at rfl rfl (by exact List.nodup_nil) string_round_trips

/-- The next state round-trips. -/
theorem next_state_round_trips : RoundTripsAlways NextState := by
  intro state
  refine derived_undoes_at rfl rfl (by decide) ?_
  cases state <;> trivial

/-- Handshakes round-trip. -/
theorem handshake_round_trips : RoundTripsAlways Handshake :=
  fun _ => derived_undoes_at rfl rfl (by decide)
    ⟨varint_round_trips, bstring_round_trips, primitive_round_trips, next_state_round_trips⟩

/-- Pings round-trip. -/
theorem ping_request_round_trips : RoundTripsAlways PingRequest :=
  fun _ => derived_undoes_at rfl rfl (by decide) primitive_round_trips

/-- Answers to pings round-trip. -/
theorem ping_response_round_trips : RoundTripsAlways PingResponse :=
  fun _ => derived_undoes_at rfl rfl (by decide) primitive_round_trips

/-- Login starts round-trip. -/
theorem login_start_round_trips : RoundTripsAlways LoginStart :=
  fun _ => derived_undoes_at rfl rfl (by decide)
    ⟨bstring_round_trips, option_round_trips uuid_round_trips⟩

/-- Vectors of bytes round-trip. -/
theorem byte_vec_round_trips : RoundTripsAlways (Vec UInt8) :=
  vec_round_trips primitive_round_trips (by decide)

/-- Encryption responses round-trip. -/
theorem encryption_response_round_trips : RoundTripsAlways EncryptionResponse :=
  fun _ => derived_undoes_at rfl rfl (by decide) ⟨byte_vec_round_trips, byte_vec_round_trips⟩

/-- Plugin responses round-trip at the end of the input. -/
theorem plugin_response_round_trips : RoundTripsLast PluginResponse :=
  fun _ => derived_undoes_at rfl rfl (by decide)
    ⟨varint_round_trips, option_round_trips byte_slice_round_trips⟩

/-- Encryption requests round-trip. -/
theorem encryption_request_round_trips : RoundTripsAlways EncryptionRequest :=
  fun _ => derived_undoes_at rfl rfl (by decide)
    ⟨bstring_round_trips, byte_vec_round_trips, byte_vec_round_trips⟩

/-- Properties round-trip. -/
theorem property_round_trips : RoundTripsAlways Property :=
  fun _ => derived_undoes_at rfl rfl (by decide)
    ⟨bstring_round_trips, bstring_round_trips, option_round_trips bstring_round_trips⟩

/-- Login successes round-trip. -/
theorem login_success_round_trips : RoundTripsAlways LoginSuccess :=
  fun _ => derived_undoes_at rfl rfl (by decide)
    ⟨uuid_round_trips, bstring_round_trips, vec_round_trips property_round_trips (by decide)⟩

/-- Compression thresholds round-trip. -/
theorem set_compression_round_trips : RoundTripsAlways SetCompression :=
  fun _ => derived_undoes_at rfl rfl (by decide) varint_round_trips

/-- Plugin requests round-trip at the end of the input. -/
theorem plugin_request_round_trips : RoundTripsLast PluginRequest :=
  fun _ => derived_undoes_at rfl rfl (by decide)
    ⟨varint_round_trips, string_round_trips, byte_slice_round_trips⟩

/-- Server-bound handshake packets round-trip. -/
theorem sb_handshake_round_trips : RoundTripsAlways SBHandshake := by
  intro p
  refine derived_undoes_at rfl rfl (by decide) ?_
  cases p with
  | handshake packet => exact handshake_round_trips

/-- Server-bound status packets round-trip. -/
theorem sb_status_round_trips : RoundTripsAlways SBStatus := by
  intro p
  refine derived_undoes_at rfl rfl (by decide) ?_
  cases p with
  | statusRequest => trivial
  | pingRequest packet => exact ping_request_round_trips

/-- What may follow a server-bound login packet: nothing when it ends in an unprefixed list. -/
def SBLogin.Tail : SBLogin → Bytes → Prop
  | .pluginResponse _, rest => rest = []
  | _, _ => True

/-- Server-bound login packets round-trip. -/
theorem sb_login_round_trips (p : SBLogin) :
    Reader.UndoesAt p.Tail (writeTo p) readFrom p := by
  refine derived_undoes_at rfl rfl (by decide) ?_
  cases p with
  | loginStart packet => exact login_start_round_trips
  | encryptionResponse packet => exact encryption_response_round_trips
  | pluginResponse packet => exact plugin_response_round_trips

variable {J : Type} [SerdeJson J]

/-- Answers to pings round-trip among the client-bound status packets. -/
theorem cb_status_round_trips (p : PingResponse) :
    Reader.UndoesAt (fun _ => True) (writeTo (CBStatus.pingResponse p : CBStatus J)) readFrom
      (CBStatus.pingResponse p : CBStatus J) := by
  refine derived_undoes_at (α := CBStatus J) rfl rfl ?_ ?_
  · exact (by decide : [(0 : Int32), 1].Nodup)
  · exact ping_response_round_trips

/-- The client-bound login packets without a JSON field. -/
def CBLogin.JsonFree : CBLogin J → Prop
  | .disconnect _ => False
  | _ => True

/-- What may follow a client-bound login packet. -/
def CBLogin.Tail : CBLogin J → Bytes → Prop
  | .pluginRequest _, rest => rest = []
  | _, _ => True

/-- Client-bound login packets round-trip unless they carry JSON. -/
theorem cb_login_round_trips (p : CBLogin J) (hjson : p.JsonFree) :
    Reader.UndoesAt p.Tail (writeTo p) readFrom p := by
  refine derived_undoes_at rfl rfl (by exact (by decide : [(0 : Int32), 1, 2, 3, 4].Nodup)) ?_
  cases p with
  | disconnect packet => exact hjson.elim
  | encryptionRequest packet => exact encryption_request_round_trips
  | loginSuccess packet => exact login_success_round_trips
  | setCompression packet => exact set_compression_round_trips
  | pluginRequest packet => exact plugin_request_round_trips

/-- `NoTag` adds nothing to a server-bound packet. -/
theorem write_server_bound {W : Type} [Write W] :
    (∀ p : SBHandshake, (writeTo (ServerBound.handshake p) : Proc W Nat) = writeTo p) ∧
    (∀ p : SBStatus, (writeTo (ServerBound.status p) : Proc W Nat) = writeTo p) ∧
    ∀ p : SBLogin, (writeTo (ServerBound.login p) : Proc W Nat) = writeTo p := by
  have hzero : ∀ write : Proc W Nat, (do let n ← write; pure (0 + n)) = write := by simp
  exact ⟨fun p => hzero (writeTo p), fun p => hzero (writeTo p), fun p => hzero (writeTo p)⟩

/-- `NoTag` adds nothing to a client-bound packet. -/
theorem write_client_bound {W : Type} [Write W] :
    (∀ p : CBStatus J, (writeTo (ClientBound.status p) : Proc W Nat) = writeTo p) ∧
    ∀ p : CBLogin J, (writeTo (ClientBound.login p) : Proc W Nat) = writeTo p := by
  have hzero : ∀ write : Proc W Nat, (do let n ← write; pure (0 + n)) = write := by simp
  exact ⟨fun p => hzero (writeTo p), fun p => hzero (writeTo p)⟩

/-- `p` can be written when `fits` holds, alone and wrapped, and is read back from its own bytes
and from those of the wrapper, in front of every rest that meets `tail`. -/
structure ReadBack {α β : Type} [ToBytes α] [FromBytes α] [ToBytes β] (wrap : α → β)
    (fits : Prop) (tail : Bytes → Prop) (p : α) : Prop where
  succeeds : SucceedsIff (writeTo p) fits
  undoes : Reader.UndoesAt tail (writeTo p) readFrom p
  wrap_succeeds : SucceedsIff (writeTo (wrap p)) fits
  wrap_undoes : Reader.UndoesAt tail (writeTo (wrap p)) readFrom p

/-- A wrapper that writes the same bytes changes nothing. -/
theorem ReadBack.of_eq {α β : Type} [ToBytes α] [FromBytes α] [ToBytes β] {wrap : α → β}
    {fits : Prop} {tail : Bytes → Prop} {p : α} (hsucceeds : SucceedsIff (writeTo p) fits)
    (hundoes : Reader.UndoesAt tail (writeTo p) readFrom p)
    (hwrap : (writeTo (wrap p) : Proc Bytes Nat) = writeTo p) : ReadBack wrap fits tail p :=
  ⟨hsucceeds, hundoes, hwrap ▸ hsucceeds, hwrap ▸ hundoes⟩

/-- The packets without a JSON field are read back, alone and wrapped: in front of any bytes,
and those that end in an unprefixed list at the end of the input. -/
theorem packets_round_trip :
    (∀ p : SBHandshake, ReadBack ServerBound.handshake p.Fits (fun _ => True) p) ∧
    (∀ p : SBStatus, ReadBack ServerBound.status True (fun _ => True) p) ∧
    (∀ p : SBLogin, ReadBack ServerBound.login p.Fits p.Tail p) ∧
    (∀ p : PingResponse, ReadBack (ClientBound.status (J := J)) True (fun _ => True)
      (CBStatus.pingResponse p)) ∧
    ∀ p : CBLogin J, p.JsonFree → ReadBack ClientBound.login p.Fits p.Tail p := by
  refine ⟨fun p => ?_, fun p => ?_, fun p => ?_, fun p => ?_, fun p hjson => ?_⟩
  · exact .of_eq (sb_handshake_succeeds p) (sb_handshake_round_trips p)
      (write_server_bound.1 p)
  · exact .of_eq (sb_status_succeeds p) (sb_status_round_trips p) (write_server_bound.2.1 p)
  · exact .of_eq (sb_login_succeeds p) (sb_login_round_trips p) (write_server_bound.2.2 p)
  · exact .of_eq (cb_status_ping_succeeds p) (cb_status_round_trips p)
      (write_client_bound.1 _)
  · exact .of_eq (cb_login_succeeds p) (cb_login_round_trips p hjson) (write_client_bound.2 p)

/-- A login success with one signed property. -/
def signedIn (J : Type) : CBLogin J := .loginSuccess
  { uuid := ⟨7⟩
    username := ⟨"player"⟩
    properties := ⟨[⟨⟨"textures"⟩, ⟨"eyJ9"⟩, some ⟨"c2ln"⟩⟩]⟩ }

/-- A JSON library that knows the value `null` only. -/
@[reducible] def nullJson : SerdeJson Unit where
  toString _ := "null"
  fromReader := ⟨fun s =>
    if s = asBytes "null" then (.ok (), []) else (.err ⟨.invalidData, "expected value"⟩, [])⟩

/-- `signedIn` is read back in front of any bytes. -/
theorem packets_round_trip_signed_in :
    letI := nullJson
    ReadBack ClientBound.login (signedIn Unit).Fits (signedIn Unit).Tail (signedIn Unit) :=
  letI := nullJson
  (packets_round_trip (J := Unit)).2.2.2.2 (signedIn Unit) trivial

/-! ## Self-delimitation -/

/-- Bound strings are self-delimiting. -/
theorem bstring_self_delimiting {max : Nat} :
    Reader.SelfDelimiting (readFrom : Reader (BString max)) :=
  derived_self_delimiting rfl (.cons string_self_delimiting .nil)

/-- The next state is self-delimiting. -/
theorem next_state_self_delimiting : Reader.SelfDelimiting (readFrom : Reader NextState) :=
  derived_self_delimiting rfl
    (List.forall_mem_cons.mpr ⟨.nil, List.forall_mem_singleton.mpr .nil⟩)

/-- Vectors of bytes are self-delimiting. -/
theorem byte_vec_self_delimiting : Reader.SelfDelimiting (readFrom : Reader (Vec UInt8)) :=
  vec_self_delimiting primitive_self_delimiting

/-- Handshakes are self-delimiting. -/
theorem handshake_self_delimiting : Reader.SelfDelimiting (readFrom : Reader Handshake) :=
  derived_self_delimiting rfl (.cons varint_self_delimiting (.cons bstring_self_delimiting
    (.cons primitive_self_delimiting (.cons next_state_self_delimiting .nil))))

/-- Pings are self-delimiting. -/
theorem ping_request_self_delimiting : Reader.SelfDelimiting (readFrom : Reader PingRequest) :=
  derived_self_delimiting rfl (.cons primitive_self_delimiting .nil)

/-- Properties are self-delimiting. -/
theorem property_self_delimiting : Reader.SelfDelimiting (readFrom : Reader Property) :=
  derived_self_delimiting rfl (.cons bstring_self_delimiting (.cons bstring_self_delimiting
    (.cons (option_self_delimiting bstring_self_delimiting) .nil)))

/-- What one of the packets without an unprefixed list is read as depends only on the bytes it
consumes, and each of their prefixes ends in `UnexpectedEof`. -/
theorem packets_self_delimiting :
    Reader.SelfDelimiting (readFrom : Reader SBHandshake) ∧
    Reader.SelfDelimiting (readFrom : Reader SBStatus) ∧
    Reader.SelfDelimiting (readFrom : Reader LoginStart) ∧
    Reader.SelfDelimiting (readFrom : Reader EncryptionResponse) ∧
    Reader.SelfDelimiting (readFrom : Reader EncryptionRequest) ∧
    Reader.SelfDelimiting (readFrom : Reader LoginSuccess) ∧
    Reader.SelfDelimiting (readFrom : Reader SetCompression) := by
  refine ⟨?handshake, ?status, ?loginStart, ?response, ?request, ?success, ?compression⟩
  case handshake =>
    exact derived_self_delimiting rfl
      (List.forall_mem_singleton.mpr (.cons handshake_self_delimiting .nil))
  case status =>
    exact derived_self_delimiting rfl (List.forall_mem_cons.mpr
      ⟨.nil, List.forall_mem_singleton.mpr (.cons ping_request_self_delimiting .nil)⟩)
  case loginStart =>
    exact derived_self_delimiting rfl (.cons bstring_self_delimiting
      (.cons (option_self_delimiting uuid_self_delimiting) .nil))
  case response =>
    exact derived_self_delimiting rfl
      (.cons byte_vec_self_delimiting (.cons byte_vec_self_delimiting .nil))
  case request =>
    exact derived_self_delimiting rfl (.cons bstring_self_delimiting
      (.cons byte_vec_self_delimiting (.cons byte_vec_self_delimiting .nil)))
  case success =>
    exact derived_self_delimiting rfl (.cons uuid_self_delimiting
      (.cons bstring_self_delimiting
        (.cons (vec_self_delimiting property_self_delimiting) .nil)))
  case compression =>
    exact derived_self_delimiting rfl (.cons varint_self_delimiting .nil)

end Bws.Protocol
