import Bws.Protocol.Packets
import Bws.Protocol.RoundTrip

/-!
# What can be written

A writer fails only on a string or a vector of more than `i32::MAX` bytes or elements. `Fits`
says of each packet that it has none, and the writer succeeds exactly then.
-/

namespace Bws.Protocol

open Bws.Base

variable {α : Type}

/-- Writing to a buffer succeeds exactly when `P` holds. -/
def SucceedsIff (write : Proc Bytes Nat) (P : Prop) : Prop :=
  ∀ buf, (∃ n out, write.run buf = (.ok n, out)) ↔ P

/-- A result without a write succeeds. -/
theorem SucceedsIff.pure (n : Nat) : SucceedsIff (pure n) True :=
  fun buf => iff_of_true ⟨n, buf, rfl⟩ trivial

/-- Writing in sequence succeeds when both parts do. -/
theorem SucceedsIff.bind {write : Proc Bytes Nat} {f : Nat → Proc Bytes Nat} {P Q : Prop}
    (hwrite : SucceedsIff write P) (hf : ∀ n, SucceedsIff (f n) Q) :
    SucceedsIff (write >>= f) (P ∧ Q) := by
  intro buf
  constructor
  · rintro ⟨n, out, h⟩
    obtain ⟨k, middle, hhead, htail⟩ := Proc.bind_ok_iff.mp h
    exact ⟨(hwrite buf).mp ⟨k, middle, hhead⟩, (hf k middle).mp ⟨n, out, htail⟩⟩
  · rintro ⟨hP, hQ⟩
    obtain ⟨k, middle, hhead⟩ := (hwrite buf).mpr hP
    obtain ⟨n, out, htail⟩ := (hf k middle).mpr hQ
    exact ⟨n, out, (Proc.bind_of_ok hhead f).trans htail⟩

/-- The condition may be put differently. -/
theorem SucceedsIff.of_iff {write : Proc Bytes Nat} {P Q : Prop} (h : SucceedsIff write P)
    (hiff : P ↔ Q) : SucceedsIff write Q :=
  fun buf => (h buf).trans hiff

/-! ## The language's own types -/

/-- A number is always written. -/
theorem varint_succeeds (v : VarInt) : SucceedsIff (writeTo v) True :=
  fun buf => iff_of_true ⟨_, _, write_varint_run v buf⟩ trivial

/-- Fixed-width numbers are always written. -/
theorem primitive_succeeds [Primitive α] (a : α) : SucceedsIff (writeTo a) True :=
  fun buf => iff_of_true ⟨_, _, write_primitive_run a buf⟩ trivial

/-- Booleans are always written. -/
theorem bool_succeeds (b : Bool) : SucceedsIff (writeTo b) True :=
  fun buf => iff_of_true ⟨1, _, Proc.bind_of_ok (write_all_bytes _ buf) _⟩ trivial

/-- The string is at most `i32::MAX` bytes long. -/
def StringFits (s : String) : Prop := s.utf8ByteSize ≤ i32Max

/-- A string is written when it fits. -/
theorem string_succeeds (s : String) : SucceedsIff (writeTo s) (StringFits s) := by
  intro buf
  constructor
  · rintro ⟨n, out, h⟩
    by_contra hlong
    rw [write_string_too_long (Nat.lt_of_not_le hlong)] at h
    cases h
  · exact fun hfits => ⟨_, _, write_string_run hfits buf⟩

/-- Uuids are always written. -/
theorem uuid_succeeds (uuid : Uuid) : SucceedsIff (writeTo uuid) True :=
  primitive_succeeds uuid.val

/-- An option is written when its content is. -/
theorem option_succeeds [ToBytes α] {fits : α → Prop}
    (h : ∀ a, SucceedsIff (writeTo a) (fits a)) (o : Option α) :
    SucceedsIff (writeTo o) (∀ a, o = some a → fits a) := by
  cases o with
  | none => exact (bool_succeeds false).of_iff (by simp)
  | some a =>
      refine ((bool_succeeds true).bind fun tag => (h a).bind fun n => .pure _).of_iff ?_
      simp

/-- Elements are written when each of them is. -/
theorem elements_succeed [ToBytes α] {fits : α → Prop}
    (h : ∀ a, SucceedsIff (writeTo a) (fits a)) (es : List α) (written : Nat) :
    SucceedsIff (writeElements es written) (∀ e ∈ es, fits e) := by
  induction es generalizing written with
  | nil => exact (SucceedsIff.pure written).of_iff (by simp)
  | cons e es ih => exact ((h e).bind fun n => ih _).of_iff (by simp)

/-- A vector of at most `i32::MAX` elements, each of which fits. -/
def VecFits (fits : α → Prop) (v : Vec α) : Prop :=
  v.elems.length ≤ i32Max ∧ ∀ e ∈ v.elems, fits e

/-- A vector is written when it fits. -/
theorem vec_succeeds [ToBytes α] {fits : α → Prop}
    (h : ∀ a, SucceedsIff (writeTo a) (fits a)) (v : Vec α) :
    SucceedsIff (writeTo v) (VecFits fits v) := by
  have hwrite : writeTo (W := Bytes) v = if v.elems.length > i32Max then
      Proc.fail ⟨.invalidData, "Vec is too big"⟩
    else writeTo (lengthPrefix v.elems.length) >>= writeElements v.elems := rfl
  rw [hwrite]
  split
  · next hlong =>
      intro buf
      refine iff_of_false ?_ fun hfits => Nat.not_le_of_lt hlong hfits.1
      rintro ⟨n, out, hrun⟩
      cases hrun
  · next hshort =>
      refine ((varint_succeeds _).bind fun n => elements_succeed h v.elems n).of_iff ?_
      simp [VecFits, Nat.le_of_not_lt hshort]

/-- A vector of bytes of at most `i32::MAX` elements. -/
def ByteVecFits (v : Vec UInt8) : Prop := v.elems.length ≤ i32Max

/-- A vector of bytes is written when it fits. -/
theorem byte_vec_succeeds (v : Vec UInt8) : SucceedsIff (writeTo v) (ByteVecFits v) :=
  (vec_succeeds primitive_succeeds v).of_iff (by simp [VecFits, ByteVecFits])

/-- An unprefixed list of bytes is always written. -/
theorem byte_slice_succeeds (b : BoxSlice UInt8) : SucceedsIff (writeTo b) True :=
  (elements_succeed primitive_succeeds b.elems 0).of_iff (by simp)

/-! ## Packets -/

/-- A struct of one field is written when the field is. -/
theorem one_field_succeeds [ToBytes α] {a : α} {P : Prop} (h : SucceedsIff (writeTo a) P) :
    SucceedsIff (do let n ← writeTo a; pure (0 + n)) P :=
  (h.bind fun _ => .pure _).of_iff (by simp)

/-- A bound string is written when its string is. -/
theorem bstring_succeeds {max : Nat} (s : BString max) :
    SucceedsIff (writeTo s) (StringFits s.inner) :=
  one_field_succeeds (string_succeeds s.inner)

/-- The next state is always written. -/
theorem next_state_succeeds (state : NextState) : SucceedsIff (writeTo state) True := by
  cases state with
  | status => exact ((varint_succeeds ⟨1⟩).bind fun _ => .pure _).of_iff (by simp)
  | login => exact ((varint_succeeds ⟨2⟩).bind fun _ => .pure _).of_iff (by simp)

/-- The strings and vectors of a packet fit. -/
def Handshake.Fits (p : Handshake) : Prop := StringFits p.serverAddress.inner

@[inherit_doc Handshake.Fits]
def LoginStart.Fits (p : LoginStart) : Prop := StringFits p.name.inner

@[inherit_doc Handshake.Fits]
def EncryptionResponse.Fits (p : EncryptionResponse) : Prop :=
  ByteVecFits p.sharedSecret ∧ ByteVecFits p.verifyToken

@[inherit_doc Handshake.Fits]
def EncryptionRequest.Fits (p : EncryptionRequest) : Prop :=
  StringFits p.serverId.inner ∧ ByteVecFits p.publicKey ∧ ByteVecFits p.verifyToken

@[inherit_doc Handshake.Fits]
def Property.Fits (p : Property) : Prop :=
  StringFits p.name.inner ∧ StringFits p.value.inner ∧
    ∀ signature, p.signature = some signature → StringFits signature.inner

@[inherit_doc Handshake.Fits]
def LoginSuccess.Fits (p : LoginSuccess) : Prop :=
  StringFits p.username.inner ∧ VecFits Property.Fits p.properties

@[inherit_doc Handshake.Fits]
def PluginRequest.Fits (p : PluginRequest) : Prop := StringFits p.channel

@[inherit_doc Handshake.Fits]
def SBHandshake.Fits : SBHandshake → Prop
  | .handshake packet => packet.Fits

@[inherit_doc Handshake.Fits]
def SBLogin.Fits : SBLogin → Prop
  | .loginStart packet => packet.Fits
  | .encryptionResponse packet => packet.Fits
  | .pluginResponse _ => True

/-- A handshake is written when it fits. -/
theorem handshake_succeeds (p : Handshake) : SucceedsIff (writeTo p) p.Fits :=
  ((varint_succeeds p.protocolVersion).bind fun _ =>
    (bstring_succeeds p.serverAddress).bind fun _ =>
      (primitive_succeeds p.serverPort).bind fun _ =>
        (next_state_succeeds p.nextState).bind fun _ => .pure _).of_iff
    (by simp [Handshake.Fits])

/-- A login start is written when it fits. -/
theorem login_start_succeeds (p : LoginStart) : SucceedsIff (writeTo p) p.Fits :=
  ((bstring_succeeds p.name).bind fun _ =>
    (option_succeeds uuid_succeeds p.uuid).bind fun _ =>
      .pure _).of_iff (by simp [LoginStart.Fits])

/-- An encryption response is written when it fits. -/
theorem encryption_response_succeeds (p : EncryptionResponse) :
    SucceedsIff (writeTo p) p.Fits :=
  ((byte_vec_succeeds p.sharedSecret).bind fun _ =>
    (byte_vec_succeeds p.verifyToken).bind fun _ => .pure _).of_iff
    (by simp [EncryptionResponse.Fits])

/-- A plugin response is always written. -/
theorem plugin_response_succeeds (p : PluginResponse) : SucceedsIff (writeTo p) True :=
  ((varint_succeeds p.messageId).bind fun _ =>
    (option_succeeds byte_slice_succeeds p.data).bind fun _ => .pure _).of_iff (by simp)

/-- An encryption request is written when it fits. -/
theorem encryption_request_succeeds (p : EncryptionRequest) : SucceedsIff (writeTo p) p.Fits :=
  ((bstring_succeeds p.serverId).bind fun _ =>
    (byte_vec_succeeds p.publicKey).bind fun _ =>
      (byte_vec_succeeds p.verifyToken).bind fun _ => .pure _).of_iff
    (by simp [EncryptionRequest.Fits])

/-- A property is written when it fits. -/
theorem property_succeeds (p : Property) : SucceedsIff (writeTo p) p.Fits :=
  ((bstring_succeeds p.name).bind fun _ =>
    (bstring_succeeds p.value).bind fun _ =>
      (option_succeeds bstring_succeeds p.signature).bind fun _ => .pure _).of_iff
    (by simp [Property.Fits])

/-- A login success is written when it fits. -/
theorem login_success_succeeds (p : LoginSuccess) : SucceedsIff (writeTo p) p.Fits := by
  have h := (uuid_succeeds p.uuid).bind fun n => (bstring_succeeds p.username).bind fun m =>
    (vec_succeeds property_succeeds p.properties).bind fun k => .pure (0 + n + m + k)
  exact h.of_iff (by simp [LoginSuccess.Fits])

/-- A plugin request is written when it fits. -/
theorem plugin_request_succeeds (p : PluginRequest) : SucceedsIff (writeTo p) p.Fits :=
  ((varint_succeeds p.messageId).bind fun _ =>
    (string_succeeds p.channel).bind fun _ =>
      (byte_slice_succeeds p.data).bind fun _ => .pure _).of_iff
    (by simp [PluginRequest.Fits])

/-- A tuple variant of one field is written when the field is. -/
theorem variant_succeeds [ToBytes α] {a : α} {P : Prop} (tag : Int32)
    (h : SucceedsIff (writeTo a) P) :
    SucceedsIff (do let k ← writeTo (⟨tag⟩ : VarInt); let n ← writeTo a; pure (k + n)) P :=
  ((varint_succeeds _).bind fun _ => h.bind fun _ => .pure _).of_iff (by simp)

/-- A server-bound handshake packet is written when it fits. -/
theorem sb_handshake_succeeds (p : SBHandshake) : SucceedsIff (writeTo p) p.Fits := by
  cases p with
  | handshake packet => exact variant_succeeds 0 (handshake_succeeds packet)

/-- A server-bound status packet is always written. -/
theorem sb_status_succeeds (p : SBStatus) : SucceedsIff (writeTo p) True := by
  cases p with
  | statusRequest => exact ((varint_succeeds ⟨0⟩).bind fun _ => .pure _).of_iff (by simp)
  | pingRequest packet =>
      exact variant_succeeds 1 (one_field_succeeds (primitive_succeeds packet.payload))

/-- A server-bound login packet is written when it fits. -/
theorem sb_login_succeeds (p : SBLogin) : SucceedsIff (writeTo p) p.Fits := by
  cases p with
  | loginStart packet => exact variant_succeeds 0 (login_start_succeeds packet)
  | encryptionResponse packet => exact variant_succeeds 1 (encryption_response_succeeds packet)
  | pluginResponse packet => exact variant_succeeds 2 (plugin_response_succeeds packet)

variable {J : Type} [SerdeJson J]

@[inherit_doc Handshake.Fits]
def CBLogin.Fits : CBLogin J → Prop
  | .disconnect packet => StringFits (SerdeJson.toString packet.reason.val)
  | .encryptionRequest packet => packet.Fits
  | .loginSuccess packet => packet.Fits
  | .setCompression _ => True
  | .pluginRequest packet => packet.Fits

/-- An answer to a ping is always written. -/
theorem cb_status_ping_succeeds (p : PingResponse) :
    SucceedsIff (writeTo (CBStatus.pingResponse p : CBStatus J)) True :=
  variant_succeeds 1 (one_field_succeeds (primitive_succeeds p.payload))

/-- A client-bound login packet is written when it fits. -/
theorem cb_login_succeeds (p : CBLogin J) : SucceedsIff (writeTo p) p.Fits := by
  cases p with
  | disconnect packet =>
      exact variant_succeeds 0 (one_field_succeeds (string_succeeds _))
  | encryptionRequest packet => exact variant_succeeds 1 (encryption_request_succeeds packet)
  | loginSuccess packet => exact variant_succeeds 2 (login_success_succeeds packet)
  | setCompression packet =>
      exact variant_succeeds 3 (one_field_succeeds (varint_succeeds packet.threshold))
  | pluginRequest packet => exact variant_succeeds 4 (plugin_request_succeeds packet)

end Bws.Protocol
