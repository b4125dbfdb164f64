import Bws.Protocol.DeriveLaws
import Bws.Server.StreamCtx

/-!
# Hostile input

The inputs on which a server-bound packet is read without a panic. Every length in the format
is signed, and a negative one unwinds where it is allocated. `readers_return_iff` says exactly
which inputs reach one, for the readers of the three packet types and for the frames around
them; `negative_length_panics` is one of them.
-/

namespace Bws.Server

open Bws.Base Bws.Base.Proc Bws.Protocol

/-! ## Derived readers -/

/-- Fields in sequence return when each of them does on what the fields before it leave. -/
theorem returns_read_fields_cons {f : Field} {fs : List Field} {s : Bytes} :
    Returns (readFields (f :: fs)) s ↔
      Returns f.fromBytes.readFrom s ∧
        ∀ x rest, f.fromBytes.readFrom.run s = (.ok x, rest) → Returns (readFields fs) rest := by
  rw [readFields, returns_bind_iff]
  refine and_congr_right fun _ => forall_congr' fun x => forall_congr' fun rest => ?_
  refine imp_congr_right fun _ => ?_
  rw [returns_bind_iff]
  exact ⟨fun h => h.1, fun h => ⟨h, fun _ _ _ => trivial⟩⟩

/-- A single field returns when its type's reader does. -/
theorem returns_read_field {f : Field} {s : Bytes} :
    Returns (readFields [f]) s ↔ Returns f.fromBytes.readFrom s :=
  returns_read_fields_cons.trans (and_iff_left fun _ _ _ => trivial)

/-- Fields that always return do so in sequence. -/
theorem returns_read_fields {fs : List Field}
    (h : ∀ f ∈ fs, ∀ s, Returns f.fromBytes.readFrom s) (s : Bytes) :
    Returns (readFields fs) s := by
  induction fs generalizing s with
  | nil => trivial
  | cons f fs ih =>
      obtain ⟨hf, hfs⟩ := List.forall_mem_cons.mp h
      exact returns_read_fields_cons.mpr ⟨hf s, fun x rest _ => ih hfs rest⟩

/-- The arm that matches returns. -/
def ArmReturns : (vs : List Variant) → Arms vs → Int32 → Bytes → Prop
  | [], _, _, _ => True
  | v :: vs, (tag, arms), discriminant, s =>
      if discriminant = tag then Returns (readFields v.fields.toList) s
      else ArmReturns vs arms discriminant s

/-- A match returns when the arm that matches does. -/
theorem returns_read_variant_iff {vs : List Variant} {arms : Arms vs} {discriminant : Int32}
    {s : Bytes} :
    Returns (readVariant vs arms discriminant) s ↔ ArmReturns vs arms discriminant s := by
  induction vs with
  | nil => exact Iff.rfl
  | cons v vs ih =>
      obtain ⟨tag, arms⟩ := arms
      rw [readVariant, ArmReturns]
      split
      · exact returns_map_iff
      · exact returns_map_iff.trans ih

/-- An enum's reader returns when its match does on what follows the discriminant. -/
theorem returns_read_enum {variants : List Variant} {arms : Arms variants} {s : Bytes} :
    Returns (deriveFromBytes VarInt (.enum variants) arms) s ↔
      ∀ discriminant rest, StartsWithVarInt s discriminant rest →
        ArmReturns variants arms discriminant rest := by
  refine (returns_bind_iff (p := (readFrom : Reader VarInt))
    (f := fun v => readVariant variants arms v.val)).trans ?_
  simp only [returns_read_variant_iff]
  constructor
  · rintro ⟨-, h⟩ discriminant rest hstart
    exact h ⟨discriminant⟩ rest (read_varint_of_starts hstart)
  · intro h
    exact ⟨returns_read_varint s, fun v rest hread => h _ _ (read_varint_ok_iff.mp hread)⟩

/-- A bound string returns exactly when its length is not negative. -/
theorem returns_read_bstring_iff {max : Nat} (s : Bytes) :
    Returns (readFrom : Reader (BString max)) s ↔ ¬ NegativeLength s := by
  have h : Returns (readFrom : Reader (BString max)) s ↔ Returns (readFields [⟨none, String⟩]) s :=
    returns_map_iff
  exact h.trans (returns_read_field.trans (returns_read_string_iff s))

/-- A vector of bytes returns exactly when its length is not negative. -/
theorem returns_read_byte_vec_iff (s : Bytes) :
    Returns (readFrom : Reader (Vec UInt8)) s ↔ ¬ NegativeLength s :=
  returns_read_vec_iff returns_read_primitive (by decide) (by decide) s

/-- The next state always returns. -/
theorem returns_read_next_state (s : Bytes) : Returns (readFrom : Reader NextState) s := by
  have hread : Returns (readFrom : Reader NextState) s ↔
      ∀ discriminant rest, StartsWithVarInt s discriminant rest →
        if discriminant = 1 then Returns (readFields []) rest
        else if discriminant = 2 then Returns (readFields []) rest
        else True := returns_map_iff.trans returns_read_enum
  refine hread.mpr fun discriminant rest _ => ?_
  split
  · trivial
  · split <;> trivial

/-! ## Packets -/

/-- A handshake whose address has a negative length, behind any protocol version. -/
def Handshake.Hostile (s : Bytes) : Prop :=
  ∃ version rest, StartsWithVarInt s version rest ∧ NegativeLength rest

/-- Handshakes return on all other inputs. -/
theorem returns_read_handshake_iff (s : Bytes) :
    Returns (readFrom : Reader Handshake) s ↔ ¬ Handshake.Hostile s := by
  have hread : Returns (readFrom : Reader Handshake) s ↔
      Returns (readFields [⟨none, VarInt⟩, ⟨none, BString 255⟩, ⟨none, UInt16⟩,
        ⟨none, NextState⟩]) s := returns_map_iff
  rw [hread, returns_read_fields_cons]
  constructor
  · rintro ⟨-, h⟩ ⟨version, rest, hstart, hneg⟩
    have hrest := h ⟨version⟩ rest (read_varint_of_starts hstart)
    exact (returns_read_bstring_iff rest).mp (returns_read_fields_cons.mp hrest).1 hneg
  · intro h
    refine ⟨returns_read_varint s, fun version rest hversion => ?_⟩
    refine returns_read_fields_cons.mpr ⟨?_, fun _ rest _ => ?_⟩
    · refine (returns_read_bstring_iff rest).mpr fun hneg => h ?_
      exact ⟨_, rest, read_varint_ok_iff.mp hversion, hneg⟩
    · refine returns_read_fields (List.forall_mem_cons.mpr ⟨returns_read_primitive, ?_⟩) rest
      exact List.forall_mem_singleton.mpr returns_read_next_state

/-- Login starts return exactly when the length of the name is not negative. -/
theorem returns_read_login_start_iff (s : Bytes) :
    Returns (readFrom : Reader LoginStart) s ↔ ¬ NegativeLength s := by
  have hread : Returns (readFrom : Reader LoginStart) s ↔
      Returns (readFields [⟨none, BString 16⟩, ⟨none, Option Uuid⟩]) s := returns_map_iff
  rw [hread, returns_read_fields_cons, returns_read_bstring_iff]
  refine and_iff_left fun _ rest _ => returns_read_field.mpr ?_
  exact returns_read_option returns_read_uuid rest

/-- An encryption response with a negative length: of the secret, or of the token behind a
secret that is all there. -/
def EncryptionResponse.Hostile (s : Bytes) : Prop :=
  NegativeLength s ∨ ∃ secret rest, StartsWithBlock s secret rest ∧ NegativeLength rest

/-- Encryption responses return on all other inputs. -/
theorem returns_read_encryption_response_iff (s : Bytes) :
    Returns (readFrom : Reader EncryptionResponse) s ↔ ¬ EncryptionResponse.Hostile s := by
  have hread : Returns (readFrom : Reader EncryptionResponse) s ↔
      Returns (readFields [⟨none, Vec UInt8⟩, ⟨none, Vec UInt8⟩]) s := returns_map_iff
  have htoken : ∀ rest, Returns (readFields [⟨none, Vec UInt8⟩]) rest ↔ ¬ NegativeLength rest :=
    fun rest => returns_read_field.trans (returns_read_byte_vec_iff rest)
  rw [hread, returns_read_fields_cons]
  constructor
  · rintro ⟨hsecret, h⟩ (hneg | ⟨secret, rest, hblock, hneg⟩)
    · exact (returns_read_byte_vec_iff s).mp hsecret hneg
    · exact (htoken rest).mp (h ⟨secret⟩ rest (read_byte_vec_ok_iff.mpr hblock)) hneg
  · intro h
    refine ⟨(returns_read_byte_vec_iff s).mpr fun hneg => h (.inl hneg), fun secret rest hok => ?_⟩
    refine (htoken rest).mpr fun hneg => h (.inr ?_)
    exact ⟨secret.elems, rest, read_byte_vec_ok_iff.mp hok, hneg⟩

/-- Plugin responses always return. -/
theorem returns_read_plugin_response (s : Bytes) :
    Returns (readFrom : Reader PluginResponse) s := by
  refine returns_map_iff.mpr (returns_read_fields (List.forall_mem_cons.mpr
    ⟨returns_read_varint, List.forall_mem_singleton.mpr ?_⟩) s)
  exact returns_read_option (returns_read_box_slice returns_read_primitive u8_reads_some)

/-- A handshake packet with a hostile handshake. -/
def SBHandshake.Hostile (s : Bytes) : Prop :=
  ∃ rest, StartsWithVarInt s 0 rest ∧ Handshake.Hostile rest

/-- A login packet with a negative length in the name, or a hostile encryption response. -/
def SBLogin.Hostile (s : Bytes) : Prop :=
  (∃ rest, StartsWithVarInt s 0 rest ∧ NegativeLength rest) ∨
    ∃ rest, StartsWithVarInt s 1 rest ∧ EncryptionResponse.Hostile rest

/-- The server-bound handshake packet returns on all other inputs. -/
theorem returns_read_sb_handshake_iff (s : Bytes) :
    Returns (readFrom : Reader SBHandshake) s ↔ ¬ SBHandshake.Hostile s := by
  have hread : Returns (readFrom : Reader SBHandshake) s ↔
      ∀ discriminant rest, StartsWithVarInt s discriminant rest →
        if discriminant = 0 then Returns (readFields [⟨none, Handshake⟩]) rest
        else True := returns_map_iff.trans returns_read_enum
  simp only [hread, returns_read_field]
  constructor
  · rintro h ⟨rest, hstart, hhostile⟩
    exact (returns_read_handshake_iff rest).mp (h 0 rest hstart) hhostile
  · intro h discriminant rest hstart
    split
    · next heq =>
        subst heq
        refine (returns_read_handshake_iff rest).mpr fun hhostile => ?_
        exact h ⟨rest, hstart, hhostile⟩
    · trivial

/-- The server-bound status packets always return. -/
theorem returns_read_sb_status (s : Bytes) : Returns (readFrom : Reader SBStatus) s := by
  have hread : Returns (readFrom : Reader SBStatus) s ↔
      ∀ discriminant rest, StartsWithVarInt s discriminant rest →
        if discriminant = 0 then Returns (readFields []) rest
        else if discriminant = 1 then Returns (readFields [⟨none, PingRequest⟩]) rest
        else True := returns_map_iff.trans returns_read_enum
  simp only [hread, returns_read_field]
  intro discriminant rest _
  split
  · trivial
  · split
    · exact returns_map_iff.mpr (returns_read_field.mpr (returns_read_primitive rest))
    · trivial

/-- The server-bound login packets return on all other inputs. -/
theorem returns_read_sb_login_iff (s : Bytes) :
    Returns (readFrom : Reader SBLogin) s ↔ ¬ SBLogin.Hostile s := by
  have hread : Returns (readFrom : Reader SBLogin) s ↔
      ∀ discriminant rest, StartsWithVarInt s discriminant rest →
        if discriminant = 0 then Returns (readFields [⟨none, LoginStart⟩]) rest
        else if discriminant = 1 then Returns (readFields [⟨none, EncryptionResponse⟩]) rest
        else if discriminant = 2 then Returns (readFields [⟨none, PluginResponse⟩]) rest
        else True := returns_map_iff.trans returns_read_enum
  simp only [hread, returns_read_field]
  constructor
  · rintro h (⟨rest, hstart, hneg⟩ | ⟨rest, hstart, hhostile⟩)
    · exact (returns_read_login_start_iff rest).mp (h 0 rest hstart) hneg
    · exact (returns_read_encryption_response_iff rest).mp (h 1 rest hstart) hhostile
  · intro h discriminant rest hstart
    split
    · next heq =>
        subst heq
        refine (returns_read_login_start_iff rest).mpr fun hneg => ?_
        exact h (.inl ⟨rest, hstart, hneg⟩)
    · split
      · next heq =>
          subst heq
          refine (returns_read_encryption_response_iff rest).mpr fun hhostile => ?_
          exact h (.inr ⟨rest, hstart, hhostile⟩)
      · split
        · exact returns_read_plugin_response rest
        · trivial

/-! ## Frames -/

/-- A stream whose first frame has a negative length, or a payload that is hostile. -/
def HostileFrame (hostile : Bytes → Prop) (s : Bytes) : Prop :=
  NegativeLength s ∨ ∃ payload rest, StartsWithBlock s payload rest ∧ hostile payload

/-- A packet is read from a stream without a panic exactly when its first frame is not
hostile. -/
theorem returns_read_packet_hostile_iff {P : Type} [FromBytes P] {hostile : Bytes → Prop}
    (hP : ∀ s, Returns (readFrom : Reader P) s ↔ ¬ hostile s) (ctx : StreamCtx) :
    Returns (StreamCtx.readPacket P) ctx ↔ ¬ HostileFrame hostile ctx.incoming := by
  simp only [StreamCtx.returns_read_packet_iff, HostileFrame, hP, not_or, not_exists, not_and]

/-- The server-bound packets are read without a panic exactly when no negative length is
reached: in the address of a handshake, in the name of a login start, in the secret or the
token of an encryption response, or in front of a frame. -/
theorem readers_return_iff (s : Bytes) (ctx : StreamCtx) :
    (Returns (readFrom : Reader SBHandshake) s ↔ ¬ SBHandshake.Hostile s) ∧
    Returns (readFrom : Reader SBStatus) s ∧
    (Returns (readFrom : Reader SBLogin) s ↔ ¬ SBLogin.Hostile s) ∧
    (Returns (StreamCtx.readPacket SBHandshake) ctx ↔
      ¬ HostileFrame SBHandshake.Hostile ctx.incoming) ∧
    (Returns (StreamCtx.readPacket SBStatus) ctx ↔ ¬ NegativeLength ctx.incoming) ∧
    (Returns (StreamCtx.readPacket SBLogin) ctx ↔
      ¬ HostileFrame SBLogin.Hostile ctx.incoming) := by
  refine ⟨returns_read_sb_handshake_iff s, returns_read_sb_status s, returns_read_sb_login_iff s,
    returns_read_packet_hostile_iff returns_read_sb_handshake_iff ctx, ?_,
    returns_read_packet_hostile_iff returns_read_sb_login_iff ctx⟩
  exact StreamCtx.returns_read_packet_iff.trans
    (and_iff_left fun payload _ _ => returns_read_sb_status payload)

/-- A handshake whose address has the length -1 unwinds. -/
theorem negative_length_panics :
    (readFrom : Reader SBHandshake).run [0x00, 0x00, 0xFF, 0xFF, 0xFF, 0xFF, 0x0F] =
      (.panic .capacityOverflow, []) ∧
    ¬ ∀ s, Returns (readFrom : Reader SBHandshake) s := by
  have hrun : (readFrom : Reader SBHandshake).run [0x00, 0x00, 0xFF, 0xFF, 0xFF, 0xFF, 0x0F] =
      (.panic .capacityOverflow, []) := by decide
  refine ⟨hrun, fun h => ?_⟩
  have hreturns := h [0x00, 0x00, 0xFF, 0xFF, 0xFF, 0xFF, 0x0F]
  rw [Returns, hrun] at hreturns
  exact hreturns

end Bws.Server
