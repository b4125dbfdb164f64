import Bws.Protocol.PacketLaws
import Bws.Protocol.ReadFormat

/-!
# The readers of the packets

All packets can be read in the format, and the only unprefixed lists in them are of bytes, which
are not read of an empty input. So the readers of the packets come to an end on every input, and
take their bytes off its front: `packet_readers_end`.
-/

namespace Bws.Protocol

open Bws.Base Bws.Base.Proc

variable {J : Type} [SerdeJson J]

/-- The types that can be read, where no element of a list is read of an empty input. -/
abbrev Terminating (α : Type) (i : FromBytes α) : Prop :=
  ReadFormat (fun γ _ => RejectsEmpty γ) α i

/-- Fields of such types. -/
def FieldsTerminate (fs : List Field) : Prop := ∀ f ∈ fs, Terminating f.ty f.fromBytes

theorem FieldsTerminate.nil : FieldsTerminate [] := fun _ h => absurd h List.not_mem_nil

theorem FieldsTerminate.cons {f : Field} {fs : List Field} (h : Terminating f.ty f.fromBytes)
    (hfs : FieldsTerminate fs) : FieldsTerminate (f :: fs) :=
  List.forall_mem_cons.mpr ⟨h, hfs⟩

/-! ## The types of the fields -/

/-- A byte is not read of an empty input. -/
theorem u8_rejects_empty : RejectsEmpty UInt8 := by
  intro b rest h
  rw [read_u8_nil] at h
  cases h

theorem byte_vec_terminating : Terminating (Vec UInt8) inferInstance :=
  .vec (.primitive inferInstance)

theorem byte_slice_terminating : Terminating (BoxSlice UInt8) inferInstance :=
  .boxSlice (.primitive inferInstance) u8_rejects_empty

theorem bstring_terminating {max : Nat} : Terminating (BString max) inferInstance :=
  .derived rfl .varint (FieldsTerminate.cons .string .nil)

theorem next_state_terminating : Terminating NextState inferInstance :=
  .derived rfl .varint FieldsTerminate.nil

/-! ## Packets -/

theorem handshake_terminating : Terminating Handshake inferInstance :=
  .derived rfl .varint (FieldsTerminate.cons .varint (.cons bstring_terminating
    (.cons (.primitive inferInstance) (.cons next_state_terminating .nil))))

theorem ping_request_terminating : Terminating PingRequest inferInstance :=
  .derived rfl .varint (FieldsTerminate.cons (.primitive inferInstance) .nil)

theorem ping_response_terminating : Terminating PingResponse inferInstance :=
  .derived rfl .varint (FieldsTerminate.cons (.primitive inferInstance) .nil)

theorem status_response_terminating (hjson : SerdeJson.Streams J) :
    Terminating (StatusResponse J) inferInstance :=
  .derived rfl .varint (FieldsTerminate.cons (.json inferInstance hjson) .nil)

theorem login_start_terminating : Terminating LoginStart inferInstance :=
  .derived rfl .varint (FieldsTerminate.cons bstring_terminating (.cons (.option .uuid) .nil))

theorem encryption_response_terminating : Terminating EncryptionResponse inferInstance :=
  .derived rfl .varint (FieldsTerminate.cons byte_vec_terminating (.cons byte_vec_terminating .nil))

theorem plugin_response_terminating : Terminating PluginResponse inferInstance :=
  .derived rfl .varint (FieldsTerminate.cons .varint (.cons (.option byte_slice_terminating) .nil))

theorem disconnect_terminating (hjson : SerdeJson.Streams J) :
    Terminating (Disconnect J) inferInstance :=
  .derived rfl .varint (FieldsTerminate.cons (.json inferInstance hjson) .nil)

theorem encryption_request_terminating : Terminating EncryptionRequest inferInstance :=
  .derived rfl .varint (FieldsTerminate.cons bstring_terminating
    (.cons byte_vec_terminating (.cons byte_vec_terminating .nil)))

theorem property_terminating : Terminating Property inferInstance :=
  .derived rfl .varint (FieldsTerminate.cons bstring_terminating
    (.cons bstring_terminating (.cons (.option bstring_terminating) .nil)))

theorem login_success_terminating : Terminating LoginSuccess inferInstance :=
  .derived rfl .varint (FieldsTerminate.cons .uuid
    (.cons bstring_terminating (.cons (.vec property_terminating) .nil)))

theorem set_compression_terminating : Terminating SetCompression inferInstance :=
  .derived rfl .varint (FieldsTerminate.cons .varint .nil)

theorem plugin_request_terminating : Terminating PluginRequest inferInstance :=
  .derived rfl .varint
    (FieldsTerminate.cons .varint (.cons .string (.cons byte_slice_terminating .nil)))

theorem sb_handshake_terminating : Terminating SBHandshake inferInstance :=
  .derived rfl .varint (FieldsTerminate.cons handshake_terminating .nil)

theorem sb_status_terminating : Terminating SBStatus inferInstance :=
  .derived rfl .varint (FieldsTerminate.cons ping_request_terminating .nil)

theorem sb_login_terminating : Terminating SBLogin inferInstance :=
  .derived rfl .varint (FieldsTerminate.cons login_start_terminating
    (.cons encryption_response_terminating (.cons plugin_response_terminating .nil)))

theorem cb_status_terminating (hjson : SerdeJson.Streams J) :
    Terminating (CBStatus J) inferInstance :=
  .derived rfl .varint (FieldsTerminate.cons (status_response_terminating hjson)
    (.cons ping_response_terminating .nil))

theorem cb_login_terminating (hjson : SerdeJson.Streams J) :
    Terminating (CBLogin J) inferInstance :=
  .derived rfl .varint (FieldsTerminate.cons (disconnect_terminating hjson)
    (.cons encryption_request_terminating (.cons login_success_terminating
      (.cons set_compression_terminating (.cons plugin_request_terminating .nil)))))

/-- The reader comes to an end on every input, what it leaves is the end of the input, and where
it reports that the input has ended it has used all of it. -/
structure EndsOnEveryInput (P : Type) [FromBytes P] : Prop where
  ends : ∀ s, Ends (readFrom : Reader P) s
  suffix : ∀ s, ((readFrom : Reader P).run s).2 <:+ s
  drained : ∀ s message rest,
    (readFrom : Reader P).run s = (.err ⟨.unexpectedEof, message⟩, rest) → rest = []

/-- A type that terminates comes to an end on every input. -/
theorem ReadFormat.ends_on_every_input {P : Type} {i : FromBytes P} (h : Terminating P i) :
    EndsOnEveryInput P :=
  ⟨h.ends fun _ _ hγ => hγ, h.forward.suffix, h.forward.eof_at_end⟩

/-- The readers of all packets come to an end on every input, with a value, an error or a panic,
and never look behind what they have used. -/
theorem packet_readers_end (hjson : SerdeJson.Streams J) :
    EndsOnEveryInput SBHandshake ∧ EndsOnEveryInput SBStatus ∧ EndsOnEveryInput SBLogin ∧
      EndsOnEveryInput (CBStatus J) ∧ EndsOnEveryInput (CBLogin J) :=
  ⟨sb_handshake_terminating.ends_on_every_input, sb_status_terminating.ends_on_every_input,
    sb_login_terminating.ends_on_every_input,
    (cb_status_terminating hjson).ends_on_every_input,
    (cb_login_terminating hjson).ends_on_every_input⟩

/-- `nullJson` reads as documented. -/
theorem null_json_streams :
    letI := nullJson
    SerdeJson.Streams Unit := by
  let := nullJson
  have hrun : ∀ s, (SerdeJson.fromReader : Reader Unit).run s =
      if s = asBytes "null" then (.ok (), [])
      else (.err ⟨.invalidData, "expected value"⟩, []) := fun _ => rfl
  refine ⟨fun s => ?_, fun s => ?_, fun s message rest h => ?_, fun s v rest h => ?_⟩
  · rw [Ends, hrun]
    split <;> simp
  · rw [hrun]
    split <;> exact List.nil_suffix
  · rw [hrun] at h
    split at h <;> simp at h
  · rw [hrun] at h
    split at h
    · next htext =>
        rw [htext]
        exact ⟨by decide, (Prod.mk.inj h).2.symm⟩
    · simp at h

/-- The readers end where the only JSON value is `null`. -/
theorem packet_readers_end_null :
    letI := nullJson
    EndsOnEveryInput SBHandshake ∧ EndsOnEveryInput SBStatus ∧ EndsOnEveryInput SBLogin ∧
      EndsOnEveryInput (CBStatus Unit) ∧ EndsOnEveryInput (CBLogin Unit) :=
  letI := nullJson
  packet_readers_end null_json_streams

end Bws.Protocol
