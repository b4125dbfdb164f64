import Bws.Protocol.PacketLaws
import Bws.Protocol.Sizes
import Bws.Protocol.Varints

/-!
# Re-encoding

A reader accepts more than its writer produces: numerals with superfluous groups, bits that are
cut off, any tag of an option but zero. What it returns can be written nevertheless, and takes
no more bytes than were read. `Reader.Shortens` says so of a codec, and `reencoding_normalises`
puts it together with the round trip for the packets a client sends.
-/

namespace Bws.Protocol

open Bws.Base Bws.Base.Reader

variable {α : Type}

/-- What a codec reads is written in no more bytes. -/
abbrev Reencodes (α : Type) [ToBytes α] [FromBytes α] : Prop :=
  Shortens (writeTo (α := α)) readFrom

/-! ## The language's own types -/

/-- The bytes of a number. -/
theorem varint_appends (v : VarInt) : Appends (writeTo v) v.bytes :=
  fun buf => ⟨_, write_varint_run v buf⟩

/-- Numbers re-encode. -/
theorem varint_reencodes : Reencodes VarInt := by
  intro v s rest h
  obtain ⟨used, hs, hle⟩ := bytes_le_of_starts (read_varint_ok_iff.mp h)
  exact ⟨used, v.bytes, hs, varint_appends v, hle⟩

/-- Fixed-width numbers re-encode in the bytes they were read from. -/
theorem primitive_reencodes [Primitive α] : Reencodes α := by
  intro a s rest h
  obtain ⟨bytes, _, hread, hend⟩ := Proc.bind_ok_iff.mp h
  obtain ⟨-, rfl⟩ := Prod.mk.inj hend
  obtain ⟨rfl, hlen⟩ := read_exact_ok_iff.mp hread
  refine ⟨bytes, _, rfl, fun buf => ⟨_, write_primitive_run a buf⟩, ?_⟩
  rw [BigEndian.length_bytes, hlen]

/-- Booleans re-encode as zero or one. -/
theorem bool_reencodes : Reencodes Bool := by
  intro b s rest h
  obtain ⟨bytes, _, hread, hend⟩ := Proc.bind_ok_iff.mp h
  obtain ⟨-, rfl⟩ := Prod.mk.inj hend
  obtain ⟨rfl, hlen⟩ := read_exact_ok_iff.mp hread
  refine ⟨bytes, [if b then 0x01 else 0x00], rfl, fun buf => ?_, Nat.le_of_eq hlen.symm⟩
  exact ⟨1, Proc.bind_of_ok (write_all_bytes _ buf) _⟩

/-- Uuids re-encode. -/
theorem uuid_reencodes : Reencodes Uuid := by
  intro uuid s rest h
  obtain ⟨val, hread, rfl⟩ := Proc.map_ok_iff.mp h
  exact primitive_reencodes val s rest hread

/-- Options re-encode when their content does. -/
theorem option_reencodes [ToBytes α] [FromBytes α] (h : Reencodes α) : Reencodes (Option α) := by
  intro o s rest hread
  obtain ⟨tag, middle, htag, hrest⟩ := Proc.bind_ok_iff.mp hread
  obtain ⟨first, one, rfl, hone, hle⟩ := bool_reencodes tag s middle htag
  cases tag with
  | false =>
      obtain ⟨ho, rfl⟩ := Prod.mk.inj hrest
      obtain rfl := Outcome.ok.inj ho
      exact ⟨first, one, rfl, hone, hle⟩
  | true =>
      obtain ⟨a, hinner, rfl⟩ := Proc.map_ok_iff.mp hrest
      obtain ⟨second, bytes, rfl, hbytes, hle'⟩ := h a middle rest hinner
      refine ⟨first ++ second, one ++ (bytes ++ []), (List.append_assoc ..).symm,
        hone.bind fun n => hbytes.bind fun k => .pure _, ?_⟩
      simp only [List.length_append, List.append_nil]
      omega

/-- A length that is not negative is written again as it was read. -/
theorem length_reencodes {s middle : Bytes} {n : Int32} (h : StartsWithVarInt s n middle)
    (hnonneg : 0 ≤ n.toInt) :
    n.toInt.toNat ≤ i32Max ∧ ∃ used, s = used ++ middle ∧
      (lengthPrefix n.toInt.toNat).bytes.length ≤ used.length := by
  have hlt := n.toInt_lt
  have hle : n.toInt.toNat ≤ i32Max := by
    unfold i32Max
    omega
  have hn : Int32.ofNat n.toInt.toNat = n := by
    rw [← Int32.toInt_inj, (length_casts hle).1]
    omega
  obtain ⟨used, hs, hused⟩ := bytes_le_of_starts h
  exact ⟨hle, used, hs, by rwa [lengthPrefix, hn]⟩

/-- Strings re-encode. -/
theorem string_reencodes : Reencodes String := by
  intro string s rest h
  obtain ⟨n, hstart, hlen⟩ := read_string_ok_iff.mp h
  rw [length_as_bytes] at hlen
  obtain ⟨hle, used, rfl, hused⟩ := length_reencodes hstart (by omega)
  have hn : n.toInt.toNat = string.utf8ByteSize := by omega
  rw [hn] at hle hused
  refine ⟨used ++ asBytes string, _, (List.append_assoc ..).symm,
    fun buf => ⟨_, write_string_run hle buf⟩, ?_⟩
  simp only [List.length_append]
  omega

/-- Elements re-encode one by one. -/
theorem elements_reencode [ToBytes α] [FromBytes α] (h : Reencodes α) {n : Nat} {s rest : Bytes}
    {es : List α} (hread : (readElements n).run s = (.ok es, rest)) :
    es.length = n ∧ ∃ used bytes, s = used ++ rest ∧
      (∀ written, Appends (writeElements es written) bytes) ∧ bytes.length ≤ used.length := by
  induction n generalizing s es with
  | zero =>
      obtain ⟨hes, rfl⟩ := Prod.mk.inj hread
      obtain rfl := Outcome.ok.inj hes
      exact ⟨rfl, [], [], rfl, fun written => .pure written, Nat.le_refl 0⟩
  | succ n ih =>
      obtain ⟨e, middle, hhead, htail⟩ := Proc.bind_ok_iff.mp hread
      obtain ⟨es, hrest, rfl⟩ := Proc.map_ok_iff.mp htail
      obtain ⟨first, bytes, rfl, hbytes, hle⟩ := h e s middle hhead
      obtain ⟨hlen, second, more, rfl, hmore, hle'⟩ := ih hrest
      refine ⟨congrArg (· + 1) hlen, first ++ second, bytes ++ more,
        (List.append_assoc ..).symm, fun written => hbytes.bind fun k => hmore _, ?_⟩
      simp only [List.length_append]
      omega

/-- Vectors of elements of between one byte and 4 GiB in memory re-encode. -/
theorem vec_reencodes [ToBytes α] [FromBytes α] [Layout α] (h : Reencodes α)
    (hpos : 0 < Layout.sizeOf α) (hsize : Layout.sizeOf α ≤ 2 ^ 32) : Reencodes (Vec α) := by
  rintro ⟨elems⟩ s rest hread
  obtain ⟨n, middle, hstart, hnonneg, hrest⟩ := (read_length_ok_iff hpos hsize).mp hread
  obtain ⟨es, helems, heq⟩ := Proc.map_ok_iff.mp hrest
  obtain rfl : es = elems := congrArg Vec.elems heq
  obtain ⟨hle, used, rfl, hused⟩ := length_reencodes hstart hnonneg
  obtain ⟨hlen, usedElems, bytes, rfl, hbytes, hle'⟩ := elements_reencode h helems
  have hcount : es.length = n.toInt.toNat := hlen
  rw [← hcount] at hle hused
  have hwrite : writeTo (W := Bytes) (⟨es⟩ : Vec α) =
      writeTo (lengthPrefix es.length) >>= writeElements es := if_neg (Nat.not_lt_of_le hle)
  refine ⟨used ++ usedElems, (lengthPrefix es.length).bytes ++ bytes,
    (List.append_assoc ..).symm, ?_, ?_⟩
  · rw [hwrite]
    exact (varint_appends _).bind hbytes
  · simp only [List.length_append]
    omega

/-- A boxed slice of bytes is all of its input. -/
theorem read_byte_loop_ok_iff {fuel : Nat} {s rest bytes res : Bytes} (hfuel : s.length < fuel) :
    (Proc.loop (readElementOrEof (α := UInt8)) fuel res).run s = (.ok bytes, rest) ↔
      res ++ s = bytes ∧ [] = rest := by
  induction fuel generalizing s res with
  | zero => omega
  | succ fuel ih =>
      cases s with
      | nil => simp [read_loop_of_eof fuel res read_u8_nil]
      | cons b s =>
          rw [read_loop_of_ok fuel res (read_u8_cons b s)]
          exact (ih (by simpa using hfuel)).trans (by rw [List.append_assoc]; rfl)

/-- Bytes are written as they are. -/
theorem bytes_append (bytes : Bytes) (written : Nat) :
    Appends (writeElements bytes written) bytes := by
  induction bytes generalizing written with
  | nil => exact .pure written
  | cons b bs ih =>
      have hbyte : Appends (writeTo b) [b] := fun buf => by
        have hrun := write_primitive_run b buf
        have hb : BigEndian.bytes (Primitive.size UInt8) (Primitive.toNat b) = [b] :=
          congrArg ([·]) UInt8.ofNat_toNat
        rw [hb] at hrun
        exact ⟨_, hrun⟩
      exact hbyte.bind fun n => ih (written + n)

/-- Boxed slices of bytes re-encode as they were read. -/
theorem byte_slice_reencodes : Reencodes (BoxSlice UInt8) := by
  rintro ⟨elems⟩ s rest hread
  obtain ⟨bytes, hloop, heq⟩ := Proc.map_ok_iff.mp hread
  obtain rfl : bytes = elems := congrArg BoxSlice.elems heq
  obtain ⟨rfl, rfl⟩ := (read_byte_loop_ok_iff (Nat.lt_succ_self s.length)).mp hloop
  exact ⟨s, s, (List.append_nil s).symm, bytes_append s 0, Nat.le_refl _⟩

/-! ## Derived codecs -/

/-- Every field re-encodes. -/
def FieldsReencode (fs : List Field) : Prop :=
  ∀ f ∈ fs, Shortens f.toBytes.writeTo f.fromBytes.readFrom

theorem FieldsReencode.nil : FieldsReencode [] := fun _ h => absurd h List.not_mem_nil

theorem FieldsReencode.cons {f : Field} {fs : List Field}
    (hf : Shortens f.toBytes.writeTo f.fromBytes.readFrom) (hfs : FieldsReencode fs) :
    FieldsReencode (f :: fs) :=
  List.forall_mem_cons.mpr ⟨hf, hfs⟩

/-- Fields in sequence re-encode one by one. -/
theorem fields_reencode {fs : List Field} (h : FieldsReencode fs) {s rest : Bytes}
    {x : FieldVals fs} (hread : (readFields fs).run s = (.ok x, rest)) :
    ∃ used bytes, s = used ++ rest ∧ (∀ written, Appends (writeFields fs x written) bytes) ∧
      bytes.length ≤ used.length := by
  induction fs generalizing s with
  | nil =>
      obtain ⟨-, rfl⟩ := Prod.mk.inj hread
      exact ⟨[], [], rfl, fun written => .pure written, Nat.le_refl 0⟩
  | cons f fs ih =>
      obtain ⟨hf, hfs⟩ := List.forall_mem_cons.mp h
      obtain ⟨middle, hhead, htail⟩ := read_fields_cons_ok_iff.mp hread
      obtain ⟨first, bytes, rfl, hbytes, hle⟩ := hf x.1 s middle hhead
      obtain ⟨second, more, rfl, hmore, hle'⟩ := ih hfs htail
      refine ⟨first ++ second, bytes ++ more, (List.append_assoc ..).symm,
        fun written => hbytes.bind fun k => hmore _, ?_⟩
      simp only [List.length_append]
      omega

/-- The arm of a number is the first with this number, and its variant is written with the
number that was read. -/
theorem variant_reencodes {vs : List Variant} {arms : Arms vs} {tag : Int32} {x : EnumVal vs}
    (h : FieldsReencode (EnumVal.fields vs x)) {s rest : Bytes}
    (hread : (readVariant vs arms tag).run s = (.ok x, rest)) :
    ∃ used bytes, s = used ++ rest ∧
      Appends (writeVariant VarInt vs arms x) (VarInt.bytes ⟨tag⟩ ++ bytes) ∧
      bytes.length ≤ used.length := by
  induction vs with
  | nil => exact x.elim
  | cons v vs ih =>
      obtain ⟨tag', arms⟩ := arms
      cases x with
      | inl x =>
          obtain ⟨rfl, hfields⟩ := read_variant_inl_iff.mp hread
          obtain ⟨used, bytes, hs, hbytes, hle⟩ := fields_reencode h hfields
          exact ⟨used, bytes, hs, (varint_appends ⟨tag⟩).bind hbytes, hle⟩
      | inr x =>
          rw [readVariant] at hread
          split at hread
          · obtain ⟨y, -, hinl⟩ := Proc.map_ok_iff.mp hread
            cases hinl
          · obtain ⟨y, hrest, hinr⟩ := Proc.map_ok_iff.mp hread
            obtain rfl := Sum.inr.inj hinr
            exact ih h hrest

/-- A derived codec re-encodes the values whose fields do. -/
theorem derive_reencodes_at {d : Data} {arms : d.Arms} {x : d.Val}
    (h : FieldsReencode (Data.Val.fields d x)) :
    ShortensAt (deriveToBytes VarInt d arms x) (deriveFromBytes VarInt d arms) x := by
  intro s rest hread
  cases d with
  | struct fields =>
      obtain ⟨used, bytes, hs, hbytes, hle⟩ := fields_reencode h hread
      exact ⟨used, bytes, hs, hbytes 0, hle⟩
  | union => exact x.elim
  | enum variants =>
      obtain ⟨tag, middle, hstart, hvariant⟩ := read_enum_ok_iff.mp hread
      obtain ⟨first, rfl, hle⟩ := bytes_le_of_starts hstart
      obtain ⟨second, bytes, rfl, hbytes, hle'⟩ := variant_reencodes h hvariant
      refine ⟨first ++ second, _, (List.append_assoc ..).symm, hbytes, ?_⟩
      simp only [List.length_append]
      omega

/-- A type with derived codecs re-encodes the values whose fields do. -/
theorem derived_reencodes_at [Derive α]
    (hwrite : (Derive.data α).expandToBytes = some Derive.arms)
    (hread : (Derive.data α).expandFromBytes = some Derive.arms) {a : α}
    (h : FieldsReencode (Data.Val.fields (Derive.data α) (Derive.toVal a))) :
    ShortensAt ((derivedToBytes VarInt hwrite).writeTo a)
      (derivedFromBytes VarInt hread).readFrom a :=
  fun s rest hrun => derive_reencodes_at h s rest ((derived_ok_iff hread).mp hrun)

/-! ## Packets -/

/-- Bound strings re-encode, also those that are longer than their bound. -/
theorem bstring_reencodes {max : Nat} : Reencodes (BString max) :=
  fun _ => derived_reencodes_at rfl rfl (.cons string_reencodes .nil)

/-- The next state re-encodes. -/
theorem next_state_reencodes : Reencodes NextState := by
  intro state
  refine derived_reencodes_at rfl rfl ?_
  cases state <;> exact .nil

/-- Handshakes re-encode. -/
theorem handshake_reencodes : Reencodes Handshake :=
  fun _ => derived_reencodes_at rfl rfl (.cons varint_reencodes (.cons bstring_reencodes
    (.cons primitive_reencodes (.cons next_state_reencodes .nil))))

/-- Pings re-encode. -/
theorem ping_request_reencodes : Reencodes PingRequest :=
  fun _ => derived_reencodes_at rfl rfl (.cons primitive_reencodes .nil)

/-- Answers to pings re-encode. -/
theorem ping_response_reencodes : Reencodes PingResponse :=
  fun _ => derived_reencodes_at rfl rfl (.cons primitive_reencodes .nil)

/-- Login starts re-encode. -/
theorem login_start_reencodes : Reencodes LoginStart :=
  fun _ => derived_reencodes_at rfl rfl
    (.cons bstring_reencodes (.cons (option_reencodes uuid_reencodes) .nil))

/-- Vectors of bytes re-encode. -/
theorem byte_vec_reencodes : Reencodes (Vec UInt8) :=
  vec_reencodes primitive_reencodes (by decide) (by decide)

/-- Encryption responses re-encode. -/
theorem encryption_response_reencodes : Reencodes EncryptionResponse :=
  fun _ => derived_reencodes_at rfl rfl
    (.cons byte_vec_reencodes (.cons byte_vec_reencodes .nil))

/-- Plugin responses re-encode. -/
theorem plugin_response_reencodes : Reencodes PluginResponse :=
  fun _ => derived_reencodes_at rfl rfl
    (.cons varint_reencodes (.cons (option_reencodes byte_slice_reencodes) .nil))

/-- Encryption requests re-encode. -/
theorem encryption_request_reencodes : Reencodes EncryptionRequest :=
  fun _ => derived_reencodes_at rfl rfl (.cons bstring_reencodes
    (.cons byte_vec_reencodes (.cons byte_vec_reencodes .nil)))

/-- Properties re-encode. -/
theorem property_reencodes : Reencodes Property :=
  fun _ => derived_reencodes_at rfl rfl (.cons bstring_reencodes (.cons bstring_reencodes
    (.cons (option_reencodes bstring_reencodes) .nil)))

/-- Login successes re-encode. -/
theorem login_success_reencodes : Reencodes LoginSuccess :=
  fun _ => derived_reencodes_at rfl rfl (.cons uuid_reencodes (.cons bstring_reencodes
    (.cons (vec_reencodes property_reencodes (by decide) (by decide)) .nil)))

/-- Compression thresholds re-encode. -/
theorem set_compression_reencodes : Reencodes SetCompression :=
  fun _ => derived_reencodes_at rfl rfl (.cons varint_reencodes .nil)

/-- Plugin requests re-encode. -/
theorem plugin_request_reencodes : Reencodes PluginRequest :=
  fun _ => derived_reencodes_at rfl rfl (.cons varint_reencodes (.cons string_reencodes
    (.cons byte_slice_reencodes .nil)))

/-- Server-bound handshake packets re-encode. -/
theorem sb_handshake_reencodes : Reencodes SBHandshake := by
  intro p
  refine derived_reencodes_at rfl rfl ?_
  cases p with
  | handshake packet => exact .cons handshake_reencodes .nil

/-- Server-bound status packets re-encode. -/
theorem sb_status_reencodes : Reencodes SBStatus := by
  intro p
  refine derived_reencodes_at rfl rfl ?_
  cases p with
  | statusRequest => exact .nil
  | pingRequest packet => exact .cons ping_request_reencodes .nil

/-- Server-bound login packets re-encode. -/
theorem sb_login_reencodes : Reencodes SBLogin := by
  intro p
  refine derived_reencodes_at rfl rfl ?_
  cases p with
  | loginStart packet => exact .cons login_start_reencodes .nil
  | encryptionResponse packet => exact .cons encryption_response_reencodes .nil
  | pluginResponse packet => exact .cons plugin_response_reencodes .nil

variable {J : Type} [SerdeJson J]

/-- Answers to pings re-encode among the client-bound status packets. -/
theorem cb_status_reencodes (p : PingResponse) :
    ShortensAt (writeTo (CBStatus.pingResponse p : CBStatus J)) readFrom
      (CBStatus.pingResponse p : CBStatus J) :=
  derived_reencodes_at rfl rfl (.cons ping_response_reencodes .nil)

/-- Client-bound login packets re-encode unless they carry JSON. -/
theorem cb_login_reencodes (p : CBLogin J) (hjson : p.JsonFree) :
    ShortensAt (writeTo p) readFrom p := by
  refine derived_reencodes_at rfl rfl ?_
  cases p with
  | disconnect packet => exact hjson.elim
  | encryptionRequest packet => exact .cons encryption_request_reencodes .nil
  | loginSuccess packet => exact .cons login_success_reencodes .nil
  | setCompression packet => exact .cons set_compression_reencodes .nil
  | pluginRequest packet => exact .cons plugin_request_reencodes .nil

/-- Whatever is read as a packet off an input is written, in as many bytes as the writer counts
and no more than were read, and read back from these bytes alone. -/
def Normalises (P : Type) [ToBytes P] [FromBytes P] : Prop :=
  ∀ s (p : P) rest, readFrom.run s = (.ok p, rest) → ∃ used bytes, s = used ++ rest ∧
    (∀ buf, (writeTo p).run buf = (.ok bytes.length, buf ++ bytes)) ∧
    bytes.length ≤ used.length ∧ (readFrom : Reader P).run bytes = (.ok p, [])

/-- A codec of the format that re-encodes and reads back what it has written normalises. -/
theorem normalises_of {P : Type} [i : ToBytes P] [FromBytes P] {size : P → Nat}
    (hformat : Format P i size) (hreencodes : Reencodes P) {tail : P → Bytes → Prop}
    (htail : ∀ p, tail p []) (hundoes : ∀ p, UndoesAt (tail p) (writeTo p) readFrom p) :
    Normalises P := by
  intro s p rest hread
  obtain ⟨used, bytes, hs, hbytes, hle⟩ := hreencodes p s rest hread
  have hcount (buf : Bytes) : (writeTo p).run buf = (.ok bytes.length, buf ++ bytes) := by
    obtain ⟨n, hn⟩ := hbytes buf
    obtain ⟨outcome, bytes', hrun, -, hsize⟩ := hformat.counts p
    obtain ⟨rfl, hout⟩ := Prod.mk.inj ((hrun buf).symm.trans hn)
    obtain ⟨rfl, hlen⟩ := hsize n rfl
    rw [hn, ← List.append_cancel_left hout, hlen, Nat.zero_add]
  refine ⟨used, bytes, hs, hcount, hle, ?_⟩
  obtain ⟨bytes', hout, hback⟩ := hundoes p [] _ _ (hcount [])
  obtain rfl : bytes = bytes' := hout
  simpa using hback [] (htail p)

/-- What is read as one of the packets a client sends is written in no more bytes, and read back
from them. -/
theorem reencoding_normalises :
    Normalises SBHandshake ∧ Normalises SBStatus ∧ Normalises SBLogin := by
  refine ⟨?handshake, ?status, ?login⟩
  case handshake =>
    exact normalises_of sb_handshake_format sb_handshake_reencodes (fun _ => trivial)
      sb_handshake_round_trips
  case status =>
    exact normalises_of sb_status_format sb_status_reencodes (fun _ => trivial)
      sb_status_round_trips
  case login =>
    refine normalises_of sb_login_format sb_login_reencodes (fun p => ?_) sb_login_round_trips
    cases p <;> trivial

/-- Over-long numerals, a tag of 7 and bits above the 32nd are read, and written shorter. -/
example : (readFrom : Reader SBLogin).run [0x82, 0x00, 0xFF, 0xFF, 0xFF, 0xFF, 0x7F, 7, 1] =
      (.ok (.pluginResponse ⟨⟨-1⟩, some ⟨[1]⟩⟩), []) := by decide

end Bws.Protocol
