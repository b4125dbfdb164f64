import Bws.Server.Framing
import Bws.Server.Segmentation

/-!
# The first read of a modern client

A modern client begins with a frame that holds a handshake. The length of the frame may be
`0xFE 0x01`, as a legacy ping begins, but the byte behind a length of two bytes is the tag of the
handshake and not that of a 1.6 ping: once three bytes have arrived, a handshake is not taken for
a ping, `handshake_is_no_ping`.
-/

namespace Bws.Server.LegacyPing

open Bws.Base Bws.Base.Proc Bws.Protocol ConnCtx

/-- No ping has a zero byte in the third place. -/
theorem ping_type_third (x y : UInt8) (rest : Bytes) : pingType (x :: y :: 0 :: rest) = none := by
  unfold pingType
  split <;> simp_all

/-- The bytes of a length below `2 ^ 31`. -/
theorem length_prefix_bytes {n : Nat} (h : n ≤ i32Max) :
    (lengthPrefix n).bytes = Leb128.encode n := by
  unfold i32Max at h
  have hword : (Int32.ofNat n).toBitVec.toNat = n := by
    change (BitVec.ofNat 32 n).toNat = n
    rw [BitVec.toNat_ofNat]
    omega
  rw [lengthPrefix, VarInt.bytes, hword]

/-- The front of a frame whose payload begins with a zero byte and whose length takes at most
two bytes matches no ping. -/
theorem ping_type_of_frame {rest bs : Bytes} (hlen : (0 :: rest).length < 2 ^ 14)
    (h : (StreamCtx.frame (0 :: rest)).take 3 <+: bs) : pingType bs = none := by
  obtain ⟨more, rfl⟩ := h
  have hbytes := length_prefix_bytes (n := (0 :: rest).length) (by unfold i32Max; omega)
  rw [StreamCtx.frame, hbytes]
  by_cases hsmall : (0 :: rest).length < 128
  · rw [Leb128.encode_of_lt hsmall, List.singleton_append, List.take_succ_cons, List.cons_append]
    refine ping_type_other (fun hbyte => ?_) _
    have hnat : (0 :: rest).length % 256 = 254 := by
      rw [← UInt8.toNat_ofNat', hbyte]
      rfl
    omega
  · rw [Leb128.encode_of_le (Nat.le_of_not_lt hsmall), Leb128.encode_of_lt (by omega)]
    exact ping_type_third _ _ _

/-- A handshake is written as its tag, which is a zero byte, and its fields. -/
theorem write_handshake_run {packet : Handshake} (h : packet.Fits) :
    ∃ fields : Bytes, (writeTo (SBHandshake.handshake packet)).run ([] : Bytes) =
        (.ok (0 :: fields).length, 0 :: fields) ∧ fields.length = packet.size := by
  obtain ⟨n, out, hwrite⟩ := (sb_handshake_succeeds (.handshake packet) []).mpr h
  obtain ⟨bytes, hbytes, -, -, rfl⟩ := StreamCtx.encodes_of_ok
    (sb_handshake_format.counts (SBHandshake.handshake packet)) hwrite
  -- the writer writes the tag and then the fields
  have hparts : (writeTo (SBHandshake.handshake packet) : Proc Bytes Nat) = (do
      let k ← writeTo (⟨0⟩ : VarInt)
      let m ← writeTo packet
      pure (k + m)) := rfl
  rw [hparts] at hwrite
  obtain ⟨k, tagged, htag, hrest⟩ := bind_ok_iff.mp hwrite
  obtain ⟨m, out, hfields, hend⟩ := bind_ok_iff.mp hrest
  obtain ⟨-, rfl⟩ := Prod.mk.inj hend
  obtain ⟨-, rfl⟩ := Prod.mk.inj (htag.symm.trans (write_varint_run ⟨0⟩ []))
  obtain ⟨fields, -, hsize, -, hout⟩ :=
    StreamCtx.encodes_of_ok (handshake_format.counts packet) hfields
  have hzero : VarInt.bytes ⟨0⟩ = [0] := Leb128.encode_of_lt (by decide)
  rw [List.nil_append, hzero] at hout
  refine ⟨fields, ?_, hsize⟩
  have happends := hbytes.appends []
  rwa [hout] at happends

/-- A handshake whose address is within its bound is short. -/
theorem handshake_size_le {packet : Handshake} (h : packet.serverAddress.Bounded) :
    packet.size ≤ 268 := by
  have hversion : packet.protocolVersion.size ≤ 5 := VarInt.length_bytes_le _
  have hlength : lengthSize packet.serverAddress.inner.utf8ByteSize ≤ 5 :=
    VarInt.length_bytes_le _
  unfold BString.Bounded at h
  rw [Handshake.size, BString.size, stringSize]
  omega

/-- Whatever a handshake says, once three bytes of its frame have arrived with the first read,
`handle` sees no legacy ping, sends nothing and leaves all bytes of the stream unread. -/
theorem handshake_is_no_ping (packet : Handshake) (haddress : packet.serverAddress.Bounded) :
    ∃ payload : Bytes, (writeTo (SBHandshake.handshake packet)).run ([] : Bytes) =
        (.ok payload.length, payload) ∧
      ∀ (handlers : List Handler) (id : Nat) (ending : Ending) (read : Read) (reads : List Read),
        (StreamCtx.frame payload).take 3 <+: read.val →
        ∃ ctx', (handle handlers).run (.new id (read :: reads) ending) = (.ok false, ctx') ∧
          ctx'.outgoing = [] ∧ ctx'.stream.pending = BufReader.bytes (read :: reads) := by
  have hfits : packet.Fits := by
    unfold BString.Bounded at haddress
    unfold Handshake.Fits StringFits i32Max
    omega
  obtain ⟨fields, hwrite, hsize⟩ := write_handshake_run hfits
  have hle := handshake_size_le haddress
  refine ⟨0 :: fields, hwrite, fun handlers id ending read reads hfirst => ?_⟩
  have hlen : (0 :: fields).length < 2 ^ 14 := by
    rw [List.length_cons]
    omega
  have hdetect : detect.run (.new id (read :: reads) ending) =
      (.ok none, started id read reads ending) := by
    rw [detect_cons, ping_type_of_frame hlen hfirst]
    rfl
  refine ⟨started id read reads ending, ?_, rfl, rfl⟩
  rw [handle, bind_of_ok hdetect]
  rfl

/-- The handshake of a client that looks for a server on its own machine. -/
def localHandshake : Handshake := ⟨⟨763⟩, ⟨"localhost"⟩, 25565, .status⟩

/-- The first three bytes of its frame, on their own, are not taken for a ping. -/
theorem local_handshake_is_no_ping :
    ∃ ctx', (handle []).run (.new 0 [⟨[0x10, 0x00, 0xFB], by decide⟩] .silent) =
        (.ok false, ctx') ∧
      ctx'.outgoing = [] ∧ ctx'.stream.pending = [0x10, 0x00, 0xFB] := by
  obtain ⟨payload, hwrite, hread⟩ := handshake_is_no_ping localHandshake (by decide)
  have hrun : (writeTo (SBHandshake.handshake localHandshake)).run ([] : Bytes) =
      (.ok 16, [0, 0xFB, 5, 9, 108, 111, 99, 97, 108, 104, 111, 115, 116, 0x63, 0xDD, 1]) := by
    decide
  obtain ⟨-, rfl⟩ := Prod.mk.inj (hwrite.symm.trans hrun)
  refine hread [] 0 .silent _ [] ?_
  rw [StreamCtx.frame, length_prefix_bytes (by decide), Leb128.encode_of_lt (by decide)]
  exact List.prefix_rfl

end Bws.Server.LegacyPing
