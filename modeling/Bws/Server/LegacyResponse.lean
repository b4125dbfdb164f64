import Bws.Base.Separated
import Bws.Server.LegacyPing

/-!
# The packets of the responses

What `write_response` sends, as the 16-bit units behind the length: `write_response_run`. The
length of a response to a client from 1.4 on counts its units, and `response_readable` says
when the client gets the texts back. The length for older clients and the check of the limit
count characters instead, so they are right only in so far as the texts have no characters of
two units: `pre1_4_framed_iff` and `within_limit_iff`.
-/

namespace Bws.Server.LegacyPing

open Bws.Base Bws.Base.Proc ConnCtx

/-! ## What is sent -/

/-- A separator behind each piece is one between the pieces and one at the end. -/
theorem separated_eq {pieces : List (List UInt16)} (h : pieces ≠ []) :
    (pieces.flatMap fun us => unitBytes us ++ [0x00, 0x00]) =
      unitBytes ([0].intercalate pieces) ++ [0x00, 0x00] := by
  match pieces with
  | [] => exact absurd rfl h
  | [us] => simp
  | us :: vs :: rest =>
      have hzero : unitBytes [0] = [0x00, 0x00] := rfl
      rw [List.flatMap_cons, separated_eq (List.cons_ne_nil vs rest),
        List.intercalate_cons_cons, unit_bytes_append, unit_bytes_append, hzero]
      simp only [List.append_assoc]

/-- The texts of a response, in the order they are sent. -/
def LegacyPingResponse.texts (response : LegacyPingResponse) : PingType → List String
  | .pre1_4 => [response.motd, response.online, response.maxPlayers]
  | .pre1_6 | .pre1_7 => [response.protocol, response.version, response.motd, response.online,
      response.maxPlayers]

/-- The text in front of the others, for clients from 1.4 on. -/
def marker : String := "§1"

/-- The units of a response: the texts with a sign between them for old clients, or the marker
and the texts with a zero unit between them. -/
def LegacyPingResponse.units (response : LegacyPingResponse) : PingType → List UInt16
  | .pre1_4 =>
      encodeUtf16 (response.motd ++ "§" ++ response.online ++ "§" ++ response.maxPlayers)
  | .pre1_6 => [0].intercalate ((marker :: response.texts .pre1_6).map encodeUtf16)
  | .pre1_7 => [0].intercalate ((marker :: response.texts .pre1_7).map encodeUtf16)

/-- The length in front of the units. -/
def LegacyPingResponse.lengthField (response : LegacyPingResponse) : PingType → Nat
  | .pre1_4 => (response.motd ++ "§" ++ response.online ++ "§" ++ response.maxPlayers).length
  | .pre1_6 => (response.units .pre1_6).length
  | .pre1_7 => (response.units .pre1_7).length

/-- A packet of some units with a length in front. -/
def packetOf (length : Nat) (us : List UInt16) : Bytes :=
  [0xFF] ++ BigEndian.bytes 2 length ++ unitBytes us

/-- The length check passes. -/
def LegacyPingResponse.Accepted (response : LegacyPingResponse) : Prop :=
  response.motd.length + response.online.length + response.maxPlayers.length +
    response.protocol.length + response.version.length + 4 + 3 ≤ 256

/-- The connection after a packet is put together in its buffer and sent. -/
def answered (ctx : ConnCtx) (packet : Bytes) : ConnCtx :=
  { ctx with outgoing := ctx.outgoing ++ packet, buf := packet }

/-- The packet from 1.4 on, before its length is filled in and its last separator removed. -/
theorem pre1_7_packet_eq (response : LegacyPingResponse) :
    pre1_7Packet response =
      ([0xFF, 0x00, 0x00] ++ unitBytes (response.units .pre1_7)) ++ [0x00, 0x00] := by
  have hmarker : ([0x00, 0xA7, 0x00, 0x31, 0x00, 0x00] : Bytes) =
      unitBytes (encodeUtf16 marker) ++ [0x00, 0x00] := by decide
  have hpieces : (marker :: response.texts .pre1_7).map encodeUtf16 ≠ [] := by
    simp
  rw [LegacyPingResponse.units, List.append_assoc, ← separated_eq hpieces, List.flatMap_map,
    List.flatMap_cons, ← hmarker, pre1_7Packet, List.append_assoc]
  rfl

/-- Writing a response to a client from 1.4 on. -/
theorem write_pre1_7_run (response : LegacyPingResponse) (ctx : ConnCtx) :
    (writePre1_7 response).run ctx = (.ok (), answered ctx
      (packetOf (response.units .pre1_7).length (response.units .pre1_7))) := by
  have htake : (pre1_7Packet response).take ((pre1_7Packet response).length - 2) =
      [0xFF, 0x00, 0x00] ++ unitBytes (response.units .pre1_7) := by
    rw [pre1_7_packet_eq]
    exact List.take_left' (by simp)
  have hchars : (([0xFF, 0x00, 0x00] ++ unitBytes (response.units .pre1_7)).length - 3) / 2 =
      (response.units .pre1_7).length := by
    rw [List.length_append, length_unit_bytes, List.length_cons, List.length_cons,
      List.length_singleton]
    omega
  rw [writePre1_7, htake, hchars]
  rfl

/-- Writing a response to an old client into an empty buffer. -/
theorem write_pre1_4_run (response : LegacyPingResponse) {ctx : ConnCtx} (h : ctx.buf = []) :
    (writePre1_4 response).run ctx = (.ok (), answered ctx
      (packetOf (response.lengthField .pre1_4) (response.units .pre1_4))) := by
  obtain ⟨id, stream, outgoing, buf⟩ := ctx
  obtain rfl : buf = [] := h
  rfl

/-- A response that passes the check is sent. -/
theorem write_response_run {response : LegacyPingResponse} {pingType : PingType} {ctx : ConnCtx}
    (hbuf : pingType = .pre1_4 → ctx.buf = []) (h : response.Accepted) :
    (writeResponse pingType response).run ctx = (.ok (), answered ctx
      (packetOf (response.lengthField pingType) (response.units pingType))) := by
  unfold writeResponse
  rw [if_neg (Nat.not_lt_of_le h)]
  cases pingType with
  | pre1_4 => exact write_pre1_4_run response (hbuf rfl)
  | pre1_6 | pre1_7 => exact write_pre1_7_run response ctx

/-- Only a response that passes the check is sent. -/
theorem accepted_of_ok {response : LegacyPingResponse} {pingType : PingType} {ctx ctx' : ConnCtx}
    (h : (writeResponse pingType response).run ctx = (.ok (), ctx')) : response.Accepted := by
  unfold writeResponse at h
  split at h
  · cases h
  · next hle => exact Nat.le_of_not_lt hle

/-- What has been sent once a response is. -/
theorem outgoing_of_ok {response : LegacyPingResponse} {pingType : PingType} {ctx ctx' : ConnCtx}
    (hbuf : pingType = .pre1_4 → ctx.buf = [])
    (h : (writeResponse pingType response).run ctx = (.ok (), ctx')) :
    ctx'.outgoing = ctx.outgoing ++
      packetOf (response.lengthField pingType) (response.units pingType) := by
  have hrun := write_response_run hbuf (accepted_of_ok h)
  obtain ⟨-, rfl⟩ := Prod.mk.inj (h.symm.trans hrun)
  rfl

/-- The buffer of a new connection is still empty when a ping of an old client is answered. -/
theorem empty_buf_of_detect {id : Nat} {reads : List Read} {ending : Ending}
    {payload : LegacyPingPayload} {ctx : ConnCtx}
    (h : detect.run (.new id reads ending) = (.ok (some (.pre1_4, payload)), ctx)) :
    ctx.buf = [] := by
  obtain ⟨first, started, hfill, hrest⟩ := bind_ok_iff.mp h
  obtain ⟨r, -, rfl⟩ := (zoom_ok_iff socket).mp hfill
  cases htype : pingType first with
  | none =>
      rw [htype] at hrest
      cases (Prod.mk.inj hrest).1
  | some t =>
      rw [htype] at hrest
      obtain ⟨payload', _, hread, hend⟩ := bind_ok_iff.mp hrest
      obtain ⟨heq, rfl⟩ := Prod.mk.inj hend
      cases heq
      -- nothing is read of an old ping behind its first byte
      obtain ⟨-, rfl⟩ := Prod.mk.inj hread
      rfl

/-! ## The length of an old response -/

/-- The bytes are a packet whose length is that of the units in it. -/
def Framed (bytes : Bytes) : Prop :=
  ∃ us : List UInt16, us.length < 2 ^ 16 ∧ bytes = packetOf us.length us

/-- Packets of the same bytes have the same length in front and the same number of units. -/
theorem packet_of_inj {n m : Nat} {us vs : List UInt16} (hn : n < 2 ^ 16) (hm : m < 2 ^ 16)
    (h : packetOf n us = packetOf m vs) : n = m ∧ us.length = vs.length := by
  have hlen : ([0xFF] ++ BigEndian.bytes 2 n).length = ([0xFF] ++ BigEndian.bytes 2 m).length := by
    rw [List.length_append, List.length_append, BigEndian.length_bytes, BigEndian.length_bytes]
  obtain ⟨hfront, hunits⟩ := List.append_inj h hlen
  constructor
  · have hvalue := congrArg BigEndian.value (List.append_cancel_left hfront)
    rwa [BigEndian.value_bytes hn, BigEndian.value_bytes hm] at hvalue
  · have hbytes := congrArg List.length hunits
    rw [length_unit_bytes, length_unit_bytes] at hbytes
    omega

/-- A packet is framed exactly when the length in front is that of its units. -/
theorem packet_of_framed_iff {n : Nat} (hn : n < 2 ^ 16) (us : List UInt16) :
    Framed (packetOf n us) ↔ n = us.length := by
  constructor
  · rintro ⟨vs, hvs, heq⟩
    obtain ⟨hlength, hunits⟩ := packet_of_inj hn hvs heq
    rw [hlength, hunits]
  · rintro rfl
    exact ⟨us, hn, rfl⟩

/-- The width of some texts: their characters, with those beyond the basic plane counted
twice. -/
def textsWidth : List String → Nat
  | [] => 0
  | s :: rest => s.length + astral s + textsWidth rest

/-- The width of the texts that are sent. -/
def LegacyPingResponse.width (response : LegacyPingResponse) (pingType : PingType) : Nat :=
  textsWidth (response.texts pingType)

/-- The length in front of an old response counts its characters. -/
theorem length_field_pre1_4 (response : LegacyPingResponse) :
    response.lengthField .pre1_4 =
      response.motd.length + response.online.length + response.maxPlayers.length + 2 := by
  have hsign : "§".length = 1 := rfl
  simp only [LegacyPingResponse.lengthField, String.length_append, hsign]
  omega

/-- An old response has two units besides those of its texts. -/
theorem length_units_pre1_4 (response : LegacyPingResponse) :
    (response.units .pre1_4).length = response.width .pre1_4 + 2 := by
  have hsign : (encodeUtf16 "§").length = 1 := by decide
  simp only [LegacyPingResponse.units, LegacyPingResponse.width, LegacyPingResponse.texts,
    textsWidth, encode_utf16_append, List.length_append, length_encode_utf16 response.motd,
    length_encode_utf16 response.online, length_encode_utf16 response.maxPlayers, hsign]
  omega

/-- The length in front of an old response is that of its units exactly when the motd and the
two numbers have no characters beyond the basic plane. -/
theorem pre1_4_framed_iff {response : LegacyPingResponse} {ctx ctx' : ConnCtx}
    (hbuf : ctx.buf = [])
    (h : (writeResponse .pre1_4 response).run ctx = (.ok (), ctx')) :
    (∃ packet, ctx'.outgoing = ctx.outgoing ++ packet ∧ Framed packet) ↔
      ∀ s ∈ [response.motd, response.online, response.maxPlayers],
        ∀ c ∈ s.toList, c.toNat < 0x10000 := by
  have haccepted := accepted_of_ok h
  have hsent := outgoing_of_ok (fun _ => hbuf) h
  unfold LegacyPingResponse.Accepted at haccepted
  have hfield := length_field_pre1_4 response
  have hlt : response.lengthField .pre1_4 < 2 ^ 16 := by omega
  have hframed := packet_of_framed_iff hlt (response.units .pre1_4)
  have hunits := length_units_pre1_4 response
  simp only [LegacyPingResponse.width, LegacyPingResponse.texts, textsWidth] at hunits
  simp only [List.forall_mem_cons, ← astral_eq_zero_iff]
  constructor
  · rintro ⟨packet, hout, hpacket⟩
    obtain rfl := List.append_cancel_left (hout.symm.trans hsent)
    have hlength := hframed.mp hpacket
    refine ⟨by omega, by omega, by omega, fun _ hs => nomatch hs⟩
  · rintro ⟨hmotd, honline, hmax, -⟩
    exact ⟨_, hsent, hframed.mpr (by omega)⟩

/-- A response with text of the basic plane. -/
def plainResponse : LegacyPingResponse := ⟨"Hallå", "1", "20", "47", "1.4.2"⟩

/-- The length in front of a plain response is right. -/
theorem pre1_4_framed_plain :
    ∃ packet, ((writeResponse .pre1_4 plainResponse).run (.new 0 [] .closed)).2.outgoing =
      [] ++ packet ∧ Framed packet := by
  have hrun : ((writeResponse .pre1_4 plainResponse).run (.new 0 [] .closed)).1 = .ok () := rfl
  refine (pre1_4_framed_iff rfl (Prod.ext hrun rfl)).mpr ?_
  simp only [← astral_eq_zero_iff]
  decide

/-- A response whose motd is a character beyond the basic plane. -/
def facesResponse : LegacyPingResponse := ⟨"😀", "1", "2", "", ""⟩

/-- The packet says that it has five units, and has six. -/
theorem faces_not_framed :
    ∃ ctx', (writeResponse .pre1_4 facesResponse).run (.new 0 [] .closed) = (.ok (), ctx') ∧
      ctx'.outgoing = [0xFF, 0, 5, 0xD8, 0x3D, 0xDE, 0, 0, 0xA7, 0, 0x31, 0, 0xA7, 0, 0x32] ∧
      ¬ Framed ctx'.outgoing := by
  refine ⟨_, rfl, by decide, ?_⟩
  have hlt : facesResponse.lengthField .pre1_4 < 2 ^ 16 := by decide
  have hne : facesResponse.lengthField .pre1_4 ≠ (facesResponse.units .pre1_4).length := by decide
  exact fun h => hne ((packet_of_framed_iff hlt _).mp h)

/-! ## The limit -/

/-- The bytes are a packet of at most `n` units behind the length. -/
def AtMost (n : Nat) (bytes : Bytes) : Prop :=
  ∃ (field : Bytes) (us : List UInt16), field.length = 2 ∧
    bytes = [0xFF] ++ field ++ unitBytes us ∧ us.length ≤ n

/-- How many units a packet has. -/
theorem packet_of_at_most_iff {n length : Nat} {us : List UInt16} :
    AtMost n (packetOf length us) ↔ us.length ≤ n := by
  constructor
  · rintro ⟨field, vs, hfield, heq, hle⟩
    have hbytes := congrArg List.length heq
    simp only [packetOf, List.length_append, length_unit_bytes, BigEndian.length_bytes,
      hfield] at hbytes
    omega
  · exact fun hle => ⟨_, us, BigEndian.length_bytes 2 length, rfl, hle⟩

/-- How many units a packet has room for besides those that every packet has: two signs, or a
marker of two units and five separators. -/
def room : PingType → Nat
  | .pre1_4 => 256 - 2
  | .pre1_6 | .pre1_7 => 256 - 7

/-- A response from 1.4 on has seven units besides those of its texts. -/
theorem length_units_pre1_7 (response : LegacyPingResponse) :
    (response.units .pre1_7).length = response.width .pre1_7 + 7 := by
  have hmarker : (encodeUtf16 marker).length = 2 := by decide
  simp only [LegacyPingResponse.units, LegacyPingResponse.texts, LegacyPingResponse.width,
    textsWidth, List.map_cons, List.map_nil, List.intercalate_cons_cons,
    List.intercalate_singleton, List.length_append, List.length_singleton, hmarker,
    length_encode_utf16]
  omega

/-- A response has at most 256 units exactly when there is room for its texts. -/
theorem length_units_le_iff (response : LegacyPingResponse) (pingType : PingType) :
    (response.units pingType).length ≤ 256 ↔ response.width pingType ≤ room pingType := by
  cases pingType with
  | pre1_4 =>
      rw [length_units_pre1_4]
      exact (Nat.le_sub_iff_add_le (by decide)).symm
  | pre1_6 | pre1_7 =>
      change (response.units .pre1_7).length ≤ 256 ↔ response.width .pre1_7 ≤ 256 - 7
      rw [length_units_pre1_7]
      exact (Nat.le_sub_iff_add_le (by decide)).symm

/-- A response that is not rejected is a packet of at most 256 units exactly when there is room
for its texts: when the characters that are sent, with those beyond the basic plane counted
twice, are at most 254 for an old client and 249 for one from 1.4 on. -/
theorem within_limit_iff {response : LegacyPingResponse} {pingType : PingType}
    {ctx ctx' : ConnCtx} (hbuf : pingType = .pre1_4 → ctx.buf = [])
    (h : (writeResponse pingType response).run ctx = (.ok (), ctx')) :
    (∃ packet, ctx'.outgoing = ctx.outgoing ++ packet ∧ AtMost 256 packet) ↔
      response.width pingType ≤ room pingType := by
  have hsent := outgoing_of_ok hbuf h
  rw [← length_units_le_iff]
  constructor
  · rintro ⟨packet, hout, hpacket⟩
    obtain rfl := List.append_cancel_left (hout.symm.trans hsent)
    exact packet_of_at_most_iff.mp hpacket
  · exact fun hle => ⟨_, hsent, packet_of_at_most_iff.mpr hle⟩

/-- A plain response is within the limit. -/
theorem within_limit_plain :
    ∃ packet, ((writeResponse .pre1_6 plainResponse).run (.new 0 [] .closed)).2.outgoing =
      [] ++ packet ∧ AtMost 256 packet := by
  have hrun : ((writeResponse .pre1_6 plainResponse).run (.new 0 [] .closed)).1 = .ok () := rfl
  have hbuf : PingType.pre1_6 = .pre1_4 → (ConnCtx.new 0 [] .closed).buf = [] := fun _ => rfl
  exact (within_limit_iff hbuf (Prod.ext hrun rfl)).mpr (by decide)

/-- A motd of `n` characters beyond the basic plane, and no other text. -/
def facesOnly (n : Nat) : LegacyPingResponse :=
  ⟨String.ofList (List.replicate n (Char.ofNat 0x1F600)), "", "", "", ""⟩

/-- The check lets more than half of its limit pass of characters that count twice. -/
theorem faces_beyond_limit {n : Nat} (hpass : n ≤ 249) (hbeyond : 124 < n) (ctx : ConnCtx) :
    ∃ ctx' packet, (writeResponse .pre1_6 (facesOnly n)).run ctx = (.ok (), ctx') ∧
      ctx'.outgoing = ctx.outgoing ++ packet ∧ ¬ AtMost 256 packet := by
  have hlength : (facesOnly n).motd.length = n := by
    rw [facesOnly, String.length_ofList, List.length_replicate]
  have hastral : astral (facesOnly n).motd = n := by
    have hchar : (0x10000 ≤ (Char.ofNat 0x1F600).toNat) = true := by decide
    simp only [facesOnly, astral, String.toList_ofList, List.countP_replicate, hchar,
      decide_true, if_true]
  have haccepted : (facesOnly n).Accepted := by
    unfold LegacyPingResponse.Accepted
    rw [hlength]
    exact Nat.add_le_add_right hpass 7
  have hbuf : PingType.pre1_6 = .pre1_4 → ctx.buf = [] := fun h => absurd h (by decide)
  refine ⟨_, _, write_response_run hbuf haccepted, rfl, fun h => ?_⟩
  have hwidth := (length_units_le_iff _ .pre1_6).mp (packet_of_at_most_iff.mp h)
  have htexts : (facesOnly n).texts .pre1_6 = ["", "", (facesOnly n).motd, "", ""] := rfl
  simp only [LegacyPingResponse.width, htexts, textsWidth, room, hlength, hastral] at hwidth
  omega

/-- The check lets a packet of 257 units pass. -/
theorem crowd_beyond_limit :
    ∃ ctx' packet, (writeResponse .pre1_6 (facesOnly 125)).run (.new 0 [] .closed) =
        (.ok (), ctx') ∧
      ctx'.outgoing = [] ++ packet ∧ ¬ AtMost 256 packet :=
  faces_beyond_limit (by decide) (by decide) _

/-! ## Reading a response back -/

/-- The texts are decoded from the pieces exactly when none of them has a zero character. -/
theorem texts_decoded_iff (texts : List String) :
    (([0].intercalate ((marker :: texts).map encodeUtf16)).splitOn 0).map fromUtf16Lossy =
      marker :: texts ↔ ∀ s ∈ texts, Char.ofNat 0 ∉ s.toList := by
  have hmarker : Char.ofNat 0 ∉ marker.toList := by decide
  rw [map_split_intercalate_iff from_utf16_encode (List.cons_ne_nil marker texts)]
  simp only [zero_mem_encode_utf16, List.forall_mem_cons, hmarker, not_false_eq_true, true_and]

/-- A response to a client from 1.4 on is a packet with the number of its units in front; split
at the zero units and decoded, these are the marker and the texts exactly when no text has a
zero character. -/
theorem response_readable {response : LegacyPingResponse} {pingType : PingType}
    {ctx ctx' : ConnCtx} (htype : pingType ≠ .pre1_4)
    (h : (writeResponse pingType response).run ctx = (.ok (), ctx')) :
    ∃ us : List UInt16, us.length < 2 ^ 16 ∧
      ctx'.outgoing =
        ctx.outgoing ++ ([0xFF] ++ BigEndian.bytes 2 us.length ++ unitBytes us) ∧
      ((us.splitOn 0).map fromUtf16Lossy = ["§1", response.protocol, response.version,
          response.motd, response.online, response.maxPlayers] ↔
        ∀ s ∈ [response.protocol, response.version, response.motd, response.online,
          response.maxPlayers], Char.ofNat 0 ∉ s.toList) := by
  have haccepted := accepted_of_ok h
  have hsent := outgoing_of_ok (fun hold => absurd hold htype) h
  have hlt : (response.units .pre1_7).length < 2 ^ 16 := by
    unfold LegacyPingResponse.Accepted at haccepted
    have hprotocol := astral_le_length response.protocol
    have hversion := astral_le_length response.version
    have hmotd := astral_le_length response.motd
    have honline := astral_le_length response.online
    have hmax := astral_le_length response.maxPlayers
    simp only [length_units_pre1_7, LegacyPingResponse.width, LegacyPingResponse.texts,
      textsWidth]
    omega
  refine ⟨response.units .pre1_7, hlt, ?_, texts_decoded_iff _⟩
  cases pingType with
  | pre1_4 => exact absurd rfl htype
  | pre1_6 | pre1_7 => exact hsent

/-- The texts of a plain response are read back. -/
theorem response_readable_plain :
    ∃ us : List UInt16, us.length < 2 ^ 16 ∧
      ((writeResponse .pre1_6 plainResponse).run (.new 0 [] .closed)).2.outgoing =
        [] ++ ([0xFF] ++ BigEndian.bytes 2 us.length ++ unitBytes us) ∧
      (us.splitOn 0).map fromUtf16Lossy = ["§1", "47", "1.4.2", "Hallå", "1", "20"] := by
  have hrun : ((writeResponse .pre1_6 plainResponse).run (.new 0 [] .closed)).1 = .ok () := rfl
  obtain ⟨us, hlt, hout, hiff⟩ := response_readable (by decide) (Prod.ext hrun rfl)
  exact ⟨us, hlt, hout, hiff.mpr (by decide)⟩

/-! ## Reading an old response back -/

/-- The characters of an old response: its three texts with a sign between them. -/
theorem to_list_pre1_4 (response : LegacyPingResponse) :
    (fromUtf16Lossy (response.units .pre1_4)).toList =
      ['§'].intercalate ((response.texts .pre1_4).map String.toList) := by
  have hsign : "§".toList = ['§'] := rfl
  rw [LegacyPingResponse.units, from_utf16_encode]
  simp only [LegacyPingResponse.texts, String.toList_append, hsign, List.map_cons, List.map_nil,
    List.intercalate_cons_cons, List.intercalate_singleton, List.append_assoc]

/-- A response to a client before 1.4 is a header of three bytes and some units; decoded and
split at the signs, these are the motd and the two numbers exactly when none of the three has a
sign in it. -/
theorem pre1_4_readable_iff {response : LegacyPingResponse} {ctx ctx' : ConnCtx}
    (hbuf : ctx.buf = [])
    (h : (writeResponse .pre1_4 response).run ctx = (.ok (), ctx')) :
    ∃ (header : Bytes) (us : List UInt16), header.length = 3 ∧
      ctx'.outgoing = ctx.outgoing ++ (header ++ unitBytes us) ∧
      (((fromUtf16Lossy us).toList.splitOn '§').map String.ofList =
          [response.motd, response.online, response.maxPlayers] ↔
        ∀ s ∈ [response.motd, response.online, response.maxPlayers], '§' ∉ s.toList) := by
  refine ⟨[0xFF] ++ BigEndian.bytes 2 (response.lengthField .pre1_4), response.units .pre1_4, ?_,
    outgoing_of_ok (fun _ => hbuf) h, ?_⟩
  · rw [List.length_append, BigEndian.length_bytes]
    rfl
  · rw [to_list_pre1_4]
    exact map_split_intercalate_iff (fun _ => String.ofList_toList) (List.cons_ne_nil _ _)

/-- The texts of a plain response are read back by an old client. -/
theorem pre1_4_readable_plain :
    ∃ (header : Bytes) (us : List UInt16), header.length = 3 ∧
      ((writeResponse .pre1_4 plainResponse).run (.new 0 [] .closed)).2.outgoing =
        [] ++ (header ++ unitBytes us) ∧
      ((fromUtf16Lossy us).toList.splitOn '§').map String.ofList = ["Hallå", "1", "20"] := by
  have hrun : ((writeResponse .pre1_4 plainResponse).run (.new 0 [] .closed)).1 = .ok () := rfl
  obtain ⟨header, us, hlen, hout, hiff⟩ := pre1_4_readable_iff rfl (Prod.ext hrun rfl)
  exact ⟨header, us, hlen, hout, hiff.mpr (by decide)⟩

end Bws.Server.LegacyPing
