import Bws.Session.LegacyPing

/-!
# Responses that can be built

The fields of a response to a legacy ping are private, so there are only those that `new` and the
setters make. `built_response` says which chains of setters make one, that the last setter of each
field decides on its text, and when a client that goes by the length in front of a packet gets the
texts back: no number has a separator or a character of two units in it.
-/

namespace Bws.Session.LegacyPingResponse

open Bws.Base Bws.Base.Future Bws.Base.Proc Bws.Protocol Bws.Session.LegacyPing

/-! ## Texts -/

/-- The fields of a response. -/
inductive Field where
  | motd
  | online
  | maxPlayers
  | protocol
  | version
  deriving DecidableEq, Repr

/-- The text of a field. -/
def text (response : LegacyPingResponse) : Field → String
  | .motd => response.motd
  | .online => response.online
  | .maxPlayers => response.maxPlayers
  | .protocol => response.protocol
  | .version => response.version

namespace Setter

/-- The field that a setter sets. -/
def field : Setter → Field
  | .motd _ => .motd
  | .online _ => .online
  | .max _ => .maxPlayers
  | .protocol _ => .protocol
  | .version _ => .version

/-- The text that it puts there. -/
def text : Setter → String
  | .motd s | .version s => s
  | .online n | .max n => toString n.toNat
  | .protocol n => toString n.toInt

/-- A setter does not panic: its number is not one that a client would take for a negative one. -/
def Fits : Setter → Prop
  | .online n | .max n => n.toNat ≤ 2147483647
  | .motd _ | .protocol _ | .version _ => True

end Setter

/-- The text of a field behind some setters that do not panic: that of its last setter, or the one
that was there before. -/
def lastText (field : Field) (setters : List Setter) (before : String) : String :=
  Setters.last Setter.field Setter.text field setters before

/-- The response has these texts. -/
def Has (response : LegacyPingResponse) (texts : Field → String) : Prop :=
  ∀ field, response.text field = texts field

/-- A panic of a failed assertion. -/
def IsExplicit (r : Panic) : Prop := ∃ message, r = .explicit message

/-- What is one assignment to a field replaces its text. -/
theorem replaces_of_set {setter : Setter} (change : LegacyPingResponse → LegacyPingResponse)
    (hset : ∀ response : LegacyPingResponse, response.set setter = .ok (change response))
    (htext : ∀ (response : LegacyPingResponse) (field : Field), (change response).text field =
      if field = setter.field then setter.text else response.text field) :
    Setters.Replaces Setter.field Setter.text Has set setter := by
  intro response texts h
  refine ⟨change response, hset response, fun field => ?_⟩
  rw [htext, Function.update_apply, h]

/-- A setter that fits replaces the text of its field. -/
theorem replaces_of_fits {setter : Setter} (h : setter.Fits) :
    Setters.Replaces Setter.field Setter.text Has set setter := by
  cases setter with
  | motd s =>
      exact replaces_of_set (fun response => { response with motd := s }) (fun _ => rfl)
        fun _ field => by cases field <;> rfl
  | online n =>
      exact replaces_of_set (fun response => { response with online := toString n.toNat })
        (fun _ => if_pos h) fun _ field => by cases field <;> rfl
  | max n =>
      exact replaces_of_set (fun response => { response with maxPlayers := toString n.toNat })
        (fun _ => if_pos h) fun _ field => by cases field <;> rfl
  | protocol n =>
      exact replaces_of_set (fun response => { response with protocol := toString n.toInt })
        (fun _ => rfl) fun _ field => by cases field <;> rfl
  | version s =>
      exact replaces_of_set (fun response => { response with version := s }) (fun _ => rfl)
        fun _ field => by cases field <;> rfl

/-- A setter that does not fit panics. -/
theorem panics_of_not_fits {setter : Setter} (h : ¬ setter.Fits) :
    Setters.Panics IsExplicit set setter := by
  intro response
  cases setter with
  | motd _ | protocol _ | version _ => exact absurd trivial h
  | online _ | max _ => exact ⟨_, ⟨_, rfl⟩, if_neg h⟩

/-! ## Numbers -/

/-- A numeral is made of digits, and of a minus in front. -/
def Numeral (s : String) : Prop := ∀ c ∈ s.toList, c.isDigit ∨ c = '-'

/-- The numeral of a natural number. -/
theorem numeral_nat (n : Nat) : Numeral (toString n) := by
  intro c hc
  rw [Nat.toString_eq_repr, Nat.toList_repr] at hc
  exact .inl (Nat.isDigit_of_mem_toDigits (by decide) (by decide) hc)

/-- The numeral of an integer. -/
theorem numeral_int (n : Int) : Numeral (toString n) := by
  rw [Int.toString_eq_repr, Int.repr_eq_if]
  split
  · exact numeral_nat _
  · intro c hc
    rw [String.toList_append, List.mem_append] at hc
    rcases hc with hc | hc
    · exact .inr (List.mem_singleton.mp hc)
    · exact numeral_nat _ c hc

/-- The fields of the numbers. -/
def Field.IsNumber : Field → Prop
  | .online | .maxPlayers | .protocol => True
  | .motd | .version => False

/-- The last text of a number is a numeral if the one before is. -/
theorem numeral_last_text {field : Field} (hfield : field.IsNumber) (setters : List Setter)
    {before : String} (h : Numeral before) : Numeral (lastText field setters before) := by
  refine Setters.last_induction _ _ (fun setter _ hsets => ?_) h
  subst hsets
  cases setter with
  | online n | max n => exact numeral_nat _
  | protocol n => exact numeral_int _
  | motd _ | version _ => exact hfield.elim

/-- The numbers of a response that has been built are numerals. -/
theorem numerals_of_last {setters : List Setter} {response : LegacyPingResponse}
    (h : ∀ field, response.text field = lastText field setters (new.text field)) {field : Field}
    (hfield : field.IsNumber) : Numeral (response.text field) := by
  rw [h]
  refine numeral_last_text hfield setters ?_
  cases field with
  | online | protocol => exact fun c hc => absurd hc List.not_mem_nil
  | maxPlayers => exact numeral_nat 0
  | motd | version => exact hfield.elim

/-- No sign that separates texts is in a numeral. -/
theorem numeral_plain {s : String} (h : Numeral s) : '§' ∉ s.toList ∧ Char.ofNat 0 ∉ s.toList := by
  constructor
  · intro hsign
    exact absurd (h _ hsign) (by decide)
  · intro hzero
    exact absurd (h _ hzero) (by decide)

/-- The characters of a numeral are in the basic plane. -/
theorem numeral_basic {s : String} (h : Numeral s) : astral s = 0 := by
  refine astral_eq_zero_iff.mpr fun c hc => ?_
  rcases h c hc with hdigit | rfl
  · have hle : c.toNat ≤ 57 := (Char.isDigit_iff_toNat.mp hdigit).2
    omega
  · decide

/-! ## What the clients get -/

/-- A client takes a packet off its stream: the first byte, a length, and as many units as the
length says. -/
def takeUnits : Reader (List UInt16) := do
  let _ ← Reader.readByte
  let length ← BigEndian.value <$> Reader.readExact 2
  Utf16.ofBytes <$> Reader.readExact (2 * length)

/-- A client before 1.4 decodes the units and splits them at the signs. -/
def textsAtSigns (us : List UInt16) : List String :=
  ((fromUtf16Lossy us).toList.splitOn '§').map String.ofList

/-- A client from 1.4 on splits the units at the zeros and decodes the pieces. -/
def textsAtZeros (us : List UInt16) : List String := (us.splitOn 0).map fromUtf16Lossy

/-- A client before 1.4 gets the motd and the two numbers back if there is no sign in the motd and
the length in front is right: if the motd has no characters beyond the basic plane, which count
once there, and the characters are not too many for a length of 16 bits. -/
def ReadableBefore1_4 (response : LegacyPingResponse) : Prop :=
  ∃ packet : Bytes,
    (∀ Q R : Type, (sendPre1_4Response [] response : Future Q R Unit) = writeAll packet) ∧
    (((textsAtSigns <$> takeUnits).run packet).1 =
        .ok [response.motd, response.online, response.maxPlayers] ↔
      '§' ∉ response.motd.toList ∧ (∀ c ∈ response.motd.toList, c.toNat < 0x10000) ∧
        response.motd.length + response.online.length + response.maxPlayers.length + 2 < 2 ^ 16)

/-- A client from 1.4 on gets all texts back if there is no zero character in the motd or the
version and the units, with the seven of the marker and the separators, are not too many for a
length of 16 bits. -/
def ReadableFrom1_4 (response : LegacyPingResponse) : Prop :=
  ∃ packet : Bytes,
    (∀ Q R : Type, (send14_16Response response : Future Q R Unit) = writeAll packet) ∧
    (((textsAtZeros <$> takeUnits).run packet).1 = .ok ["§1", response.protocol,
        response.version, response.motd, response.online, response.maxPlayers] ↔
      (Char.ofNat 0 ∉ response.motd.toList ∧ Char.ofNat 0 ∉ response.version.toList) ∧
        Server.LegacyPing.textsWidth [response.protocol, response.version, response.motd,
          response.online, response.maxPlayers] + 7 < 2 ^ 16)

/-- The numbers of a response are numerals. -/
def HasNumerals (response : LegacyPingResponse) : Prop :=
  ∀ field : Field, field.IsNumber → Numeral (response.text field)

/-- What a client takes of a packet whose length in front, cut to 16 bits, is not more than that
of its units. -/
theorem take_units_run {n : Nat} {us : List UInt16} (h : n % 2 ^ 16 ≤ us.length) :
    (takeUnits.run (Server.LegacyPing.packetOf n us)).1 = .ok (us.take (n % 2 ^ 16)) := by
  have hvalue : BigEndian.value (BigEndian.bytes 2 n) = n % 2 ^ 16 :=
    BigEndian.value_bytes_mod 2 n
  have hlength : (unitBytes (us.take (n % 2 ^ 16))).length = 2 * (n % 2 ^ 16) := by
    rw [length_unit_bytes, List.length_take_of_le h]
  have hfield := Reader.read_exact_append (BigEndian.bytes 2 n) (unitBytes us)
  have hunits := Reader.read_exact_append (unitBytes (us.take (n % 2 ^ 16)))
    (unitBytes (us.drop (n % 2 ^ 16)))
  rw [BigEndian.length_bytes] at hfield
  rw [← unit_bytes_append, List.take_append_drop, hlength] at hunits
  rw [takeUnits, Server.LegacyPing.packetOf, List.append_assoc, List.singleton_append,
    bind_of_ok (Reader.read_byte_cons _ _), bind_of_ok (map_of_ok hfield _), hvalue,
    map_of_ok hunits, of_unit_bytes]

/-- What a client makes of the units that it takes is what was sent exactly if it takes all of
them and nothing else stands in the way. -/
theorem decoded_iff {decode : List UInt16 → List String} {texts : List String} {n : Nat}
    {us : List UInt16} {plain : Prop} (h : n % 2 ^ 16 ≤ us.length)
    (hall : decode us = texts ↔ plain)
    (hlength : ∀ vs, decode vs = texts → vs.length = us.length) :
    ((decode <$> takeUnits : Reader (List String)).run
        (Server.LegacyPing.packetOf n us)).1 = .ok texts ↔ plain ∧ n % 2 ^ 16 = us.length := by
  have htake := take_units_run h
  rcases hrun : takeUnits.run (Server.LegacyPing.packetOf n us) with ⟨o, rest⟩
  rw [hrun] at htake
  obtain rfl : o = _ := htake
  rw [map_of_ok hrun, Outcome.ok.injEq]
  constructor
  · intro hdecode
    have hn := hlength _ hdecode
    rw [List.length_take_of_le h] at hn
    rw [hn, List.take_length] at hdecode
    exact ⟨hall.mp hdecode, hn⟩
  · rintro ⟨hplain, hn⟩
    rw [hn, List.take_length]
    exact hall.mpr hplain

/-- Units that a client before 1.4 decodes to the same texts are as many. -/
theorem length_of_decoded {response : LegacyPingResponse} {vs : List UInt16}
    (h : textsAtSigns vs = [response.motd, response.online, response.maxPlayers]) :
    vs.length = ((current response).units .pre1_4).length := by
  have hpieces : (fromUtf16Lossy vs).toList.splitOn '§' =
      [response.motd, response.online, response.maxPlayers].map String.toList := by
    rw [← h, textsAtSigns, List.map_map]
    exact (List.map_id' _).symm.trans (List.map_congr_left fun _ _ => String.toList_ofList.symm)
  have hlist : (fromUtf16Lossy vs).toList =
      (fromUtf16Lossy ((current response).units .pre1_4)).toList := by
    have hjoin : ['§'].intercalate ((fromUtf16Lossy vs).toList.splitOn '§') =
      (fromUtf16Lossy vs).toList := List.intercalate_splitOn '§'
    rw [Server.LegacyPing.to_list_pre1_4, ← hjoin, hpieces]
    rfl
  rw [← length_encode_lossy vs, String.toList_injective hlist, length_encode_lossy]

/-- A client before 1.4 that takes all units is only misled by a sign in the motd. -/
theorem texts_at_signs_iff {response : LegacyPingResponse} (h : response.HasNumerals) :
    textsAtSigns ((current response).units .pre1_4) =
      [response.motd, response.online, response.maxPlayers] ↔ '§' ∉ response.motd.toList := by
  have honline : '§' ∉ response.online.toList := (numeral_plain (h .online trivial)).1
  have hmax : '§' ∉ response.maxPlayers.toList := (numeral_plain (h .maxPlayers trivial)).1
  rw [textsAtSigns, Server.LegacyPing.to_list_pre1_4]
  refine (map_split_intercalate_iff (fun _ => String.ofList_toList)
    (List.cons_ne_nil _ _)).trans ?_
  simp only [List.forall_mem_cons, current]
  simp [honline, hmax]

/-- A client from 1.4 on that takes all units is only misled by a zero. -/
theorem texts_at_zeros_iff {response : LegacyPingResponse} (h : response.HasNumerals) :
    textsAtZeros ((current response).units .pre1_7) = ["§1", response.protocol,
        response.version, response.motd, response.online, response.maxPlayers] ↔
      Char.ofNat 0 ∉ response.motd.toList ∧ Char.ofNat 0 ∉ response.version.toList := by
  have honline : Char.ofNat 0 ∉ response.online.toList := (numeral_plain (h .online trivial)).2
  have hmax : Char.ofNat 0 ∉ response.maxPlayers.toList :=
    (numeral_plain (h .maxPlayers trivial)).2
  have hprotocol : Char.ofNat 0 ∉ response.protocol.toList :=
    (numeral_plain (h .protocol trivial)).2
  refine (Server.LegacyPing.texts_decoded_iff _).trans ?_
  simp only [Server.LegacyPing.LegacyPingResponse.texts, List.forall_mem_cons, current]
  simp only [hprotocol, honline, hmax, not_false_eq_true, true_and, List.not_mem_nil,
    false_implies, implies_true, and_true]
  exact and_comm

/-- The units for a client before 1.4 are the characters, and one more for each of the motd beyond
the basic plane. -/
theorem length_units_of_numerals {response : LegacyPingResponse} (h : response.HasNumerals) :
    ((current response).units .pre1_4).length =
      (current response).lengthField .pre1_4 + astral response.motd := by
  have honline : astral response.online = 0 := numeral_basic (h .online trivial)
  have hmax : astral response.maxPlayers = 0 := numeral_basic (h .maxPlayers trivial)
  rw [Server.LegacyPing.length_units_pre1_4, Server.LegacyPing.length_field_pre1_4]
  simp only [Server.LegacyPing.LegacyPingResponse.width, Server.LegacyPing.textsWidth,
    Server.LegacyPing.LegacyPingResponse.texts, current]
  omega

/-- When a client before 1.4 gets the texts of a response with numerals back. -/
theorem readable_before1_4 {response : LegacyPingResponse} (h : response.HasNumerals) :
    ReadableBefore1_4 response := by
  have hfield : (current response).lengthField .pre1_4 =
      response.motd.length + response.online.length + response.maxPlayers.length + 2 :=
    Server.LegacyPing.length_field_pre1_4 (current response)
  have hunits := length_units_of_numerals h
  have hle : (current response).lengthField .pre1_4 % 2 ^ 16 ≤
      ((current response).units .pre1_4).length := by
    rw [hunits]
    exact Nat.le_trans (Nat.mod_le _ _) (Nat.le_add_right _ _)
  refine ⟨packet .pre1_4 response, fun _ _ => send_pre1_4_response response, ?_⟩
  rw [packet, decoded_iff hle (texts_at_signs_iff h) fun _ => length_of_decoded, hunits, hfield,
    ← astral_eq_zero_iff]
  refine and_congr_right fun _ => ?_
  omega

/-- When a client from 1.4 on does. -/
theorem readable_from1_4 {response : LegacyPingResponse} (h : response.HasNumerals) :
    ReadableFrom1_4 response := by
  have hunits : ((current response).units .pre1_7).length =
      Server.LegacyPing.textsWidth [response.protocol, response.version, response.motd,
        response.online, response.maxPlayers] + 7 :=
    Server.LegacyPing.length_units_pre1_7 (current response)
  have hfield : (current response).lengthField .pre1_7 =
    ((current response).units .pre1_7).length := rfl
  refine ⟨packet .pre1_7 response, fun _ _ => send14_16_response response, ?_⟩
  rw [packet, hfield, decoded_iff (Nat.mod_le _ _) (texts_at_zeros_iff h) fun _ hvs =>
    (length_of_map_split length_encode_lossy hvs).symm, hunits]
  refine and_congr_right fun _ => ?_
  omega

/-- What the setters can build: a chain of them panics exactly when it has a number that does not
fit. Otherwise each text is that of its last setter, and the clients get all of them back exactly
when there is no sign or zero in the motd and the version that separates texts and the length in
front of the packet is that of its units. -/
theorem built_response (setters : List Setter) :
    ((∃ setter ∈ setters, ¬ setter.Fits) →
      ∃ message, new.build setters = .panic (.explicit message)) ∧
    ((∀ setter ∈ setters, setter.Fits) → ∃ response, new.build setters = .ok response ∧
      (∀ field, response.text field = lastText field setters (new.text field)) ∧
      ReadableBefore1_4 response ∧ ReadableFrom1_4 response) := by
  have hnew : Has new new.text := fun _ => rfl
  refine ⟨fun ⟨setter, hmem, hunfit⟩ => ?_, fun h => ?_⟩
  · obtain ⟨_, ⟨message, rfl⟩, hbuild⟩ := Setters.chain_panics (P := IsExplicit)
      (fun setter _ => (em setter.Fits).imp replaces_of_fits panics_of_not_fits)
      ⟨setter, hmem, panics_of_not_fits hunfit⟩ hnew
    exact ⟨message, hbuild⟩
  obtain ⟨response, hbuild, hlast⟩ :=
    Setters.chain_succeeds (fun setter hmem => replaces_of_fits (h setter hmem)) hnew
  have hnumerals : response.HasNumerals := fun _ => numerals_of_last hlast
  exact ⟨response, hbuild, hlast, readable_before1_4 hnumerals, readable_from1_4 hnumerals⟩

end Bws.Session.LegacyPingResponse
