import Bws.Base.JsonText
import Bws.Protocol.Writable
import Bws.Protocol.DeriveLaws
import Mathlib.Data.List.TakeWhile

/-!
# JSON fields

A JSON value is written as a string, with its length in front, and read by a parser that takes
the whole input as one JSON text. The length is then part of the text, which survives only
when it is a single byte of JSON space: `json_read_back_iff`.
-/

namespace Bws.Protocol

open Bws.Base

variable (J : Type) [SerdeJson J]

/-- What is documented of the JSON library. `from_reader` takes the whole input as one JSON
text, may find space around it, and inverts `to_string`; a number is a 64-bit integer or
float, which takes at most 24 bytes. -/
structure SerdeJson.Documented : Prop where
  accepts : ∀ s (v : J) rest, SerdeJson.fromReader.run s = (.ok v, rest) →
    rest = [] ∧ Json.Text s
  ignores_space : ∀ before s after (v : J), Json.Spaces before → Json.Spaces after →
    SerdeJson.fromReader.run s = (.ok v, []) →
    SerdeJson.fromReader.run (before ++ s ++ after) = (.ok v, [])
  inverts : ∀ v : J, SerdeJson.fromReader.run (asBytes (SerdeJson.toString v)) = (.ok v, [])
  writes_value : ∀ v : J, Json.Value (asBytes (SerdeJson.toString v))
  number_le : ∀ v : J, Json.Number (asBytes (SerdeJson.toString v)) →
    (SerdeJson.toString v).utf8ByteSize ≤ 24

variable {J}

/-- `a` is written and read back from exactly the bytes written. -/
def ReadsBack {α : Type} [ToBytes α] [FromBytes α] (a : α) : Prop :=
  ∃ n bytes, (writeTo a).run [] = (.ok n, bytes) ∧ readFrom.run bytes = (.ok a, [])

/-- The text of a value has a length that is a byte of JSON space. -/
def LengthIsSpace (v : J) : Prop := (SerdeJson.toString v).utf8ByteSize ∈ [9, 10, 13, 32]

/-! ## The length in front of a text -/

/-- A string's bytes with its length in front. -/
def sized (s : String) : Bytes := (lengthPrefix s.utf8ByteSize).bytes ++ asBytes s

/-- The bytes of a length are the numeral of the number. -/
theorem length_prefix_bytes {n : Nat} (h : n ≤ i32Max) :
    (lengthPrefix n).bytes = Leb128.encode n := by
  have hlt : n < 2 ^ 32 := Nat.lt_of_le_of_lt h (by decide)
  have hbits : (Int32.ofNat n).toBitVec.toNat = n := Nat.mod_eq_of_lt hlt
  rw [VarInt.bytes, lengthPrefix, hbits]

/-- A length of one byte in front of a value makes a text only when it is space. -/
theorem space_of_short_text {n : Nat} {bs : Bytes} (hn : n < 128) (hv : Json.Value bs)
    (hnumber : Json.Number bs → n ≤ 24) (h : Json.Text (UInt8.ofNat n :: bs)) :
    n ∈ [9, 10, 13, 32] := by
  rcases Json.text_cons hv h with hspace | ⟨hfirst, hnum⟩
  · have hall : ∀ m < 128, Json.isSpace (UInt8.ofNat m) → m ∈ [9, 10, 13, 32] := by decide
    exact hall n hn hspace
  · have hall : ∀ m ≤ 24, Json.isFirst (UInt8.ofNat m) = false := by decide
    simp [hall n (hnumber hnum)] at hfirst

/-- A longer length in front makes no text. -/
theorem not_text_long {n : Nat} (hn : 128 ≤ n) (bs : Bytes) :
    ¬ Json.Text (Leb128.encode n ++ bs) := by
  rw [Leb128.encode_of_le hn, List.cons_append]
  intro h
  have hall : ∀ m < 128, Json.isSpace (UInt8.ofNat (m + 128)) = false ∧
      Json.isFirst (UInt8.ofNat (m + 128)) = false := by decide
  obtain ⟨hspace, hfirst⟩ := hall (n % 128) (Nat.mod_lt n (by decide))
  rcases Json.text_first h with hb | hb
  · exact absurd (hspace.symm.trans hb) (by decide)
  · exact absurd (hfirst.symm.trans hb) (by decide)

variable (h : SerdeJson.Documented J) (v : J)

include h in
/-- The parser takes the text of a value with its length in front back to the value exactly
when the length is a byte of space. -/
theorem read_sized_iff (hfits : StringFits (SerdeJson.toString v)) :
    SerdeJson.fromReader.run (sized (SerdeJson.toString v)) = (.ok v, []) ↔ LengthIsSpace v := by
  rw [sized, length_prefix_bytes hfits]
  constructor
  · intro hread
    obtain ⟨-, htext⟩ := h.accepts _ v _ hread
    by_cases hn : (SerdeJson.toString v).utf8ByteSize < 128
    · rw [Leb128.encode_of_lt hn] at htext
      exact space_of_short_text hn (h.writes_value v) (h.number_le v) htext
    · exact absurd htext (not_text_long (Nat.le_of_not_lt hn) _)
  · intro hspace
    have hall : ∀ m ∈ [9, 10, 13, 32], m < 128 ∧ Json.isSpace (UInt8.ofNat m) := by decide
    obtain ⟨hn, hbyte⟩ := hall _ hspace
    have hread := h.ignores_space [UInt8.ofNat _] _ [] v (List.forall_mem_singleton.mpr hbyte)
      (by simp [Json.Spaces]) (h.inverts v)
    rw [Leb128.encode_of_lt hn]
    simpa using hread

/-! ## Values and packets -/

omit h in
/-- A text whose length is a byte of space is short enough to be written. -/
theorem string_fits_of_space (hspace : LengthIsSpace v) :
    StringFits (SerdeJson.toString v) := by
  have hall : ∀ m ∈ [9, 10, 13, 32], m ≤ i32Max := by decide
  exact hall _ hspace

omit h in
/-- Where a JSON field is read, and what it is. -/
theorem read_json_ok_iff {s rest : Bytes} :
    (readFrom : Reader (JsonValue J)).run s = (.ok ⟨v⟩, rest) ↔
      SerdeJson.fromReader.run s = (.ok v, rest) := by
  constructor
  · intro hread
    obtain ⟨w, middle, hw, hend⟩ := Proc.bind_ok_iff.mp hread
    obtain ⟨hval, rfl⟩ := Prod.mk.inj hend
    cases hval
    exact hw
  · exact fun hread => Proc.bind_of_ok hread _

include h in
/-- A JSON value is read back exactly when the length of its text is a byte of space. -/
theorem json_value_read_back_iff : ReadsBack (⟨v⟩ : JsonValue J) ↔ LengthIsSpace v := by
  constructor
  · rintro ⟨n, bytes, hwrite, hread⟩
    have hfits := (string_succeeds (SerdeJson.toString v) []).mp ⟨n, bytes, hwrite⟩
    obtain ⟨-, rfl⟩ := Prod.mk.inj ((write_string_run hfits []).symm.trans hwrite)
    exact (read_sized_iff h v hfits).mp ((read_json_ok_iff v).mp hread)
  · intro hspace
    have hfits := string_fits_of_space v hspace
    refine ⟨_, _, write_string_run hfits [], (read_json_ok_iff v).mpr ?_⟩
    exact (read_sized_iff h v hfits).mpr hspace

include h in
/-- So is a packet that is the tag 0 and a JSON field. -/
theorem json_packet_read_back_iff {α : Type} [ToBytes α] [FromBytes α] {a : α}
    (hwrite : (writeTo a : Proc Bytes Nat) = do
      let k ← writeTo (⟨0⟩ : VarInt)
      let n ← (do let n ← writeTo (SerdeJson.toString v); pure (0 + n))
      pure (k + n))
    (hread : ∀ s rest, readFrom.run s = (.ok a, rest) ↔ ∃ middle, StartsWithVarInt s 0 middle ∧
      SerdeJson.fromReader.run middle = (.ok v, rest)) :
    ReadsBack a ↔ LengthIsSpace v := by
  have hsucceeds : SucceedsIff (writeTo a) (StringFits (SerdeJson.toString v)) := by
    rw [hwrite]
    refine ((varint_succeeds _).bind fun _ => (one_field_succeeds (string_succeeds _)).bind
      fun _ => .pure _).of_iff ?_
    simp
  have hrun : StringFits (SerdeJson.toString v) → ∃ n, (writeTo a).run [] =
      (.ok n, (⟨0⟩ : VarInt).bytes ++ sized (SerdeJson.toString v)) := by
    intro hfits
    have hstring := write_string_run hfits (⟨0⟩ : VarInt).bytes
    refine ⟨(⟨0⟩ : VarInt).bytes.length + (0 +
      ((lengthPrefix (SerdeJson.toString v).utf8ByteSize).bytes.length +
        (SerdeJson.toString v).utf8ByteSize)), ?_⟩
    rw [hwrite, Proc.bind_of_ok (write_varint_run _ []), bind_assoc, List.nil_append,
      Proc.bind_of_ok hstring]
    rfl
  -- behind the tag the parser gets the length and the text, and nothing else
  constructor
  · rintro ⟨n, bytes, hw, hr⟩
    have hfits := (hsucceeds []).mp ⟨n, bytes, hw⟩
    obtain ⟨m, hbytes⟩ := hrun hfits
    obtain ⟨-, rfl⟩ := Prod.mk.inj (hbytes.symm.trans hw)
    obtain ⟨middle, hstart, hjson⟩ := (hread _ _).mp hr
    obtain ⟨-, rfl⟩ := hstart.unique (starts_with_bytes ⟨0⟩ _)
    exact (read_sized_iff h v hfits).mp hjson
  · intro hspace
    have hfits := string_fits_of_space v hspace
    obtain ⟨m, hbytes⟩ := hrun hfits
    refine ⟨m, _, hbytes, (hread _ _).mpr ⟨_, starts_with_bytes ⟨0⟩ _, ?_⟩⟩
    exact (read_sized_iff h v hfits).mpr hspace

/-- A JSON value, and each of the packets that carry one, is read back exactly when the length
of the value's text is a byte of JSON space: 9, 10, 13 or 32. -/
theorem json_read_back_iff :
    ∀ (J : Type) [SerdeJson J], SerdeJson.Documented J → ∀ v : J,
      (ReadsBack (⟨v⟩ : JsonValue J) ↔ LengthIsSpace v) ∧
      (ReadsBack (CBStatus.statusResponse ⟨⟨v⟩⟩) ↔ LengthIsSpace v) ∧
      (ReadsBack (CBLogin.disconnect ⟨⟨v⟩⟩) ↔ LengthIsSpace v) := by
  intro J _ h v
  have hstatus : ∀ s rest, (readFrom : Reader (StatusResponse J)).run s = (.ok ⟨⟨v⟩⟩, rest) ↔
      SerdeJson.fromReader.run s = (.ok v, rest) := fun s rest => by
    refine (derived_ok_iff rfl).trans ?_
    exact read_field_ok_iff.trans (read_json_ok_iff v)
  have hdisconnect : ∀ s rest, (readFrom : Reader (Disconnect J)).run s = (.ok ⟨⟨v⟩⟩, rest) ↔
      SerdeJson.fromReader.run s = (.ok v, rest) := fun s rest => by
    refine (derived_ok_iff rfl).trans ?_
    exact read_field_ok_iff.trans (read_json_ok_iff v)
  refine ⟨json_value_read_back_iff h v, json_packet_read_back_iff h v rfl fun s rest => ?_,
    json_packet_read_back_iff h v rfl fun s rest => ?_⟩
  · refine ((derived_ok_iff rfl).trans read_first_variant_ok_iff).trans ?_
    exact exists_congr fun middle => and_congr_right fun _ => hstatus middle rest
  · refine ((derived_ok_iff rfl).trans read_first_variant_ok_iff).trans ?_
    exact exists_congr fun middle => and_congr_right fun _ => hdisconnect middle rest

/-! ## A library with two values -/

/-- The values `null` and `"welcome"`. -/
inductive Notice where
  | null
  | welcome
  deriving DecidableEq

/-- Without the space at both ends. -/
def trim (s : Bytes) : Bytes :=
  ((s.dropWhile Json.isSpace).reverse.dropWhile Json.isSpace).reverse

instance : SerdeJson Notice where
  toString
    | .null => "null"
    | .welcome => "\"welcome\""
  fromReader := ⟨fun s =>
    if trim s = asBytes "null" then (.ok .null, [])
    else if trim s = asBytes "\"welcome\"" then (.ok .welcome, [])
    else (.err ⟨.invalidData, "expected value"⟩, [])⟩

/-- What trimming takes away is space. -/
theorem trim_spaces (s : Bytes) :
    ∃ before after, s = before ++ trim s ++ after ∧ Json.Spaces before ∧ Json.Spaces after := by
  refine ⟨s.takeWhile Json.isSpace,
    ((s.dropWhile Json.isSpace).reverse.takeWhile Json.isSpace).reverse, ?_, ?_, ?_⟩
  · rw [trim, List.append_assoc, ← List.reverse_append, List.takeWhile_append_dropWhile,
      List.reverse_reverse, List.takeWhile_append_dropWhile]
  · exact fun b hb => List.mem_takeWhile_imp hb
  · exact fun b hb => List.mem_takeWhile_imp (List.mem_reverse.mp hb)

/-- Space at the front makes no difference to what is trimmed. -/
theorem trim_spaces_append {before : Bytes} (h : Json.Spaces before) (s : Bytes) :
    trim (before ++ s) = trim s := by
  rw [trim, List.dropWhile_append_of_pos h, trim]

/-- Nor does space at the end. -/
theorem trim_append_spaces {after : Bytes} (h : Json.Spaces after) (s : Bytes) :
    trim (s ++ after) = trim s := by
  have hreverse : ∀ b ∈ after.reverse, Json.isSpace b := fun b hb => h b (List.mem_reverse.mp hb)
  rw [trim, trim, List.dropWhile_append]
  split
  · next hempty =>
      rw [List.isEmpty_iff] at hempty
      rw [hempty, List.dropWhile_eq_nil_iff.mpr h]
  · rw [List.reverse_append, List.dropWhile_append_of_pos hreverse]

/-- The texts of the library are values. -/
theorem notice_value (v : Notice) : Json.Value (asBytes (SerdeJson.toString v)) := by
  cases v with
  | null => exact .null
  | welcome =>
      have hletter : ∀ b ∈ [(0x77 : UInt8), 0x65, 0x6C, 0x63, 0x6F, 0x6D],
          0x20 ≤ b ∧ b ≠ 0x22 ∧ b ≠ 0x5C := by decide +kernel
      have hchars : ∀ bs : Bytes, (∀ b ∈ bs, b ∈ [(0x77 : UInt8), 0x65, 0x6C, 0x63, 0x6F, 0x6D]) →
          Json.Chars bs := by
        intro bs hbs
        induction bs with
        | nil => exact .nil
        | cons b bs ih =>
            obtain ⟨hb, hrest⟩ := List.forall_mem_cons.mp hbs
            obtain ⟨hlow, hquote, hbackslash⟩ := hletter b hb
            exact .plain b bs hlow hquote hbackslash (ih hrest)
      exact .string (hchars [0x77, 0x65, 0x6C, 0x63, 0x6F, 0x6D, 0x65] (by decide +kernel))

/-- Where the library finds a value. -/
theorem notice_read_iff {s rest : Bytes} {v : Notice} :
    SerdeJson.fromReader.run s = (.ok v, rest) ↔
      trim s = asBytes (SerdeJson.toString v) ∧ rest = [] := by
  have hne : asBytes "\"welcome\"" ≠ asBytes "null" := by decide
  constructor
  · intro h
    simp only [SerdeJson.fromReader] at h
    split at h
    · next htrim =>
        cases h
        exact ⟨htrim, rfl⟩
    · split at h
      · next htrim =>
          cases h
          exact ⟨htrim, rfl⟩
      · cases h
  · rintro ⟨htrim, rfl⟩
    cases v with
    | null => exact if_pos htrim
    | welcome => exact (if_neg (htrim ▸ hne)).trans (if_pos htrim)

/-- The library of two values is as documented. -/
theorem notice_documented : SerdeJson.Documented Notice where
  accepts s v rest hread := by
    obtain ⟨htrim, rfl⟩ := notice_read_iff.mp hread
    obtain ⟨before, after, hs, hbefore, hafter⟩ := trim_spaces s
    rw [htrim] at hs
    exact ⟨rfl, before, _, after, hs, hbefore, notice_value v, hafter⟩
  ignores_space before s after v hbefore hafter hread := by
    obtain ⟨htrim, -⟩ := notice_read_iff.mp hread
    refine notice_read_iff.mpr ⟨?_, rfl⟩
    rw [trim_append_spaces hafter, trim_spaces_append hbefore, htrim]
  inverts v := by cases v <;> rfl
  writes_value := notice_value
  number_le v _ := by cases v <;> decide

/-- The nine bytes of `"welcome"` are read back. -/
theorem json_read_back_welcome :
    ReadsBack (⟨.welcome⟩ : JsonValue Notice) ∧
      ReadsBack (CBStatus.statusResponse ⟨⟨Notice.welcome⟩⟩) ∧
      ReadsBack (CBLogin.disconnect ⟨⟨Notice.welcome⟩⟩) := by
  have hspace : LengthIsSpace Notice.welcome := by
    unfold LengthIsSpace
    decide
  obtain ⟨hvalue, hstatus, hdisconnect⟩ := json_read_back_iff Notice notice_documented .welcome
  exact ⟨hvalue.mpr hspace, hstatus.mpr hspace, hdisconnect.mpr hspace⟩

/-- The four bytes of `null` are not read back. -/
theorem json_null_not_read_back :
    (writeTo (⟨.null⟩ : JsonValue Notice) : Proc Bytes Nat).run [] =
      (.ok 5, [4, 0x6E, 0x75, 0x6C, 0x6C]) ∧
    (readFrom : Reader (JsonValue Notice)).run [4, 0x6E, 0x75, 0x6C, 0x6C] =
      (.err ⟨.invalidData, "expected value"⟩, []) ∧
    ¬ ∀ (J : Type) [SerdeJson J], SerdeJson.Documented J → ∀ v : J,
      ReadsBack (⟨v⟩ : JsonValue J) := by
  refine ⟨by decide, by decide, fun h => ?_⟩
  have hspace := (json_value_read_back_iff notice_documented .null).mp
    (h Notice notice_documented .null)
  unfold LengthIsSpace at hspace
  exact absurd hspace (by decide)

end Bws.Protocol
