import Bws.Base.JsonPrint
import Bws.Base.Setters
import Bws.Protocol.Json
import Mathlib.Algebra.Order.BigOperators.Group.List
import Mathlib.Data.List.Sort

/-!
# Building a status response

`StatusResponseBuilder` keeps a JSON object, and each of its setters assigns to one member. The
JSON library behind it is `SerdeObject`, with what is documented of it.

`built_status` is the result: no chain of setters panics, the members are those of their last
setters, and no reader of packets ever takes the response in. The text of a response is too long
for its length to be a byte of space, and an object cannot stand behind any other byte.
-/

namespace Bws.Protocol

open Bws.Base

/-! ## JSON objects -/

/-- `serde_json` at what a builder does: `json!` of the types of its arguments, the members of an
object in the order of its map, and `value[key] = member`. -/
class SerdeObject (J : Type) where
  string : String → J
  number : Int32 → J
  bool : Bool → J
  array : List J → J
  object : List (String × J) → J
  asObject : J → Option (List (String × J))
  assign : J → String → J → Outcome J

/-- The texts of bytes and of a `Uuid` that libraries make: `base64`, with its standard alphabet
and padding, and the groups of hexadecimal digits. -/
class TextEncodings where
  base64 : Bytes → String
  hyphenated : Uuid → String

section Documented

variable (J : Type) [SerdeJson J] [SerdeObject J]

/-- What is documented of the JSON library at objects. Their members have different names, in the
order of the names or any other, and an assignment replaces or inserts a member. Texts are compact,
and a string stands between quotes. -/
structure SerdeObject.Documented : Prop where
  object_members : ∀ members : List (String × J), (members.map Prod.fst).Nodup →
    ∃ entries, asObject (object members) = some entries ∧ entries.Perm members
  assign_members : ∀ (v : J) entries key member, asObject v = some entries →
    ∃ v' entries', assign v key member = .ok v' ∧ asObject v' = some entries' ∧
      entries'.Perm ((key, member) :: entries.filter fun entry => entry.1 ≠ key)
  prints_object : ∀ (v : J) entries, asObject v = some entries →
    SerdeJson.toString v = "\x7b" ++ ",".intercalate (entries.map fun entry =>
      SerdeJson.toString (string entry.1 : J) ++ ":" ++ SerdeJson.toString entry.2) ++ "\x7d"
  prints_string : ∀ s : String,
    s.utf8ByteSize + 2 ≤ (SerdeJson.toString (string s : J)).utf8ByteSize
  prints_value : ∀ v : J, Json.Value (asBytes (SerdeJson.toString v))
  accepts : ∀ s (v : J) rest, SerdeJson.fromReader.run s = (.ok v, rest) → Json.Text s

end Documented

/-! ## The builder -/

variable {J : Type}

/-- A line of the list of players. -/
structure PlayerSample (J : Type) where
  json : J

namespace PlayerSample

variable [SerdeObject J]

/-- `PlayerSample::new(..)`. -/
def new [TextEncodings] (username : String) (uuid : Uuid) : PlayerSample J :=
  ⟨SerdeObject.object [("name", SerdeObject.string username),
    ("id", SerdeObject.string (TextEncodings.hyphenated uuid))]⟩

/-- `PlayerSample::from_text(..)`. -/
def fromText (text : String) : PlayerSample J :=
  ⟨SerdeObject.object [("name", SerdeObject.string text),
    ("id", SerdeObject.string "00000000-0000-0000-0000-000000000000")]⟩

end PlayerSample

/-- A status response that is being built. -/
structure StatusResponseBuilder (J : Type) where
  json : J

namespace StatusResponseBuilder

open SerdeObject

variable [SerdeObject J]

/-- The object of the version. -/
def versionObject (version : String) (protocol : Int32) : J :=
  object [("name", string version), ("protocol", number protocol)]

/-- `StatusResponseBuilder::new(..)`. -/
def new (version : String) (protocol : Int32) : StatusResponseBuilder J :=
  ⟨object [("version", versionObject version protocol)]⟩

/-- `self.json[key] = member`. -/
def setMember (builder : StatusResponseBuilder J) (key : String) (member : J) :
    Outcome (StatusResponseBuilder J) :=
  match assign builder.json key member with
  | .ok json => .ok ⟨json⟩
  | .err e => .err e
  | .panic r => .panic r
  | .diverge => .diverge

/-- `.players(..)`. -/
def players (builder : StatusResponseBuilder J) (online max : Int32)
    (sample : List (PlayerSample J)) : Outcome (StatusResponseBuilder J) :=
  builder.setMember "players" (object [("max", number max), ("online", number online),
    ("sample", array (sample.map PlayerSample.json))])

/-- `.enforces_secure_chat(..)`. -/
def enforcesSecureChat (builder : StatusResponseBuilder J) (enforces : Bool) :
    Outcome (StatusResponseBuilder J) :=
  builder.setMember "enforcesSecureChat" (bool enforces)

/-- `.description_raw(..)`. -/
def descriptionRaw (builder : StatusResponseBuilder J) (description : J) :
    Outcome (StatusResponseBuilder J) :=
  builder.setMember "description" description

/-- `.description(..)`. -/
def description (builder : StatusResponseBuilder J) (description : String) :
    Outcome (StatusResponseBuilder J) :=
  builder.setMember "description" (string description)

/-- `.favicon(..)`. -/
def favicon [TextEncodings] (builder : StatusResponseBuilder J) (png : Bytes) :
    Outcome (StatusResponseBuilder J) :=
  builder.setMember "favicon" (string ("data:image/png;base64," ++ TextEncodings.base64 png))

/-- `.build()`. -/
def build (builder : StatusResponseBuilder J) : StatusResponse J := ⟨⟨builder.json⟩⟩

/-- A setter and its arguments. -/
inductive Setter (J : Type) where
  | players (online max : Int32) (sample : List (PlayerSample J))
  | enforcesSecureChat (enforces : Bool)
  | descriptionRaw (value : J)
  | description (text : String)
  | favicon (png : Bytes)

/-- One call of a setter. -/
def set [TextEncodings] (builder : StatusResponseBuilder J) :
    Setter J → Outcome (StatusResponseBuilder J)
  | .players online max sample => builder.players online max sample
  | .enforcesSecureChat enforces => builder.enforcesSecureChat enforces
  | .descriptionRaw value => builder.descriptionRaw value
  | .description text => builder.description text
  | .favicon png => builder.favicon png

/-! ## Members -/

/-- The member that a setter assigns to. -/
def Setter.key : Setter J → String
  | .players _ _ _ => "players"
  | .enforcesSecureChat _ => "enforcesSecureChat"
  | .descriptionRaw _ | .description _ => "description"
  | .favicon _ => "favicon"

/-- What it assigns. -/
def Setter.member [TextEncodings] : Setter J → J
  | .players online max sample => object [("max", number max), ("online", number online),
      ("sample", array (sample.map PlayerSample.json))]
  | .enforcesSecureChat enforces => bool enforces
  | .descriptionRaw value => value
  | .description text => string text
  | .favicon png => string ("data:image/png;base64," ++ TextEncodings.base64 png)

/-- The members of a response that a chain of setters makes: the version, and what the last
setter of each other member assigns. -/
def lastMembers [TextEncodings] (version : String) (protocol : Int32) (setters : List (Setter J))
    (key : String) : Option J :=
  if key = "version" then some (versionObject version protocol)
  else Setters.last Setter.key (fun setter => some setter.member) key setters none

/-- A value is an object with these members, each of them once. -/
def IsObject (v : J) (members : String → Option J) : Prop :=
  ∃ entries, asObject v = some entries ∧ (entries.map Prod.fst).Nodup ∧
    ∀ key member, (key, member) ∈ entries ↔ members key = some member

/-- The builder keeps an object with these members. -/
def HasMembers (builder : StatusResponseBuilder J) (members : String → Option J) : Prop :=
  IsObject builder.json members

variable [SerdeJson J]

section Chains

variable [TextEncodings] (h : SerdeObject.Documented J)

omit [TextEncodings] in
include h in
/-- A new builder has the version. -/
theorem new_has_members (version : String) (protocol : Int32) :
    HasMembers (new version protocol : StatusResponseBuilder J) fun key =>
      if key = "version" then some (versionObject version protocol) else none := by
  obtain ⟨entries, hentries, hperm⟩ := h.object_members
    [("version", (versionObject version protocol : J))] (List.nodup_singleton _)
  refine ⟨entries, hentries, (hperm.map Prod.fst).nodup_iff.mpr (List.nodup_singleton _), ?_⟩
  intro key member
  rw [hperm.mem_iff, List.mem_singleton, Prod.mk.injEq]
  by_cases hkey : key = "version"
  · simp [hkey, eq_comm]
  · simp [hkey]

omit [TextEncodings] in
include h in
/-- An assignment replaces one member. -/
theorem set_member_succeeds {builder : StatusResponseBuilder J} {members : String → Option J}
    (hbuilder : HasMembers builder members) (key : String) (member : J) :
    ∃ builder', builder.setMember key member = .ok builder' ∧
      HasMembers builder' (Function.update members key (some member)) := by
  obtain ⟨entries, hentries, hnodup, hmembers⟩ := hbuilder
  obtain ⟨v', entries', hassign, hentries', hperm⟩ :=
    h.assign_members builder.json entries key member hentries
  refine ⟨⟨v'⟩, by rw [setMember, hassign], entries', hentries', ?_, fun key' member' => ?_⟩
  · refine (hperm.map Prod.fst).nodup_iff.mpr (List.nodup_cons.mpr ⟨?_, ?_⟩)
    · simp
    · exact hnodup.sublist (List.filter_sublist.map Prod.fst)
  · rw [hperm.mem_iff, List.mem_cons, List.mem_filter, hmembers, Prod.mk.injEq,
      Function.update_apply]
    split
    · next hkey => simp [hkey, eq_comm]
    · next hkey => simp [hkey]

include h in
/-- Each setter replaces its own member. -/
theorem setter_replaces (setter : Setter J) :
    Setters.Replaces Setter.key (fun setter => some setter.member) HasMembers set setter := by
  intro builder members hbuilder
  have hset : builder.set setter = builder.setMember setter.key setter.member := by
    cases setter <;> rfl
  rw [hset]
  exact set_member_succeeds h hbuilder setter.key setter.member

include h in
/-- A chain of setters makes an object of the last members. -/
theorem chain_has_members (version : String) (protocol : Int32) (setters : List (Setter J)) :
    ∃ builder, Setters.chain set (new version protocol) setters = .ok builder ∧
      HasMembers builder (lastMembers version protocol setters) := by
  obtain ⟨builder, hchain, hmembers⟩ := Setters.chain_succeeds
    (fun setter (_ : setter ∈ setters) => setter_replaces h setter)
    (new_has_members h version protocol)
  refine ⟨builder, hchain, ?_⟩
  have hlast : lastMembers version protocol setters = fun key =>
      Setters.last Setter.key (fun setter => some setter.member) key setters
        (if key = "version" then some (versionObject version protocol) else none) := by
    funext key
    unfold lastMembers
    split
    · next hkey =>
        -- no setter assigns to the version
        refine (Setters.last_of_unset _ _ (fun setter _ => ?_) _).symm
        rw [hkey]
        cases setter <;> simp [Setter.key]
    · rfl
  rw [hlast]
  exact hmembers

end Chains

/-! ## The size of a response -/

/-- Strings are no longer than with others between them. -/
theorem sum_sizes_le (s : String) (ts : List String) :
    (ts.map String.utf8ByteSize).sum ≤ (s.intercalate ts).utf8ByteSize := by
  induction ts with
  | nil => simp
  | cons t ts ih =>
      cases ts with
      | nil => simp
      | cons u us =>
          rw [String.intercalate_cons_cons, String.utf8ByteSize_append,
            String.utf8ByteSize_append, List.map_cons, List.sum_cons]
          omega

section Sizes

variable (h : SerdeObject.Documented J)

/-- The bytes that a member takes at least: its name between quotes, a colon, and its value. -/
def memberSize (entry : String × J) : Nat :=
  entry.1.utf8ByteSize + 3 + (SerdeJson.toString entry.2).utf8ByteSize

include h in
/-- The text of an object has those of its members between braces. -/
theorem object_size {v : J} {entries : List (String × J)} (hv : asObject v = some entries) :
    (entries.map memberSize).sum + 2 ≤ (SerdeJson.toString v).utf8ByteSize := by
  let print : String × J → String := fun entry =>
    SerdeJson.toString (string entry.1 : J) ++ ":" ++ SerdeJson.toString entry.2
  have hmembers : (entries.map memberSize).sum ≤
      ((entries.map print).map String.utf8ByteSize).sum := by
    rw [List.map_map]
    refine List.sum_le_sum fun entry _ => ?_
    have hname := h.prints_string entry.1
    have hcolon : (":" : String).utf8ByteSize = 1 := by decide
    simp only [memberSize, print, Function.comp_apply, String.utf8ByteSize_append, hcolon]
    omega
  have hbraces : ("\x7b" : String).utf8ByteSize = 1 ∧ ("\x7d" : String).utf8ByteSize = 1 := by
    decide
  have hcommas := sum_sizes_le "," (entries.map print)
  have htext : SerdeJson.toString v = "\x7b" ++ ",".intercalate (entries.map print) ++ "\x7d" :=
    h.prints_object v entries hv
  rw [htext, String.utf8ByteSize_append, String.utf8ByteSize_append]
  omega

include h in
/-- The text of a number is not empty. -/
theorem number_size (n : Int32) : 1 ≤ (SerdeJson.toString (number n : J)).utf8ByteSize := by
  obtain ⟨b, rest, htext, -⟩ := Json.value_first (h.prints_value (number n))
  rw [← length_as_bytes, htext, List.length_cons]
  omega

include h in
/-- The version takes 23 bytes at least. -/
theorem version_size (version : String) (protocol : Int32) :
    23 ≤ (SerdeJson.toString (versionObject version protocol : J)).utf8ByteSize := by
  obtain ⟨entries, hentries, hperm⟩ := h.object_members
    [("name", (string version : J)), ("protocol", number protocol)] (by simp)
  have hsize := object_size h hentries
  have hnames : ("name" : String).utf8ByteSize = 4 ∧ ("protocol" : String).utf8ByteSize = 8 := by
    decide
  have hname := h.prints_string version
  have hnumber := number_size h protocol
  rw [(hperm.map memberSize).sum_eq] at hsize
  simp only [List.map_cons, List.map_nil, List.sum_cons, List.sum_nil, memberSize] at hsize
  unfold versionObject
  omega

include h in
/-- An object with a version takes 35 bytes at least. -/
theorem response_size {v : J} {members : String → Option J} (hv : IsObject v members)
    {version : String} {protocol : Int32}
    (hversion : members "version" = some (versionObject version protocol)) :
    35 ≤ (SerdeJson.toString v).utf8ByteSize := by
  obtain ⟨entries, hentries, -, hmembers⟩ := hv
  have hmem := (hmembers _ _).mpr hversion
  have hmember := List.single_le_sum (fun _ _ => Nat.zero_le _) _
    (List.mem_map_of_mem (f := memberSize) hmem)
  have hname : ("version" : String).utf8ByteSize = 7 := by decide
  have hsize := object_size h hentries
  have hobject := version_size h version protocol
  simp only [memberSize] at hmember
  omega

include h in
/-- The text of an object is not that of a number. -/
theorem object_not_number {v : J} {members : String → Option J} (hv : IsObject v members) :
    ¬ Json.Number (asBytes (SerdeJson.toString v)) := by
  obtain ⟨entries, hentries, -⟩ := hv
  intro hnumber
  have hopen : Json.utf8 "\x7b" = [0x7B] := by decide
  have hbrace : (0x7B : UInt8) ∈ Json.utf8 (SerdeJson.toString v) := by
    rw [h.prints_object v entries hentries, Json.utf8_append, Json.utf8_append, hopen]
    simp
  exact absurd (hnumber.bytes _ hbrace) (by decide)

include h in
/-- The text of a long object with its length in front is no JSON text. -/
theorem not_text_sized {v : J} {members : String → Option J} (hv : IsObject v members)
    (hfits : StringFits (SerdeJson.toString v))
    (hlong : 35 ≤ (SerdeJson.toString v).utf8ByteSize) :
    ¬ Json.Text (sized (SerdeJson.toString v)) := by
  rw [sized, length_prefix_bytes hfits]
  intro htext
  by_cases hn : (SerdeJson.toString v).utf8ByteSize < 128
  · rw [Leb128.encode_of_lt hn] at htext
    have hspace := space_of_short_text hn (h.prints_value v)
      (fun hnumber => absurd hnumber (object_not_number h hv)) htext
    have hall : ∀ m ∈ [9, 10, 13, 32], m < 35 := by decide
    exact absurd (hall _ hspace) (Nat.not_lt_of_le hlong)
  · exact not_text_long (Nat.le_of_not_lt hn) _ htext

end Sizes

/-! ## The packet -/

omit [SerdeObject J] in
/-- What is written of a response. -/
theorem written_response {response : StatusResponse J} {n : Nat} {bytes : Bytes}
    (h : (writeTo (CBStatus.statusResponse response)).run [] = (.ok n, bytes)) :
    StringFits (SerdeJson.toString response.json.val) ∧
      bytes = (⟨0⟩ : VarInt).bytes ++ sized (SerdeJson.toString response.json.val) := by
  have hwrite : (writeTo (CBStatus.statusResponse response) : Proc Bytes Nat) =
      writeTo (⟨0⟩ : VarInt) >>= fun k =>
        (writeTo (SerdeJson.toString response.json.val) >>= fun n => pure (0 + n)) >>= fun n =>
          pure (k + n) := rfl
  rw [hwrite] at h
  obtain ⟨k, tagged, htag, hrest⟩ := Proc.bind_ok_iff.mp h
  obtain ⟨m, all, hpacket, hend⟩ := Proc.bind_ok_iff.mp hrest
  obtain ⟨l, out, htext, hfield⟩ := Proc.bind_ok_iff.mp hpacket
  obtain ⟨-, rfl⟩ := Prod.mk.inj hend
  obtain ⟨-, rfl⟩ := Prod.mk.inj hfield
  obtain ⟨-, rfl⟩ := Prod.mk.inj ((write_varint_run ⟨0⟩ []).symm.trans htag)
  have hfits := (string_succeeds (SerdeJson.toString response.json.val) _).mp ⟨l, _, htext⟩
  obtain ⟨-, rfl⟩ := Prod.mk.inj ((write_string_run hfits _).symm.trans htext)
  exact ⟨hfits, rfl⟩

omit [SerdeObject J] in
/-- A reader of packets that takes in the tag 0 and some bytes has found a JSON value there. -/
theorem value_of_read {payload rest : Bytes} {a : CBStatus J}
    (h : readFrom.run ((⟨0⟩ : VarInt).bytes ++ payload) = (.ok a, rest)) :
    ∃ v : J, SerdeJson.fromReader.run payload = (.ok v, rest) := by
  have hstart := starts_with_bytes ⟨0⟩ payload
  cases a with
  | statusResponse response =>
      obtain ⟨middle, htag, hread⟩ := read_first_variant_ok_iff.mp ((derived_ok_iff rfl).mp h)
      obtain ⟨-, rfl⟩ := htag.unique hstart
      have hjson := read_field_ok_iff.mp ((derived_ok_iff rfl).mp hread)
      exact ⟨response.json.val, (read_json_ok_iff _).mp hjson⟩
  | pingResponse packet =>
      obtain ⟨tag, middle, htag, hvariant⟩ := read_enum_ok_iff.mp ((derived_ok_iff rfl).mp h)
      obtain ⟨rfl, -⟩ := htag.unique hstart
      exact absurd rfl (read_variant_inr_iff.mp hvariant).1

/-- What a chain of setters makes of a new builder: an object with the version, and with what the
last setter of each other member assigns. What is written of it is never read back: a reader of
packets finds no packet there. -/
theorem built_status :
    ∀ (J : Type) [SerdeJson J] [SerdeObject J] [TextEncodings], SerdeObject.Documented J →
      ∀ (version : String) (protocol : Int32) (setters : List (Setter J)),
        ∃ builder, Setters.chain set (new version protocol) setters = .ok builder ∧
          IsObject builder.build.json.val (lastMembers version protocol setters) ∧
          ∀ n bytes, (writeTo (CBStatus.statusResponse builder.build)).run [] = (.ok n, bytes) →
            ∀ (a : CBStatus J) rest, readFrom.run bytes ≠ (.ok a, rest) := by
  intro J _ _ _ h version protocol setters
  obtain ⟨builder, hchain, hmembers⟩ := chain_has_members h version protocol setters
  refine ⟨builder, hchain, hmembers, fun n bytes hwrite a rest hread => ?_⟩
  obtain ⟨hfits, rfl⟩ := written_response hwrite
  obtain ⟨v, hvalue⟩ := value_of_read hread
  have hlong := response_size h hmembers (if_pos rfl)
  exact not_text_sized h hmembers hfits hlong (h.accepts _ v rest hvalue)

/-! ## A library of trees -/

open Json (Tree)

/-- Names are in order. -/
def nameLe (entry entry' : String × Tree) : Prop := entry.1 ≤ entry'.1

instance : DecidableRel nameLe := fun entry entry' =>
  inferInstanceAs (Decidable (entry.1 ≤ entry'.1))

/-- Texts are printed, and only `null` is parsed. -/
instance : SerdeJson Tree where
  toString := Tree.print
  fromReader := ⟨fun s =>
    if trim s = asBytes "null" then (.ok .null, [])
    else (.err ⟨.invalidData, "expected value"⟩, [])⟩

/-- The members of an object, which are in the order of their names. -/
def treeMembers : Tree → Option (List (String × Tree))
  | .object members => if (members.map Prod.fst).Nodup then some members else none
  | _ => none

instance : SerdeObject Tree where
  string := .string
  number n := .number n.toInt
  bool := .bool
  array := .array
  object members := .object (members.insertionSort nameLe)
  asObject := treeMembers
  assign v key member :=
    match treeMembers v with
    | some entries => .ok (.object
        ((entries.filter fun entry => entry.1 ≠ key).orderedInsert nameLe (key, member)))
    | none => .panic (.explicit "cannot access key in JSON value")

/-- No bytes, and the nil `Uuid`. -/
instance : TextEncodings where
  base64 _ := ""
  hyphenated _ := "00000000-0000-0000-0000-000000000000"

/-- Members with different names are those of their object. -/
theorem tree_members_of_nodup {members : List (String × Tree)}
    (h : (members.map Prod.fst).Nodup) : treeMembers (.object members) = some members :=
  if_pos h

/-- Nothing else has members. -/
theorem tree_members_eq_some {v : Tree} {entries : List (String × Tree)}
    (h : treeMembers v = some entries) :
    v = .object entries ∧ (entries.map Prod.fst).Nodup := by
  cases v with
  | object members =>
      obtain ⟨hnodup, hmembers⟩ := Option.ite_none_right_eq_some.mp h
      cases hmembers
      exact ⟨rfl, hnodup⟩
  | null | bool _ | number _ | string _ | array _ => cases h

/-- The texts of members, name by name. -/
theorem print_members_eq (members : List (String × Tree)) :
    Tree.printMembers members = members.map fun entry =>
      Json.quote entry.1 ++ ":" ++ entry.2.print := by
  induction members with
  | nil => rfl
  | cons entry members ih => rw [Tree.printMembers, ih, List.map_cons]

/-- The library of trees is as documented. -/
theorem tree_documented : SerdeObject.Documented Tree where
  object_members members hnodup := by
    have hperm := members.perm_insertionSort nameLe
    exact ⟨_, tree_members_of_nodup ((hperm.map Prod.fst).nodup_iff.mpr hnodup), hperm⟩
  assign_members v entries key member hv := by
    obtain ⟨rfl, hnodup⟩ := tree_members_eq_some hv
    have hperm := List.perm_orderedInsert nameLe (key, member)
      (entries.filter fun entry => entry.1 ≠ key)
    have hkeys : (((key, member) :: entries.filter fun entry => entry.1 ≠ key).map
        Prod.fst).Nodup :=
      List.nodup_cons.mpr ⟨by simp, hnodup.sublist (List.filter_sublist.map Prod.fst)⟩
    have hentries : treeMembers (.object entries) = some entries := tree_members_of_nodup hnodup
    refine ⟨_, _, ?_, tree_members_of_nodup ((hperm.map Prod.fst).nodup_iff.mpr hkeys), hperm⟩
    simp only [SerdeObject.assign, hentries]
  prints_object v entries hv := by
    obtain ⟨rfl, -⟩ := tree_members_eq_some hv
    change Tree.print _ = _
    rw [Tree.print, print_members_eq]
    rfl
  prints_string := Json.quote_size
  prints_value v := Json.print_value v
  accepts s v rest hread := by
    simp only [SerdeJson.fromReader] at hread
    split at hread
    · next htrim =>
        obtain ⟨before, after, hs, hbefore, hafter⟩ := trim_spaces s
        rw [htrim] at hs
        exact ⟨before, _, after, hs, hbefore, .null, hafter⟩
    · cases hread

/-- The description that counts is the second one, and the version stays. -/
theorem built_status_welcome :
    ∃ builder, Setters.chain set (new "1.20" 763 : StatusResponseBuilder Tree)
        [.description "hi", .enforcesSecureChat true,
          .descriptionRaw (.array [.string "welcome"])] = .ok builder ∧
      SerdeJson.toString builder.build.json.val =
        "\x7b\"description\":[\"welcome\"],\"enforcesSecureChat\":true," ++
          "\"version\":\x7b\"name\":\"1.20\",\"protocol\":763\x7d\x7d" ∧
      ∀ n bytes, (writeTo (CBStatus.statusResponse builder.build)).run [] = (.ok n, bytes) →
        ∀ (a : CBStatus Tree) rest, readFrom.run bytes ≠ (.ok a, rest) := by
  obtain ⟨builder, hchain, -, hunread⟩ := built_status Tree tree_documented "1.20" 763
    [.description "hi", .enforcesSecureChat true, .descriptionRaw (.array [.string "welcome"])]
  refine ⟨builder, hchain, ?_, hunread⟩
  cases hchain
  decide

end StatusResponseBuilder

end Bws.Protocol
