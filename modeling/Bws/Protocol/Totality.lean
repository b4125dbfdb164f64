import Bws.Protocol.RoundTrip

/-!
# Where the readers return

A reader returns on an input when it ends in a value or an error there, and neither unwinds
nor runs for ever. Fixed-width readers always return. A string or a vector returns exactly
when its length is not negative, and an unprefixed list returns when every element takes at
least one byte.
-/

namespace Bws.Protocol

open Bws.Base Bws.Base.Proc

variable {α : Type}

/-- The number at the front of the input is negative. -/
def NegativeLength (s : Bytes) : Prop :=
  ∃ n rest, StartsWithVarInt s n rest ∧ n.toInt < 0

/-- The input starts with a length that is not negative and as many bytes, `block`. -/
def StartsWithBlock (s block rest : Bytes) : Prop :=
  ∃ n, StartsWithVarInt s n (block ++ rest) ∧ n.toInt = block.length

/-- A length that is not negative, with no fewer bytes behind it. -/
theorem starts_with_block_of_le {s rest : Bytes} {n : Int32} (h : StartsWithVarInt s n rest)
    (hnonneg : 0 ≤ n.toInt) (hle : n.toInt ≤ rest.length) :
    StartsWithBlock s (rest.take n.toInt.toNat) (rest.drop n.toInt.toNat) := by
  refine ⟨n, by rwa [List.take_append_drop], ?_⟩
  rw [List.length_take]
  omega

/-- Fixed-width numbers always return. -/
@[simp] theorem returns_read_primitive [Primitive α] (s : Bytes) :
    Returns (readFrom : Reader α) s :=
  returns_bind_iff.mpr ⟨Reader.returns_read_exact _ _, fun _ _ _ => trivial⟩

/-- Booleans always return. -/
@[simp] theorem returns_read_bool (s : Bytes) : Returns (readFrom : Reader Bool) s :=
  returns_bind_iff.mpr ⟨Reader.returns_read_exact _ _, fun _ _ _ => trivial⟩

/-- Uuids always return. -/
@[simp] theorem returns_read_uuid (s : Bytes) : Returns (readFrom : Reader Uuid) s :=
  returns_bind_iff.mpr ⟨returns_read_primitive s, fun _ _ _ => trivial⟩

/-- Options return when their content does. -/
theorem returns_read_option [FromBytes α] (h : ∀ s, Returns (readFrom : Reader α) s)
    (s : Bytes) : Returns (readFrom : Reader (Option α)) s := by
  refine returns_bind_iff.mpr ⟨returns_read_bool s, fun tag rest _ => ?_⟩
  cases tag with
  | false => trivial
  | true => exact returns_bind_iff.mpr ⟨h rest, fun _ _ _ => trivial⟩

/-- A value is read behind a length and its allocation exactly when the length is not negative
and the value is read behind it. -/
theorem read_length_ok_iff {size : Nat} (hpos : 0 < size) (hsize : size ≤ 2 ^ 32)
    {f : VarInt → Unit → Reader α} {s rest : Bytes} {a : α} :
    (do
      let length ← readFrom (α := VarInt)
      let done ← allocate size (asUsize length.val)
      f length done).run s = (.ok a, rest) ↔
    ∃ n middle, StartsWithVarInt s n middle ∧ 0 ≤ n.toInt ∧
      (f ⟨n⟩ ()).run middle = (.ok a, rest) := by
  rw [bind_ok_iff]
  constructor
  · rintro ⟨⟨n⟩, middle, hlength, hrest⟩
    rw [allocate_length hpos hsize] at hrest
    split at hrest
    · next hnonneg => exact ⟨n, middle, read_varint_ok_iff.mp hlength, hnonneg, hrest⟩
    · cases hrest
  · rintro ⟨n, middle, hstart, hnonneg, hrest⟩
    refine ⟨⟨n⟩, middle, read_varint_of_starts hstart, ?_⟩
    rw [allocate_length hpos hsize, if_pos hnonneg]
    exact hrest

/-- What follows a length and its allocation returns exactly when the length is not negative,
provided it returns on every other length. -/
theorem returns_length_iff {size : Nat} (hpos : 0 < size) (hsize : size ≤ 2 ^ 32)
    {f : VarInt → Unit → Reader α} (hf : ∀ n u s, Returns (f n u) s) (s : Bytes) :
    Returns (do
      let length ← readFrom (α := VarInt)
      let done ← allocate size (asUsize length.val)
      f length done) s ↔ ¬ NegativeLength s := by
  rw [returns_bind_iff]
  constructor
  · rintro ⟨-, h⟩ ⟨n, rest, hstart, hneg⟩
    have halloc := (returns_bind_iff.mp (h ⟨n⟩ rest (read_varint_of_starts hstart))).1
    rw [allocate_length hpos hsize, if_neg (show ¬ 0 ≤ n.toInt by omega)] at halloc
    exact halloc
  · intro hneg
    refine ⟨returns_read_varint s, fun length rest hread => ?_⟩
    rw [allocate_length hpos hsize]
    split
    · exact hf _ _ _
    · next hlt =>
        exact absurd ⟨_, rest, read_varint_ok_iff.mp hread, Int.lt_of_not_ge hlt⟩ hneg

/-- A string returns exactly when its length is not negative. -/
theorem returns_read_string_iff (s : Bytes) :
    Returns (readFrom : Reader String) s ↔ ¬ NegativeLength s := by
  refine returns_length_iff (by decide) (by decide) (fun length _ rest => ?_) s
  refine returns_bind_iff.mpr ⟨Reader.returns_read_exact _ _, fun buffer _ _ => ?_⟩
  cases fromUtf8 buffer <;> trivial

variable [FromBytes α]

/-- Reading a number of elements that always return returns. -/
theorem returns_read_elements (h : ∀ s, Returns (readFrom : Reader α) s) (n : Nat)
    (s : Bytes) : Returns (readElements n : Reader (List α)) s := by
  induction n generalizing s with
  | zero => trivial
  | succ n ih =>
      refine returns_bind_iff.mpr ⟨h s, fun e rest _ => ?_⟩
      exact returns_bind_iff.mpr ⟨ih rest, fun _ _ _ => trivial⟩

/-- A vector of elements that always return, and are neither empty nor more than 4 GiB in
memory, returns exactly when its length is not negative. -/
theorem returns_read_vec_iff [Layout α] (h : ∀ s, Returns (readFrom : Reader α) s)
    (hpos : 0 < Layout.sizeOf α) (hsize : Layout.sizeOf α ≤ 2 ^ 32) (s : Bytes) :
    Returns (readFrom : Reader (Vec α)) s ↔ ¬ NegativeLength s := by
  refine returns_length_iff hpos hsize (fun length _ rest => ?_) s
  exact returns_bind_iff.mpr ⟨returns_read_elements h _ rest, fun _ _ _ => trivial⟩

/-- A successful read of an element takes at least one byte. -/
def ReadsSome (α : Type) [FromBytes α] : Prop :=
  ∀ s (a : α) rest, readFrom.run s = (.ok a, rest) → rest.length < s.length

/-- With an iteration for each byte of the input and one more, the loop of the list reader
comes to its end. -/
theorem returns_read_loop (h : ∀ s, Returns (readFrom : Reader α) s) (hsome : ReadsSome α)
    {fuel : Nat} {s : Bytes} (hfuel : s.length < fuel) (res : List α) :
    Returns (Proc.loop readElementOrEof fuel res) s := by
  induction fuel generalizing s res with
  | zero => omega
  | succ fuel ih =>
      rcases read_loop_cases fuel res s with ⟨a, rest, hread, hloop⟩ | ⟨_, rest, _, hloop⟩ |
        ⟨e, rest, _, _, hloop⟩ | ⟨r, rest, hread, _⟩ | ⟨rest, hread, _⟩
      · have hshort := hsome s a rest hread
        rw [Returns, hloop]
        exact ih (by omega) _
      · exact returns_of_ok hloop
      · exact returns_of_err hloop
      · exact absurd (h s) (by simp [Returns, hread, Outcome.Returned])
      · exact absurd (h s) (by simp [Returns, hread, Outcome.Returned])

/-- An unprefixed list of elements that always return and take at least one byte returns. -/
theorem returns_read_box_slice (h : ∀ s, Returns (readFrom : Reader α) s)
    (hsome : ReadsSome α) (s : Bytes) : Returns (readFrom : Reader (BoxSlice α)) s :=
  returns_map_iff.mpr (returns_read_loop h hsome (Nat.lt_succ_self s.length) [])

/-! ## Bytes -/

/-- A byte is read from the front of a non-empty input. -/
theorem read_u8_cons (b : UInt8) (s : Bytes) :
    (readFrom : Reader UInt8).run (b :: s) = (.ok b, s) := by
  have hbyte : (Primitive.ofNat (BigEndian.value [b]) : UInt8) = b := by
    rw [BigEndian.value, List.foldl_cons, List.foldl_nil, Nat.zero_mul, Nat.zero_add]
    exact Primitive.ofNat_toNat b
  refine (bind_of_ok (Reader.read_exact_append [b] s) _).trans ?_
  rw [hbyte, run_pure]

/-- At the end of the input there is no byte. -/
theorem read_u8_nil : (readFrom : Reader UInt8).run [] = (.err Reader.eof, []) := rfl

/-- Where a byte is read, and which. -/
theorem read_u8_ok_iff {s rest : Bytes} {b : UInt8} :
    (readFrom : Reader UInt8).run s = (.ok b, rest) ↔ s = b :: rest := by
  cases s with
  | nil => simp [read_u8_nil]
  | cons c s => simp [read_u8_cons]

/-- A byte takes a byte. -/
theorem u8_reads_some : ReadsSome UInt8 := by
  intro s b rest h
  rw [read_u8_ok_iff.mp h]
  exact Nat.lt_succ_self _

/-- Bytes read one at a time are the front of the input. -/
theorem read_u8s_ok_iff {n : Nat} {s bytes rest : Bytes} :
    (readElements n : Reader (List UInt8)).run s = (.ok bytes, rest) ↔
      s = bytes ++ rest ∧ bytes.length = n := by
  induction n generalizing s bytes with
  | zero =>
      simp only [readElements, run_pure, Prod.mk.injEq, Outcome.ok.injEq]
      constructor
      · rintro ⟨rfl, rfl⟩
        exact ⟨rfl, rfl⟩
      · rintro ⟨rfl, hlen⟩
        obtain rfl := List.eq_nil_of_length_eq_zero hlen
        exact ⟨rfl, rfl⟩
  | succ n ih =>
      rw [readElements, bind_ok_iff]
      constructor
      · rintro ⟨b, middle, hhead, htail⟩
        obtain ⟨bs, _, hrest, hend⟩ := bind_ok_iff.mp htail
        obtain ⟨rfl, rfl⟩ : b :: bs = bytes ∧ _ = rest := by simpa using hend
        obtain rfl := read_u8_ok_iff.mp hhead
        obtain ⟨rfl, rfl⟩ := ih.mp hrest
        exact ⟨rfl, rfl⟩
      · rintro ⟨rfl, hlen⟩
        obtain ⟨b, bs, rfl⟩ := List.exists_cons_of_length_eq_add_one hlen
        refine ⟨b, bs ++ rest, read_u8_cons _ _, ?_⟩
        rw [bind_of_ok (ih.mpr ⟨rfl, by simpa using hlen⟩)]
        rfl

/-- A vector of bytes is read exactly from a length with as many bytes behind it. -/
theorem read_byte_vec_ok_iff {s rest : Bytes} {v : Vec UInt8} :
    (readFrom : Reader (Vec UInt8)).run s = (.ok v, rest) ↔ StartsWithBlock s v.elems rest := by
  refine (read_length_ok_iff (by decide) (by decide)).trans ?_
  constructor
  · rintro ⟨n, middle, hstart, hnonneg, hrest⟩
    obtain ⟨elems, hread, rfl⟩ := map_ok_iff.mp hrest
    obtain ⟨rfl, hlen⟩ := read_u8s_ok_iff.mp hread
    change elems.length = n.toInt.toNat at hlen
    exact ⟨n, hstart, by rw [hlen, Int.toNat_of_nonneg hnonneg]⟩
  · rintro ⟨n, hstart, hlen⟩
    have hcount : v.elems.length = n.toInt.toNat := by omega
    refine ⟨n, _, hstart, by omega, ?_⟩
    exact map_ok_iff.mpr ⟨v.elems, read_u8s_ok_iff.mpr ⟨rfl, hcount⟩, rfl⟩

/-- A string is read exactly from a length with the bytes of the string behind it. -/
theorem read_string_ok_iff {s rest : Bytes} {string : String} :
    (readFrom : Reader String).run s = (.ok string, rest) ↔
      StartsWithBlock s (asBytes string) rest := by
  constructor
  · intro h
    obtain ⟨n, middle, hstart, hnonneg, hrest⟩ :=
      (read_length_ok_iff (by decide) (by decide)).mp h
    obtain ⟨buffer, _, hread, hdecode⟩ := bind_ok_iff.mp hrest
    obtain ⟨rfl, hlen⟩ := Reader.read_exact_ok_iff.mp hread
    rw [as_usize_of_nonneg hnonneg] at hlen
    rcases hutf : fromUtf8 buffer with _ | decoded
    · rw [hutf] at hdecode
      cases hdecode
    · rw [hutf] at hdecode
      obtain ⟨rfl, rfl⟩ : decoded = string ∧ _ = rest := by simpa using hdecode
      rw [from_utf8_eq_some_iff.mp hutf]
      exact ⟨n, hstart, by omega⟩
  · rintro ⟨n, hstart, hlen⟩
    have hsize := as_usize_of_nonneg (n := n) (by omega)
    have hfit := n.toInt_lt
    refine read_string_of_prefix hstart (by omega) ?_ (from_utf8_eq_some_iff.mpr rfl)
    unfold isizeMax
    omega

end Bws.Protocol
